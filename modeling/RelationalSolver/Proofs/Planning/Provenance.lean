import Mathlib.Data.List.Perm.Basic
import RelationalSolver.Proofs.Planning.Cardinality
import RelationalSolver.Stream.Run

/-!
# Where the goals of a plan come from

Passes put goals into another order, give relations another row order and put in
constraints of their own.  So each goal of a plan has an origin among the goals of the
conjunction or none, every goal of the conjunction is the origin of one goal, and those that
are not both sized and report their variables stay in order.
-/

namespace RelationalSolver

open Engine

theorem exists_related {α β : Type} {R : α → β → Prop} {items : List α} {others : List β}
    (related : List.Forall₂ R items others) : ∀ a ∈ items, ∃ b ∈ others, R a b := by
  induction related with
  | nil => exact nofun
  | @cons a b items others here _ ih =>
      refine List.forall_mem_cons.mpr ⟨⟨b, List.mem_cons_self, here⟩, fun c member => ?_⟩
      obtain ⟨d, among, there⟩ := ih c member
      exact ⟨d, List.mem_cons_of_mem b among, there⟩

/-- The goal reports its variables and is sized. -/
def Goal.isRanked (g : Goal) : Bool := g.vars?.isSome && g.isSized

/-- A goal of a plan is its origin, at most with another row order; one without an origin is
a constraint that a pass has put in. -/
inductive Goal.StemsFrom : Goal → Option Goal → Prop where
  | itself (g : Goal) : StemsFrom g (some g)
  | reordered (a : Application) (order : RowOrder) :
      StemsFrom (.relation (a.withOrder order)) (some (.relation a))
  | restriction (v : Var) (values : TermSet) : StemsFrom (.constrain (.inDomain v values)) none
  | guard (factors : List Goal) : StemsFrom (.constrain (.cardinality factors)) none

theorem Pass.outcome_eq_feasible {step : Except Notice (List PlannedGoal)} {qs : List PlannedGoal}
    (made : (Pass.outcome step).1 = .feasible qs) : step = .ok qs := by
  cases step with
  | error notice => cases made
  | ok ps =>
      cases made
      rfl

/-- A relation whose rows are put into another order keeps its origin. -/
theorem Goal.StemsFrom.withOrder {g : Goal} {origin : Option Goal} {a : Application}
    (stems : g.StemsFrom origin) (isRelation : g.asApplication? = some a) (order : RowOrder) :
    Goal.StemsFrom (.relation (a.withOrder order)) origin := by
  cases stems with
  | itself g =>
      cases g <;> cases isRelation
      exact .reordered a order
  | reordered b _ =>
      cases isRelation
      exact .reordered b order
  | restriction => cases isRelation
  | guard => cases isRelation

/-- What is known about a goal of a plan is known of its origin. -/
structure PlannedGoal.StemsFrom (p : PlannedGoal) (origin : Option Goal) : Prop where
  goal : p.goal.StemsFrom origin
  ranked : p.isRanked = origin.any (·.isRanked)

/-- The goals that are origins, in order. -/
def origins (list : List (Option Goal)) : List Goal := list.filterMap id

/-- The origins that are not ranked, in order. -/
def unranked (list : List (Option Goal)) : List Goal := (origins list).filter (!·.isRanked)

namespace Planning

variable {s : Substitution} {ps qs out : List PlannedGoal} {list : List (Option Goal)}

/-- Goals with constraints put in that some pass makes. -/
inductive Injects : List PlannedGoal → List PlannedGoal → Prop where
  | nil : Injects [] []
  | keep {ps qs : List PlannedGoal} (p : PlannedGoal) : Injects ps qs → Injects (p :: ps) (p :: qs)
  | inject {ps qs : List PlannedGoal} {g : Goal} (made : g.StemsFrom none) :
      Injects ps qs → Injects ps (.injected g :: qs)

theorem Injects.refl (ps : List PlannedGoal) : Injects ps ps := by
  induction ps with
  | nil => exact .nil
  | cons p ps ih => exact .keep p ih

theorem Guarded.injects {before : List PlannedGoal} (guarded : Guarded before ps out) :
    Injects ps out := by
  induction guarded with
  | nil => exact .nil
  | guard _ _ ih => exact .inject (.guard _) (.keep _ ih)
  | bare _ _ ih => exact .keep _ ih

theorem restrictVar_stems {v : Var} {sharing : List PlannedGoal} {g : Goal}
    (found : restrictVar s v sharing = .ok (some g)) : g.StemsFrom none := by
  rw [restrictVar] at found
  split at found
  · cases found
  · split at found
    · cases found
    · cases found
    · cases found
      exact .restriction v _

theorem Injects.prepend {gs : List Goal} (made : ∀ g ∈ gs, g.StemsFrom none)
    (injects : Injects ps out) : Injects ps (gs.map .injected ++ out) := by
  induction gs with
  | nil => exact injects
  | cons g gs ih =>
      obtain ⟨here, there⟩ := List.forall_mem_cons.mp made
      exact .inject here (ih there)

theorem relevance_injects (made : relevance s ps = .ok out) : Injects ps out := by
  obtain ⟨restrictions, found, made⟩ := except_bind_eq_ok.mp made
  cases made
  refine .prepend (fun g member => ?_) (.refl ps)
  obtain ⟨restriction, among, rfl⟩ := List.mem_filterMap.mp member
  obtain ⟨_, _, found⟩ := exists_related (except_mapM_eq_ok.mp found).flip _ among
  exact restrictVar_stems found

/-! ### Tracing the goals through the passes -/

open PlannedGoal

/-- Goals that are put in have no origin; the others keep theirs. -/
theorem Injects.exists_origins (injects : Injects ps out) (stems : List.Forall₂ StemsFrom ps list) :
    ∃ others, List.Forall₂ StemsFrom out others ∧ origins others = origins list := by
  induction injects generalizing list with
  | nil => exact ⟨list, stems, rfl⟩
  | keep p _ ih =>
      obtain ⟨origin, rest, here, there, rfl⟩ := List.forall₂_cons_left_iff.mp stems
      obtain ⟨others, stems, same⟩ := ih there
      refine ⟨origin :: others, .cons here stems, ?_⟩
      cases origin <;> simp_all [origins]
  | inject made _ ih =>
      obtain ⟨others, stems, same⟩ := ih stems
      exact ⟨none :: others, .cons ⟨made, Bool.and_false _⟩ stems, same⟩

theorem shuffleRows_stems (gen : Random.Generator) (stems : List.Forall₂ StemsFrom ps list) :
    List.Forall₂ StemsFrom (shuffleRows gen ps) list := by
  induction stems generalizing gen with
  | nil => exact .nil
  | @cons p origin ps list here _ ih =>
      rw [shuffleRows]
      split
      · exact .cons here (ih gen)
      · rename_i a isRelation
        exact .cons ⟨here.goal.withOrder isRelation _, here.ranked⟩ (ih _)

theorem unranked_of_forall {ranked : List (Option Goal)}
    (each : ∀ origin ∈ ranked, origin.any (·.isRanked) = true) : unranked ranked = [] := by
  rw [unranked, List.filter_eq_nil_iff]
  intro g member
  obtain ⟨origin, among, rfl⟩ := List.mem_filterMap.mp member
  simpa using each (some g) among

theorem unranked_filter :
    unranked (list.filter fun origin => !origin.any (·.isRanked)) = unranked list := by
  induction list with
  | nil => rfl
  | cons origin list ih =>
      cases origin with
      | none => exact ih
      | some g =>
          cases ranked : g.isRanked <;> simp_all [unranked, origins]

theorem unranked_append (front back : List (Option Goal)) :
    unranked (front ++ back) = unranked front ++ unranked back := by
  simp [unranked, origins]

/-- Chaining keeps the order of the goals that are not ranked. -/
theorem chainSharedVars_stems (stems : List.Forall₂ StemsFrom ps list) :
    ∃ others, List.Forall₂ StemsFrom (chainSharedVars ps) others ∧
      (origins others).Perm (origins list) ∧ unranked others = unranked list := by
  obtain ⟨order, perm, parts⟩ := chainBy_eq_append rankLE entangledRank ps
  rw [chainSharedVars_eq, parts]
  have first : List.Forall₂ StemsFrom (ps.filter (·.isRanked))
      (list.filter fun origin => origin.any (·.isRanked)) :=
    List.rel_filter (fun _ _ stems => by simp [stems.ranked]) stems
  have second : List.Forall₂ StemsFrom (ps.filter (!·.isRanked))
      (list.filter fun origin => !origin.any (·.isRanked)) :=
    List.rel_filter (fun _ _ stems => by simp [stems.ranked]) stems
  obtain ⟨placed, firstStems, firstPerm⟩ := List.perm_comp_forall₂ perm first
  refine ⟨_, List.rel_append firstStems second, ?_, ?_⟩
  · exact ((firstPerm.append_right _).trans (List.filter_append_perm _ list)).filterMap id
  · rw [unranked_append, unranked_filter, unranked_of_forall, List.nil_append]
    intro origin member
    exact (List.mem_filter.mp (firstPerm.mem_iff.mp member)).2

end Planning

open Planning PlannedGoal

variable {ps qs : List PlannedGoal} {list : List (Option Goal)} {state : PlanningState}

theorem Planning.Injects.exists_stems (injects : Injects ps qs)
    (stems : List.Forall₂ StemsFrom ps list) :
    ∃ others, List.Forall₂ StemsFrom qs others ∧ (origins others).Perm (origins list) ∧
      unranked others = unranked list := by
  obtain ⟨others, stems, same⟩ := injects.exists_origins stems
  exact ⟨others, stems, .of_eq same, congrArg (List.filter _) same⟩

/-- A pass loses no goal and repeats none, and it keeps the order of the goals that are not
ranked unless it puts all of them into the opposite order. -/
theorem Pass.apply_stems {pass : Pass} (stems : List.Forall₂ StemsFrom ps list)
    (made : (pass.apply state ps).1 = .feasible qs) :
    ∃ others, List.Forall₂ StemsFrom qs others ∧ (origins others).Perm (origins list) ∧
      (pass ≠ .reverse → unranked others = unranked list) := by
  cases pass with
  | chainSharedVars =>
      cases made
      obtain ⟨others, stems, perm, same⟩ := chainSharedVars_stems stems
      exact ⟨others, stems, perm, fun _ => same⟩
  | relevance =>
      obtain ⟨others, stems, perm, same⟩ :=
        (relevance_injects (outcome_eq_feasible made)).exists_stems stems
      exact ⟨others, stems, perm, fun _ => same⟩
  | cardinality =>
      have guarded := guardRuns_guarded .nil reach_nil border_nil (outcome_eq_feasible made)
      obtain ⟨others, stems, perm, same⟩ := guarded.injects.exists_stems stems
      exact ⟨others, stems, perm, fun _ => same⟩
  | randomizeOrder seed =>
      cases made
      exact ⟨list, shuffleRows_stems _ stems, .refl _, fun _ => rfl⟩
  | reverse =>
      cases made
      exact ⟨list.reverse, List.rel_reverse stems, (List.reverse_perm list).filterMap id,
        absurd rfl⟩
  | refuse => cases made

theorem Pipeline.run_failed (passes : Pipeline) : passes.run state .failed = (.failed, []) := by
  cases passes <;> rfl

/-- So do passes one after the other. -/
theorem Pipeline.run_stems {passes : Pipeline} (stems : List.Forall₂ StemsFrom ps list)
    (made : (passes.run state (.feasible ps)).1 = .feasible qs) :
    ∃ others, List.Forall₂ StemsFrom qs others ∧ (origins others).Perm (origins list) ∧
      (.reverse ∉ passes → unranked others = unranked list) := by
  induction passes generalizing ps list with
  | nil =>
      cases made
      exact ⟨list, stems, .refl _, fun _ => rfl⟩
  | cons pass passes ih =>
      change (run state passes (pass.apply state ps).1).1 = _ at made
      cases next : (pass.apply state ps).1 with
      | failed =>
          rw [next, run_failed] at made
          cases made
      | feasible middle =>
          rw [next] at made
          obtain ⟨between, stems, perm, same⟩ := Pass.apply_stems stems next
          obtain ⟨others, stems, permToo, sameToo⟩ := ih stems made
          refine ⟨others, stems, permToo.trans perm, fun none => ?_⟩
          obtain ⟨here, there⟩ := not_or.mp (List.mem_cons.not.mp none)
          rw [sameToo there, same (Ne.symm here)]

/-! ### Plans -/

variable {s : Substitution} {goals : List Goal}

theorem Goal.isSome_of_bound? {g : Goal} {size? : Option SizeBound}
    (found : g.bound? s = .ok size?) : size?.isSome = g.isSized := by
  rw [Goal.bound?] at found
  split at found
  · rename_i sized
    rw [map_eq_pure_bind, except_bind_eq_ok] at found
    obtain ⟨bound, _, same⟩ := found
    cases same
    rw [sized, Option.isSome_some]
  · rename_i unsized
    cases found
    rw [Bool.eq_false_iff.mpr unsized, Option.isSome_none]

theorem PlannedGoal.inspect_stems {g : Goal} {p : PlannedGoal}
    (inspected : PlannedGoal.inspect s g = .ok p) : p.StemsFrom (some g) := by
  obtain ⟨size?, found, same⟩ := except_bind_eq_ok.mp inspected
  cases same
  refine ⟨.itself g, ?_⟩
  simp [PlannedGoal.isRanked, Goal.isRanked, Goal.isSome_of_bound? found]

theorem PlannedGoal.exists_inspect_iff {g : Goal} :
    (∃ p, PlannedGoal.inspect s g = .ok p) ↔ ∃ size?, g.bound? s = .ok size? := by
  simp only [PlannedGoal.inspect, except_bind_eq_ok]
  constructor
  · rintro ⟨_, size?, found, _⟩
    exact ⟨size?, found⟩
  · rintro ⟨size?, found⟩
    exact ⟨_, size?, found, rfl⟩

/-- Goals are inspected exactly if the bound of every sized one is found. -/
theorem Plan.exists_inspect_iff :
    (∃ plan, Plan.inspect s goals = .ok plan) ↔ ∀ g ∈ goals, ∃ size?, g.bound? s = .ok size? := by
  simp only [inspect_eq_ok, ← PlannedGoal.exists_inspect_iff]
  constructor
  · intro ⟨_, ps, each, _⟩ g member
    obtain ⟨p, _, inspected⟩ := exists_related each g member
    exact ⟨p, inspected⟩
  · intro found
    suffices each : ∃ ps, List.Forall₂ (fun g p => PlannedGoal.inspect s g = .ok p) goals ps by
      obtain ⟨ps, each⟩ := each
      exact ⟨_, ps, each, rfl⟩
    induction goals with
    | nil => exact ⟨[], .nil⟩
    | cons g goals ih =>
        obtain ⟨⟨p, inspected⟩, rest⟩ := List.forall_mem_cons.mp found
        obtain ⟨ps, each⟩ := ih rest
        exact ⟨p :: ps, .cons inspected each⟩

/-- Whatever a pipeline plans, each goal of it has an origin among the goals of the
conjunction, or is a constraint that a pass put in, or fails. -/
theorem Pipeline.plan_stems {passes : Pipeline} {planned : List Goal} {notices : List Notice}
    (made : passes.plan state goals = .ok (planned, notices)) :
    planned = [.fail] ∨ ∃ list, List.Forall₂ Goal.StemsFrom planned list ∧
      (origins list).Perm goals ∧
      (.reverse ∉ passes → unranked list = goals.filter (!·.isRanked)) := by
  obtain ⟨plan, inspected, made⟩ := except_bind_eq_ok.mp made
  cases made
  obtain ⟨ps, each, rfl⟩ := Plan.inspect_eq_ok.mp inspected
  cases final : (passes.run state (.feasible ps)).1 with
  | failed => exact .inl rfl
  | feasible qs =>
      have stems : List.Forall₂ StemsFrom ps (goals.map some) :=
        List.forall₂_map_right_iff.mpr
          (List.Forall₂.flip (each.imp fun _ _ inspected => inspect_stems inspected))
      obtain ⟨list, stems, perm, same⟩ := run_stems stems final
      have all : origins (goals.map some) = goals := by simp [origins]
      rw [all] at perm
      rw [unranked, unranked, all] at same
      exact .inr ⟨list, List.forall₂_map_left_iff.mpr (stems.imp fun _ _ stems => stems.goal),
        perm, same⟩

/-- Planning ends exactly if the size of every goal is found.  A plan is then the goal that
fails, or the goals of the conjunction in another order, where at most the row order of a
relation is another one, among constraints that passes put in; and unless a pass puts all
goals into the opposite order, those that are not both sized and report their variables stay
in order. -/
theorem Pipeline.plan_keeps_goals {passes : Pipeline} (ordered : .reverse ∉ passes)
    (state : PlanningState) (goals : List Goal) :
    ((∃ made, passes.plan state goals = .ok made) ↔
        ∀ g ∈ goals, ∃ size?, g.bound? state.substitution = .ok size?) ∧
      ∀ planned notices, passes.plan state goals = .ok (planned, notices) →
        planned = [.fail] ∨ ∃ list, List.Forall₂ Goal.StemsFrom planned list ∧
          (origins list).Perm goals ∧ unranked list = goals.filter (!·.isRanked) := by
  constructor
  · rw [← Plan.exists_inspect_iff]
    constructor
    · intro ⟨made, found⟩
      obtain ⟨plan, inspected, _⟩ := except_bind_eq_ok.mp found
      exact ⟨plan, inspected⟩
    · intro ⟨plan, inspected⟩
      exact ⟨_, except_bind_eq_ok.mpr ⟨plan, inspected, rfl⟩⟩
  · intro planned notices made
    cases plan_stems made with
    | inl fails => exact .inl fails
    | inr kept =>
        obtain ⟨list, stems, perm, same⟩ := kept
        exact .inr ⟨list, stems, perm, same ordered⟩

/-- Of two relations that share a variable, two passes guard the sizes and visit the rows in other
orders; the suspended goal stays where it is.  The standard passes plan the same conjunction. -/
theorem Pipeline.plan_keeps_goals_guarded :
    let x : Term := .var (.numbered 1)
    let low : Relation := ⟨"low", .declared ⟨1, .listed [[.int 1], [.int 2]], .exact 2,
      [some (.ofList [.int 1, .int 2])]⟩⟩
    let high : Relation := ⟨"high", .declared ⟨1, .listed [[.int 2], [.int 3], [.int 4]], .exact 3,
      [some (.ofList [.int 2, .int 3, .int 4])]⟩⟩
    let goals : List Goal :=
      [.relation ⟨low, [x], .natural⟩, .relation ⟨high, [x], .natural⟩, .delay .fail]
    let passes : Pipeline := [.cardinality, .randomizeOrder 7]
    .reverse ∉ Pipeline.standard 7 ∧ .reverse ∉ passes ∧
      (∃ made, (Pipeline.standard 7).plan ⟨.empty, 0⟩ goals = .ok made) ∧
      ∃ factors first second notices,
        let planned : List Goal := [.constrain (.cardinality factors),
          .relation ⟨low, [x], .shuffled first⟩, .relation ⟨high, [x], .shuffled second⟩,
          .delay .fail]
        passes.plan ⟨.empty, 0⟩ goals = .ok (planned, notices) ∧
          (planned = [.fail] ∨ ∃ list, List.Forall₂ Goal.StemsFrom planned list ∧
            (origins list).Perm goals ∧ unranked list = [.delay .fail]) := by
  intro x low high goals passes
  have standard : .reverse ∉ Pipeline.standard 7 := by decide
  have ordered : .reverse ∉ passes := by decide
  have sized : ∀ g ∈ goals, ∃ size?, g.bound? .empty = .ok size? :=
    List.forall_mem_cons.mpr ⟨⟨some (.exact 2), rfl⟩,
      List.forall_mem_cons.mpr ⟨⟨some (.exact 3), rfl⟩,
        List.forall_mem_singleton.mpr ⟨none, rfl⟩⟩⟩
  have returns := (Pipeline.plan_keeps_goals standard ⟨.empty, 0⟩ goals).1.mpr sized
  have keeps := (Pipeline.plan_keeps_goals ordered ⟨.empty, 0⟩ goals).2
  refine ⟨standard, ordered, returns, _, _, _, _, rfl, ?_⟩
  exact keeps _ _ rfl

/-- What a conjunction runs in place of its goals. -/
theorem Goal.planned_stems {ctx : Context} {planned : List Goal}
    (returned : Returns (Goal.planned ctx goals) planned) :
    ∀ g ∈ planned, g = .fail ∨ ∃ origin, g.StemsFrom origin ∧ ∀ h ∈ origin, h ∈ goals := by
  obtain ⟨before, after, ran⟩ := returned
  rw [Goal.planned] at ran
  dsimp only at ran
  split at ran
  · obtain ⟨rfl, _⟩ := runs_pure.mp ran
    intro g member
    exact .inr ⟨some g, .itself g, fun h same => by cases same; exact member⟩
  · simp only [runs_bind, runs_ofBounded, runs_pure] at ran
    obtain ⟨⟨_, notices⟩, _, ⟨made, _⟩, _, _, _, rfl, _⟩ := ran
    intro g member
    obtain rfl | ⟨list, stems, perm, _⟩ := Pipeline.plan_stems made
    · exact .inl (List.mem_singleton.mp member)
    · obtain ⟨origin, among, stems⟩ := exists_related stems g member
      exact .inr ⟨origin, stems, fun h same =>
        perm.mem_iff.mp (List.mem_filterMap.mpr ⟨origin, among, same⟩)⟩

/-! ### Nesting -/

theorem Goal.StemsFrom.depth_le {bound : Nat} {g : Goal} {origin : Option Goal}
    (stems : g.StemsFrom origin) (within : ∀ h ∈ origin, h.depth ≤ bound) : g.depth ≤ bound := by
  cases stems with
  | itself g => exact within g rfl
  | reordered | restriction | guard => exact Nat.zero_le bound

/-- What a conjunction runs is nested no deeper than its goals. -/
theorem Goal.planned_within {ctx : Context} {planned : List Goal} {bound : Nat}
    (within : ∀ g ∈ goals, g.depth ≤ bound) (returned : Returns (Goal.planned ctx goals) planned) :
    ∀ g ∈ planned, g.depth ≤ bound := by
  intro g member
  obtain rfl | ⟨origin, stems, among⟩ := planned_stems returned g member
  · exact Nat.zero_le bound
  · exact stems.depth_le fun h same => within h (among h same)

/-! ### Bounds on nesting

A goal is applied under a bound on how deep conjunctions and disjunctions are nested.
The bound only has to exceed the depth of the goal, so a goal in a combination runs as
it does alone.
-/

namespace Goal

variable {parts : List Goal} {g : Goal} {run other : Goal → Context → Engine Stream}

theorem depth_le_depths (member : g ∈ goals) : g.depth ≤ depths goals := by
  induction goals with
  | nil => cases member
  | cons first goals ih =>
      rcases List.mem_cons.mp member with rfl | member
      · exact Nat.le_max_left ..
      · exact Nat.le_trans (ih member) (Nat.le_max_right ..)

theorem foldlM_bindBy_congr (same : ∀ g ∈ parts, run g = other g) (s : Stream) :
    parts.foldlM (fun s g => s.bindBy (run g) g) s =
      parts.foldlM (fun s g => s.bindBy (other g) g) s := by
  induction parts generalizing s with
  | nil => rfl
  | cons g parts ih =>
      obtain ⟨here, there⟩ := List.forall_mem_cons.mp same
      rw [List.foldlM_cons, List.foldlM_cons, here]
      exact bind_congr fun next => ih there next

theorem mapM_congr {ctx : Context} (same : ∀ g ∈ parts, run g ctx = other g ctx) :
    parts.mapM (run · ctx) = parts.mapM (other · ctx) := by
  induction parts with
  | nil => rfl
  | cons g parts ih =>
      obtain ⟨here, there⟩ := List.forall_mem_cons.mp same
      rw [List.mapM_cons, List.mapM_cons, here, ih there]

/-- The bound does not matter, as long as it exceeds the depth. -/
theorem applyWithin_congr (depth : Nat) : ∀ (more : Nat) (g : Goal), g.depth < depth →
    g.depth < more → g.applyWithin depth = g.applyWithin more := by
  induction depth with
  | zero => exact fun _ g impossible => absurd impossible g.depth.not_lt_zero
  | succ depth ih =>
      intro more g deep deeper
      obtain ⟨more, rfl⟩ := Nat.exists_eq_succ_of_ne_zero (Nat.ne_zero_of_lt deeper)
      funext ctx
      cases g with
      | conj parts constraints =>
          rw [Goal.depth, Nat.add_comm] at deep deeper
          apply bind_congr
          intro attached
          cases attached with
          | none => rfl
          | some next =>
              apply bind_congr_of_returns
              intro planned plans
              have within := planned_within (fun g member => depth_le_depths member) plans
              apply bind_congr
              intro _
              apply foldlM_bindBy_congr
              intro g member
              have shallow := within g member
              exact ih more g (by omega) (by omega)
      | disj parts constraints =>
          rw [Goal.depth, Nat.add_comm] at deep deeper
          apply bind_congr
          intro attached
          cases attached with
          | none => rfl
          | some next =>
              apply congrArg (Stream.interleave <$> ·)
              apply mapM_congr
              intro g member
              have shallow := depth_le_depths member
              rw [ih more g (by omega) (by omega)]
      | _ => rfl

/-- A goal in a combination is applied as it is alone. -/
theorem applyWithin_eq_apply {depth : Nat} (deep : g.depth < depth) :
    g.applyWithin depth = g.apply := applyWithin_congr depth _ g deep (Nat.lt_succ_self _)

/-- The goals of a conjunction are fed one after the other. -/
theorem foldlM_bindBy_eq_bindAll {depth : Nat} (deep : ∀ g ∈ parts, g.depth < depth) (s : Stream) :
    parts.foldlM (fun s g => s.bindBy (applyWithin depth g) g) s = s.bindAll parts :=
  foldlM_bindBy_congr (fun g member => applyWithin_eq_apply (deep g member)) s

end Goal

end RelationalSolver
