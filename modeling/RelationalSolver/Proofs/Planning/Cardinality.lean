import RelationalSolver.Proofs.Planning.Chain
import RelationalSolver.Proofs.Planning.Plan
import RelationalSolver.Proofs.Session.Engine

/-!
# Guards in front of the runs

The goals of a run imply the guard in front of them.  A run whose bounds multiply to
zero holds a goal that has no answers.

The runs are the longest blocks of adjacent goals in which every goal after the first
shares a variable with an earlier one.  A block that grows as long as goals join it is a
longest one: were there a longer one, it would cross a border at which no goal joined.
-/

namespace RelationalSolver.Planning

open Engine (except_bind_eq_ok)

/-! ## Guards keep the answers -/

section Answers

variable {s : Substitution} {run ps : List PlannedGoal} {goals others : List Goal}

/-- A step that may give a notice keeps the answers of the goals. -/
def Kept (s : Substitution) (goals : List Goal) (step : Except Notice (List PlannedGoal)) : Prop :=
  (Pass.outcome step).1.Keeps s goals

theorem Kept.append {first second : Except Notice (List PlannedGoal)} (front : Kept s goals first)
    (back : Kept s others second) :
    Kept s (goals ++ others) (do
      let closed ← first
      let rest ← second
      pure (closed ++ rest)) := by
  cases first with
  | error notice => exact front.append_right
  | ok closed =>
      cases second with
      | error notice => exact back.append_left
      | ok rest =>
          refine ⟨List.forall_mem_append.mpr ⟨front.1, back.1⟩, ?_⟩
          rw [List.map_append]
          exact front.2.append back.2

theorem Kept.cons {p : PlannedGoal} {step : Except Notice (List PlannedGoal)} (sound : p.Sound s)
    (kept : Kept s goals step) : Kept s (p.goal :: goals) ((p :: ·) <$> step) := by
  cases step with
  | error notice =>
      change Goal.Excluded s ([p.goal] ++ goals)
      exact kept.append_left
  | ok rest =>
      have same : Rearranges s [p.goal] [p.goal] :=
        .refl (List.forall_mem_singleton.mpr sound.guarded)
      exact ⟨List.forall_mem_cons.mpr ⟨sound, kept.1⟩, same.append kept.2⟩

theorem exists_size_of_isRanked {p : PlannedGoal} (ranked : p.isRanked = true) :
    ∃ b, p.size? = some b := by
  rw [PlannedGoal.isRanked, Bool.and_eq_true] at ranked
  exact Option.isSome_iff_exists.mp ranked.2

/-- Closing a run of ranked goals keeps their answers. -/
theorem closeRun_kept (sounds : ∀ p ∈ run, p.Sound s) (ranked : ∀ p ∈ run, p.isRanked = true) :
    Kept s (run.map (·.goal)) (closeRun run) := by
  have guarded : ∀ g ∈ run.map (·.goal), g.Guarded :=
    List.forall_mem_map.mpr fun p member => (sounds p member).guarded
  rw [closeRun]
  split
  · rename_i zero
    rcases SizeBound.exists_isZero_of_product zero with ⟨b, among, none⟩
    rcases List.mem_filterMap.mp among with ⟨p, member, bounded⟩
    exact Goal.excluded_of_zero (sounds p member) member bounded none
  · split
    · have proper : ∀ g ∈ run.map (·.goal), g.Proper := by
        intro g among
        rcases List.mem_map.mp among with ⟨p, member, rfl⟩
        rcases exists_size_of_isRanked (ranked p member) with ⟨b, bounded⟩
        exact (sounds p member).proper b bounded
      have isGuard : (Constraint.cardinality (run.map (·.goal))).Guarded := .inr ⟨_, rfl, proper⟩
      constructor
      · exact List.forall_mem_cons.mpr ⟨PlannedGoal.injected_sound isGuard, sounds⟩
      · apply Rearranges.constrain guarded isGuard
        intro Θ _ _ admitted
        -- The guard watches the very goals it stands in front of.
        exact fun θ member g among _ => admitted θ member g among
    · exact ⟨sounds, .refl guarded⟩

/-- Guarding the runs of goals behind an open run keeps the answers of all. -/
theorem guardRuns_kept (run : List PlannedGoal) (vars : List Var) (soundRun : ∀ p ∈ run, p.Sound s)
    (ranked : ∀ p ∈ run, p.isRanked = true) (sounds : ∀ p ∈ ps, p.Sound s) :
    Kept s ((run ++ ps).map (·.goal)) (guardRuns run vars ps) := by
  induction ps generalizing run vars with
  | nil =>
      rw [List.append_nil]
      exact closeRun_kept soundRun ranked
  | cons p ps ih =>
      rcases List.forall_mem_cons.mp sounds with ⟨here, there⟩
      rw [guardRuns]
      split
      · rename_i joins
        have rankedHere : p.isRanked = true := (Bool.and_eq_true_iff.mp joins).1
        have whole : run ++ p :: ps = run ++ [p] ++ ps := by simp
        rw [whole]
        apply ih
        · exact List.forall_mem_append.mpr ⟨soundRun, List.forall_mem_singleton.mpr here⟩
        · exact List.forall_mem_append.mpr ⟨ranked, List.forall_mem_singleton.mpr rankedHere⟩
        · exact there
      · rw [List.map_append]
        have front := closeRun_kept soundRun ranked
        cases rankedHere : p.isRanked with
        | true =>
            exact front.append (ih [p] p.vars (List.forall_mem_singleton.mpr here)
              (List.forall_mem_singleton.mpr rankedHere) there)
        | false =>
            have rest := ih [] [] (List.forall_mem_nil _) (List.forall_mem_nil _) there
            exact front.append (rest.cons here)

theorem cardinality_keeps (keeps : (Plan.feasible ps).Keeps s goals) :
    (Pass.outcome (cardinality ps)).1.Keeps s goals := by
  have kept := guardRuns_kept [] [] (List.forall_mem_nil _) (List.forall_mem_nil _) keeps.1
  rw [cardinality]
  cases step : guardRuns [] [] ps with
  | error notice =>
      rw [step] at kept
      exact keeps.failed kept
  | ok qs =>
      rw [step] at kept
      exact keeps.feasible kept.1 kept.2

end Answers

/-! ## Guards stand in front of the longest runs -/

/-- Goals that report variables and are sized, of which each one after the first shares a
variable with an earlier one. -/
structure Block (block : List PlannedGoal) : Prop where
  ranked : ∀ p ∈ block, p.isRanked = true
  linked : ∀ before p after, block = before ++ p :: after → before ≠ [] → p.SharesWith before

/-- A longest block among the goals around it. -/
structure IsRun (before run after : List PlannedGoal) : Prop where
  some : run ≠ []
  block : Block run
  longest : ∀ front back, front <:+ before → back <+: after → Block (front ++ run ++ back) →
    front = [] ∧ back = []

/-- The constraint that watches the goals of a run. -/
def guardOf (run : List PlannedGoal) : PlannedGoal :=
  .injected (.constrain (.cardinality (run.map (·.goal))))

/-- A run of two or more goals starts after the goals before. -/
def StartsRun (before goals run : List PlannedGoal) : Prop :=
  ∃ after, goals = run ++ after ∧ IsRun before run after ∧ 2 ≤ run.length

/-- The goals behind others, with a guard directly before each run of two or more goals
and nowhere else. -/
inductive Guarded : (before goals out : List PlannedGoal) → Prop where
  | nil {before : List PlannedGoal} : Guarded before [] []
  | guard {p : PlannedGoal} {before run goals out : List PlannedGoal} :
      StartsRun before (p :: goals) run → Guarded (before ++ [p]) goals out →
        Guarded before (p :: goals) (guardOf run :: p :: out)
  | bare {p : PlannedGoal} {before goals out : List PlannedGoal} :
      (∀ run, ¬StartsRun before (p :: goals) run) → Guarded (before ++ [p]) goals out →
        Guarded before (p :: goals) (p :: out)

/-! ### Blocks -/

variable {p : PlannedGoal} {before run after front back ps out : List PlannedGoal}

theorem Block.nil : Block [] := ⟨by simp, by simp⟩

theorem Block.singleton (ranked : p.isRanked = true) : Block [p] := by
  refine ⟨by simpa, ?_⟩
  intro before q after parts some
  simp [List.singleton_eq_append_iff, some] at parts

theorem Block.left (block : Block (front ++ back)) : Block front := by
  constructor
  · exact fun p member => block.ranked p (List.mem_append_left back member)
  · intro before p after parts some
    exact block.linked before p (after ++ back) (by simp [parts]) some

theorem Block.concat (block : Block run) (ranked : p.isRanked = true)
    (shares : run ≠ [] → p.SharesWith run) : Block (run ++ [p]) := by
  constructor
  · exact List.forall_mem_append.mpr ⟨block.ranked, List.forall_mem_singleton.mpr ranked⟩
  · intro before q after parts some
    cases after using List.reverseRecOn with
    | nil =>
        rcases List.append_inj' parts rfl with ⟨rfl, same⟩
        cases same
        exact shares some
    | append_singleton after last =>
        rw [← List.cons_append, ← List.append_assoc] at parts
        exact block.linked before q after (List.append_inj_left' parts rfl) some

/-- No block crosses the border between the goals. -/
def Border (before after : List PlannedGoal) : Prop :=
  ∀ front back, front <:+ before → back <+: after → front ≠ [] → back ≠ [] →
    ¬Block (front ++ back)

theorem border_nil : Border [] after := by
  intro front back suffix
  exact fun _ some => absurd (List.suffix_nil.mp suffix) some

theorem border_end : Border before [] := by
  intro front back _ isPrefix
  exact fun _ some => absurd (List.prefix_nil.mp isPrefix) some

theorem border_before_unranked (unranked : p.isRanked = false) : Border before (p :: ps) := by
  intro front back _ isPrefix _ some block
  rcases List.exists_cons_of_ne_nil some with ⟨q, rest, rfl⟩
  rw [(List.cons_prefix_cons.mp isPrefix).1] at block
  simp [block.ranked p (by simp)] at unranked

theorem border_behind_unranked (unranked : p.isRanked = false) : Border (before ++ [p]) ps := by
  intro front back suffix _ some _ block
  have last : p ∈ front := by
    rcases List.suffix_concat_iff.mp suffix with none | ⟨rest, rfl, _⟩
    · exact absurd none some
    · simp
  simp [block.ranked p (List.mem_append_left back last)] at unranked

/-- A goal that shares no variable with the block before it starts a new one. -/
theorem Border.behind_block (border : Border before (run ++ p :: ps))
    (apart : ¬p.SharesWith run) : Border (before ++ run) (p :: ps) := by
  intro front back ⟨others, parts⟩ isPrefix some someBack block
  rcases List.exists_cons_of_ne_nil someBack with ⟨q, rest, rfl⟩
  cases (List.cons_prefix_cons.mp isPrefix).1
  have shares := block.linked front p rest rfl some
  rcases List.append_eq_append_iff.mp parts with ⟨within, rfl, rfl⟩ | ⟨within, rfl, rfl⟩
  · by_cases none : within = []
    · subst none
      exact apart shares
    · -- The block starts before the one that ends here, so it crosses the border before that.
      refine border within (run ++ p :: rest) ⟨others, rfl⟩
        ((List.prefix_append_right_inj run).mpr isPrefix) none (by simp) ?_
      rwa [← List.append_assoc]
  · rcases shares with ⟨q, member, shared⟩
    exact apart ⟨q, List.mem_append_right within member, shared⟩

/-! ### Runs between borders -/

theorem isRun_of_borders (block : Block run) (some : run ≠ [])
    (first : Border before (run ++ after)) (last : Border (before ++ run) after) :
    IsRun before run after := by
  refine ⟨some, block, fun front back suffix isPrefix whole => ⟨?_, ?_⟩⟩
  · by_contra someFront
    rw [List.append_assoc] at whole
    exact first front (run ++ back) suffix ((List.prefix_append_right_inj run).mpr isPrefix)
      someFront (List.append_ne_nil_of_left_ne_nil some back) whole
  · by_contra someBack
    rcases suffix with ⟨others, rfl⟩
    exact last (front ++ run) back ⟨others, (List.append_assoc ..).symm⟩ isPrefix
      (List.append_ne_nil_of_right_ne_nil front some) someBack whole

/-- A block that starts before a border ends before it. -/
theorem Border.ends_before {block : List PlannedGoal} (border : Border (before ++ back) ps)
    (some : back ≠ []) (isBlock : Block block) (starts : back ++ ps = block ++ after) :
    ∃ rest, back = block ++ rest := by
  rcases List.append_eq_append_iff.mp starts.symm with ⟨rest, rfl, _⟩ | ⟨beyond, rfl, rfl⟩
  · exact ⟨rest, rfl⟩
  · by_cases none : beyond = []
    · exact ⟨[], by simp [none]⟩
    · exact absurd isBlock (border back beyond ⟨before, rfl⟩ ⟨after, rfl⟩ some none)

/-- No run starts inside of a block in front of a border. -/
theorem Border.not_startsRun (border : Border (before ++ front ++ back) ps)
    (isBlock : Block (front ++ back)) (someFront : front ≠ []) (some : back ≠ []) :
    ¬StartsRun (before ++ front) (back ++ ps) run := by
  intro ⟨after, starts, isRun, _⟩
  rcases border.ends_before some isRun.block starts with ⟨rest, rfl⟩
  rw [← List.append_assoc] at isBlock
  have grown : Block (front ++ run ++ []) := by
    rw [List.append_nil]
    exact isBlock.left
  exact someFront (isRun.longest front [] ⟨before, rfl⟩ (List.nil_prefix) grown).1

/-- The goals of a block behind its first one have no guard. -/
theorem Guarded.inside (border : Border (before ++ front ++ back) ps)
    (isBlock : Block (front ++ back)) (someFront : front ≠ [])
    (later : Guarded (before ++ front ++ back) ps out) :
    Guarded (before ++ front) (back ++ ps) (back ++ out) := by
  induction back generalizing front with
  | nil => rwa [List.append_nil] at later
  | cons p back ih =>
      refine .bare (fun run => border.not_startsRun isBlock someFront (by simp)) ?_
      rw [List.append_assoc]
      rw [List.append_cons] at isBlock
      have moved : before ++ front ++ p :: back = before ++ (front ++ [p]) ++ back := by simp
      rw [moved] at border later
      exact ih border isBlock (List.append_ne_nil_of_left_ne_nil someFront [p]) later

/-- A block between two borders is guarded if it has two or more goals. -/
theorem Guarded.block (isBlock : Block run) (first : Border before (run ++ ps))
    (last : Border (before ++ run) ps) (later : Guarded (before ++ run) ps out) :
    Guarded before (run ++ ps)
      ((if 2 ≤ run.length then [guardOf run] else []) ++ run ++ out) := by
  cases run with
  | nil => simpa using later
  | cons p rest =>
      rw [List.append_cons] at last later
      have behind := Guarded.inside last isBlock (by simp) later
      by_cases many : 2 ≤ (p :: rest).length
      · rw [if_pos many]
        rw [← List.append_cons] at last
        exact .guard ⟨ps, rfl, isRun_of_borders isBlock (by simp) first last, many⟩ behind
      · rw [if_neg many]
        refine .bare ?_ behind
        intro run ⟨after, starts, isRun, two⟩
        rw [← List.append_cons] at last
        rcases last.ends_before (by simp) isRun.block starts with ⟨others, parts⟩
        rw [parts, List.length_append] at many
        omega

theorem Guarded.unranked (unranked : p.isRanked = false) (later : Guarded (before ++ [p]) ps out) :
    Guarded before (p :: ps) (p :: out) := by
  refine .bare ?_ later
  intro run ⟨after, starts, isRun, _⟩
  rcases List.exists_cons_of_ne_nil isRun.some with ⟨q, rest, rfl⟩
  cases starts
  simp [isRun.block.ranked p (by simp)] at unranked

/-! ### The pass -/

theorem closeRun_eq_ok {closed : List PlannedGoal} (made : closeRun run = .ok closed) :
    closed = (if 2 ≤ run.length then [guardOf run] else []) ++ run := by
  rw [closeRun] at made
  split at made
  · contradiction
  · split at made
    · rename_i many
      cases made
      rw [if_pos many]
      rfl
    · rename_i few
      cases made
      rw [if_neg few]
      rfl

/-- The goals behind a border come out guarded, if the open run is a block. -/
theorem guardRuns_guarded {vars : List Var} (block : Block run) (reach : PlannedGoal.Reach run vars)
    (border : Border before (run ++ ps)) (made : guardRuns run vars ps = .ok out) :
    Guarded before (run ++ ps) out := by
  induction ps generalizing before run vars out with
  | nil =>
      rw [guardRuns] at made
      have closed := Guarded.block block border border_end .nil
      rwa [← closeRun_eq_ok made, List.append_nil out] at closed
  | cons p ps ih =>
      rw [guardRuns] at made
      split at made
      · rename_i joins
        rcases Bool.and_eq_true_iff.mp joins with ⟨ranked, shares⟩
        have grown : Block (run ++ [p]) := by
          refine block.concat ranked fun some => reach.shares_iff.mp ?_
          exact (Bool.or_eq_true_iff.mp shares).resolve_left (by simpa using some)
        rw [List.append_cons] at border ⊢
        exact ih grown (reach.concat p) border made
      · rename_i apart
        rcases except_bind_eq_ok.mp made with ⟨closed, madeClosed, made⟩
        cases closeRun_eq_ok madeClosed
        cases ranked : p.isRanked with
        | true =>
            rw [ranked, if_pos rfl] at made
            rcases except_bind_eq_ok.mp made with ⟨rest, madeRest, made⟩
            cases made
            have others : ¬p.SharesWith run := by
              intro shares
              simp [ranked, reach.shares_iff.mpr shares] at apart
            have behind := border.behind_block others
            exact .block block border behind
              (ih (.singleton ranked) PlannedGoal.reach_singleton behind madeRest)
        | false =>
            rw [ranked, if_neg Bool.false_ne_true] at made
            rcases except_bind_eq_ok.mp made with ⟨rest, madeRest, made⟩
            cases made
            rcases except_bind_eq_ok.mp madeRest with ⟨later, madeLater, madeRest⟩
            cases madeRest
            refine .block block border (border_before_unranked ranked) (.unranked ranked ?_)
            exact ih .nil PlannedGoal.reach_nil (border_behind_unranked ranked) madeLater

/-! ### Failing -/

/-- Some goal that reports variables and is sized can have no answer. -/
def HasZero (goals : List PlannedGoal) : Prop :=
  ∃ p ∈ goals, p.isRanked = true ∧ ∃ b, p.size? = some b ∧ b.isZero = true

theorem hasZero_append {others : List PlannedGoal} :
    HasZero (ps ++ others) ↔ HasZero ps ∨ HasZero others := by
  simp [HasZero, or_and_right, exists_or]

theorem hasZero_unranked (unranked : p.isRanked = false) : HasZero (p :: ps) ↔ HasZero ps := by
  simp [HasZero, unranked]

/-- A step gives a notice instead of goals. -/
def Fails (step : Except Notice (List PlannedGoal)) : Prop := ∃ notice, step = .error notice

theorem fails_append_iff {first second : Except Notice (List PlannedGoal)} :
    Fails (do
      let closed ← first
      let rest ← second
      pure (closed ++ rest)) ↔ Fails first ∨ Fails second := by
  cases first <;> cases second <;> simp [Fails, bind, Except.bind, pure, Except.pure]

theorem fails_map_iff {step : Except Notice (List PlannedGoal)} :
    Fails ((p :: ·) <$> step) ↔ Fails step := by
  cases step <;> simp [Fails, Functor.map, Except.map]

/-- The product over a run of goals that are sized is zero only if the size of one is. -/
theorem closeRun_fails_iff (ranked : ∀ p ∈ run, p.isRanked = true) :
    Fails (closeRun run) ↔ HasZero run := by
  rw [closeRun]
  split
  · rename_i zero
    rcases SizeBound.exists_isZero_of_product zero with ⟨b, among, isZero⟩
    rcases List.mem_filterMap.mp among with ⟨p, member, bounded⟩
    exact iff_of_true ⟨_, rfl⟩ ⟨p, member, ranked p member, b, bounded, isZero⟩
  · rename_i positive
    refine iff_of_false ?_ ?_
    · rintro ⟨notice, closed⟩
      split at closed <;> cases closed
    · rintro ⟨p, member, _, b, bounded, isZero⟩
      have among : b ∈ run.filterMap (·.size?) := List.mem_filterMap.mpr ⟨p, member, bounded⟩
      exact positive (SizeBound.product_isZero among isZero)

theorem guardRuns_fails_iff (vars : List Var) (ranked : ∀ p ∈ run, p.isRanked = true) :
    Fails (guardRuns run vars ps) ↔ HasZero (run ++ ps) := by
  induction ps generalizing run vars with
  | nil =>
      rw [guardRuns, List.append_nil]
      exact closeRun_fails_iff ranked
  | cons p ps ih =>
      have alone (rankedHere : p.isRanked = true) : ∀ q ∈ [p], q.isRanked = true :=
        List.forall_mem_singleton.mpr rankedHere
      rw [guardRuns]
      split
      · rename_i joins
        rw [List.append_cons run p ps]
        exact ih _ (List.forall_mem_append.mpr ⟨ranked, alone (Bool.and_eq_true_iff.mp joins).1⟩)
      · rw [hasZero_append, ← closeRun_fails_iff ranked]
        cases rankedHere : p.isRanked with
        | true =>
            have rest := ih p.vars (alone rankedHere)
            rw [List.singleton_append] at rest
            rw [← rest]
            exact fails_append_iff
        | false =>
            have rest : Fails (guardRuns [] [] ps) ↔ HasZero ps := ih [] (List.forall_mem_nil _)
            rw [hasZero_unranked rankedHere, ← rest]
            exact fails_append_iff.trans (or_congr_right fails_map_iff)

/-- The pass fails exactly if some goal that reports variables and is sized can have no
answer.  Otherwise it leaves the goals as they are, but for a guard in front of each longest
block of two or more. -/
theorem cardinality_guards (state : PlanningState) (goals : List PlannedGoal) :
    ((Pass.cardinality.apply state goals).1 = .failed ↔ HasZero goals) ∧
      ∀ out, (Pass.cardinality.apply state goals).1 = .feasible out → Guarded [] goals out := by
  have fails : Fails (cardinality goals) ↔ HasZero goals :=
    guardRuns_fails_iff [] (List.forall_mem_nil _)
  have guarded {out : List PlannedGoal} (made : cardinality goals = .ok out) :
      Guarded [] goals out :=
    guardRuns_guarded .nil PlannedGoal.reach_nil border_nil made
  rw [Pass.apply]
  cases step : cardinality goals with
  | error notice =>
      rw [step] at fails
      exact ⟨iff_of_true rfl (fails.mp ⟨notice, rfl⟩), nofun⟩
  | ok made =>
      rw [step] at fails
      refine ⟨iff_of_false nofun fun zero => ?_, ?_⟩
      · exact absurd (fails.mpr zero) nofun
      · intro out same
        cases same
        exact guarded step

/-- Two goals that share a variable form a run; the third one is on its own. -/
theorem cardinality_guards_pair :
    let p : PlannedGoal := ⟨.succeed, some [.numbered 0], some (.exact 2)⟩
    let q : PlannedGoal := ⟨.succeed, some [.numbered 1, .numbered 0], some .unbounded⟩
    let r : PlannedGoal := ⟨.succeed, some [.numbered 2], some (.exact 1)⟩
    Guarded [] [p, q, r] [guardOf [p, q], p, q, r] :=
  (cardinality_guards ⟨.empty, 0⟩ _).2 _ rfl

end RelationalSolver.Planning
