import RelationalSolver.Proofs.Context.Renumbering
import RelationalSolver.Proofs.Planning.Renumbering
import RelationalSolver.Proofs.Relation.Scan
import RelationalSolver.Proofs.Relation.Shuffling

/-!
# Searches under other numbers

Goals that are the same but for the numbers of variables give streams that are, in contexts
that are.  Such streams make the same moves, and new variables are numbered in step.
-/

namespace RelationalSolver

open Engine

open Agrees (Tried)

/-- The same rows, to be unified with arguments under other numbers in another context. -/
def RowScan.renumber (ρ : ℕ → ℕ) (scan : RowScan) (ctx : Context) : RowScan :=
  { scan with
    args := scan.args.map (·.renumber ρ)
    context := ctx }

mutual

/-- The streams are the same but for the numbers of variables. -/
inductive Stream.Renumbers (ρ : ℕ → ℕ) : Stream → Stream → Prop
  | empty : Stream.Renumbers ρ .empty .empty
  | ready {ctx other : Context} {rest restOther : Stream} : ctx.Renumbers ρ other →
      Stream.Renumbers ρ rest restOther →
      Stream.Renumbers ρ (.ready ctx rest) (.ready other restOther)
  | suspended {work workOther : Work} : Work.Renumbers ρ work workOther →
      Stream.Renumbers ρ (.suspended work) (.suspended workOther)
  | aborted (fault : Fault) : Stream.Renumbers ρ (.aborted fault) (.aborted fault)

/-- The same is left to do, but for the numbers of variables. -/
inductive Work.Renumbers (ρ : ℕ → ℕ) : Work → Work → Prop
  | run {g gOther : Goal} {ctx other : Context} : g.Renumbers ρ gOther → ctx.Renumbers ρ other →
      Work.Renumbers ρ (.run g ctx) (.run gOther other)
  | call (name : String) (args : List Term) {ctx other : Context} : ctx.Renumbers ρ other →
      Work.Renumbers ρ (.call name args ctx) (.call name (args.map (·.renumber ρ)) other)
  | openRows {a aOther : Application} {ctx other : Context} : a.Renumbers ρ aOther →
      ctx.Renumbers ρ other → Work.Renumbers ρ (.openRows a ctx) (.openRows aOther other)
  | scan (scan : RowScan) {other : Context} : scan.rows.Fixed ρ → scan.context.Renumbers ρ other →
      Work.Renumbers ρ (.scan scan) (.scan (scan.renumber ρ other))
  | bind {work workOther : Work} {g gOther : Goal} : g.Renumbers ρ gOther →
      Work.Renumbers ρ work workOther → Work.Renumbers ρ (.bind work g) (.bind workOther gOther)
  | append {work workOther : Work} {next nextOther : Continuation} :
      Work.Renumbers ρ work workOther → Continuation.Renumbers ρ next nextOther →
      Work.Renumbers ρ (.append work next) (.append workOther nextOther)
  | resume {next nextOther : Continuation} : Continuation.Renumbers ρ next nextOther →
      Work.Renumbers ρ (.resume next) (.resume nextOther)
  | turn {first firstOther : Work} {others othersOther : List Work} :
      Work.Renumbers ρ first firstOther → List.Forall₂ (Work.Renumbers ρ) others othersOther →
      Work.Renumbers ρ (.turn first others) (.turn firstOther othersOther)

/-- The same goes on, but for the numbers of variables. -/
inductive Continuation.Renumbers (ρ : ℕ → ℕ) : Continuation → Continuation → Prop
  | stream {s t : Stream} : Stream.Renumbers ρ s t →
      Continuation.Renumbers ρ (.stream s) (.stream t)
  | bind {s t : Stream} {g gOther : Goal} : g.Renumbers ρ gOther → Stream.Renumbers ρ s t →
      Continuation.Renumbers ρ (.bind s g) (.bind t gOther)

end

variable {ρ : ℕ ↪o ℕ} {program : Program} {ctx other : Context} {s t : Stream}
variable {g gOther : Goal} {last lastOther : Continuation}
variable {works worksOther passed passedOther : List Work}
variable {queue queueOther behind behindOther : List Stream}

namespace Stream

/-! ## Combining streams -/

theorem Renumbers.unit (same : ctx.Renumbers ρ other) : (unit ctx).Renumbers ρ (unit other) :=
  .ready same .empty

theorem Renumbers.followBy (after : last.Renumbers ρ lastOther) : ∀ {s t : Stream},
    s.Renumbers ρ t → (s.followBy last).Renumbers ρ (t.followBy lastOther)
  | _, _, .empty => .suspended (.resume after)
  | _, _, .ready same rest => .ready same (followBy after rest)
  | _, _, .suspended work => .suspended (.append work after)
  | _, _, .aborted fault => .aborted fault

theorem ofWorks_renumber (same : List.Forall₂ (Work.Renumbers ρ) works worksOther) :
    (ofWorks works).Renumbers ρ (ofWorks worksOther) := by
  cases same with
  | nil => exact .empty
  | cons first others =>
      cases others with
      | nil => exact .suspended first
      | cons second others => exact .suspended (.turn first (.cons second others))

theorem passedBehind_renumber (before : List.Forall₂ (Work.Renumbers ρ) passed passedOther)
    (after : List.Forall₂ (Renumbers ρ) behind behindOther) :
    List.Forall₂ (Renumbers ρ) (passedBehind passed behind)
      (passedBehind passedOther behindOther) := by
  induction before with
  | nil => exact after
  | cons work _ ih => exact .cons (.suspended work) ih

/-- Queues of streams take the same turns. -/
theorem rotate_renumber (before : List.Forall₂ (Work.Renumbers ρ) passed passedOther)
    (now : List.Forall₂ (Renumbers ρ) queue queueOther)
    (after : List.Forall₂ (Renumbers ρ) behind behindOther) :
    (rotate passed queue behind).Renumbers ρ (rotate passedOther queueOther behindOther) := by
  fun_induction rotate passed queue behind generalizing passedOther queueOther behindOther with
  | case1 passed =>
      cases now
      cases after
      rw [rotate]
      exact ofWorks_renumber (List.rel_reverse before)
  | case2 passed s behind ih =>
      cases now
      cases after with
      | cons here rest =>
          rw [rotate]
          exact ih before (List.rel_reverse (.cons here rest)) .nil
  | case3 passed behind work queue ih =>
      cases now with
      | cons here rest =>
          cases here with
          | suspended same =>
              rw [rotate]
              exact ih (.cons same before) rest after
  | case4 passed behind queue ih =>
      cases now with
      | cons here rest =>
          cases here
          rw [rotate]
          exact ih .nil rest (passedBehind_renumber before after)
  | case5 passed behind ctx rest queue ih =>
      cases now with
      | cons here others =>
          cases here with
          | ready same later =>
              rw [rotate]
              exact .ready same (ih .nil others (.cons later (passedBehind_renumber before after)))
  | case6 =>
      cases now with
      | cons here rest =>
          cases here
          rw [rotate]
          exact .aborted _

theorem interleave_renumber (same : List.Forall₂ (Renumbers ρ) queue queueOther) :
    (interleave queue).Renumbers ρ (interleave queueOther) := rotate_renumber .nil same .nil

theorem Renumbers.bindBy {run runOther : Context → Engine Stream} (goal : g.Renumbers ρ gOther)
    (runs : ∀ ctx other, ctx.Renumbers ρ other →
      Engine.Renumbers ρ (Renumbers ρ) (run ctx) (runOther other)) : ∀ {s t : Stream},
    s.Renumbers ρ t →
    Engine.Renumbers ρ (Renumbers ρ) (s.bindBy run g) (t.bindBy runOther gOther)
  | _, _, .empty => .pure .empty
  | _, _, .aborted fault => .pure (.aborted fault)
  | _, _, .suspended work => .pure (.suspended (.bind goal work))
  | _, _, .ready same rest => by
      apply (runs _ _ same).bind
      intro answers answersOther holds
      have after : (Continuation.bind _ g).Renumbers ρ (.bind _ gOther) := .bind goal rest
      cases holds with
      | empty => exact bindBy goal runs rest
      | ready same more => exact .pure ((Renumbers.ready same more).followBy after)
      | suspended work => exact .pure ((Renumbers.suspended work).followBy after)
      | aborted fault => exact .pure (.aborted fault)

end Stream

/-! ## Goals -/

namespace Goal

theorem planned_renumber {goals others : List Goal}
    (alike : List.Forall₂ (Goal.Renumbers ρ) goals others) (same : ctx.Renumbers ρ other) :
    Engine.Renumbers ρ (List.Forall₂ (Goal.Renumbers ρ)) (planned ctx goals)
      (planned other others) := by
  unfold planned
  rw [same.planner, alike.length_eq]
  dsimp only
  split
  · exact .pure alike
  · have plan := Pipeline.plan_renumber same.substitution ctx.bindingsMade (ctx.get .planner) alike
    unfold Context.planningState
    rw [same.bindingsMade]
    apply (Engine.Renumbers.ofBounded plan).bind
    rintro ⟨final, notices⟩ ⟨finalOther, _⟩ ⟨goals, rfl⟩
    exact (Engine.Renumbers.notifyAll notices).bind fun _ _ _ => .pure goals

/-- Goals are applied in the same way. -/
theorem applyWithin_renumber (depth : Nat) (goal : g.Renumbers ρ gOther)
    (same : ctx.Renumbers ρ other) :
    Engine.Renumbers ρ (Stream.Renumbers ρ) (g.applyWithin depth ctx)
      (gOther.applyWithin depth other) := by
  induction depth generalizing g gOther ctx other with
  | zero => exact .throw _
  | succ depth ih =>
      cases goal with
      | succeed => exact .pure (.unit same)
      | fail => exact .pure .empty
      | equal a b =>
          apply (same.unify a b).attempt.bind
          intro tried triedOther holds
          cases holds with
          | failed c => exact .pure (.aborted _)
          | result holds =>
              cases holds with
              | none => exact .pure .empty
              | some next => exact .pure (.unit next)
      | constrain held =>
          apply (same.constrain held).bind
          intro result resultOther holds
          cases holds with
          | none => exact .pure .empty
          | some next => exact .pure (.unit next)
      | conj goals constraints =>
          apply (same.constrainAll constraints).bind
          intro result resultOther holds
          cases holds with
          | none => exact .pure .empty
          | some next =>
              apply (planned_renumber goals next).bind
              intro plan planOther planned
              rw [planned.length_eq]
              apply (Engine.Renumbers.notify _).bind
              intro _ _ _
              refine (renumbering ρ).foldlM_forall₂ ?_ planned (.unit next)
              exact fun g gOther goal s t stream => stream.bindBy goal fun _ _ => ih goal
      | disj goals constraints =>
          apply (same.constrainAll constraints).bind
          intro result resultOther holds
          cases holds with
          | none => exact .pure .empty
          | some next =>
              refine Engine.Renumbers.map ((renumbering ρ).mapM_forall₂ ?_ goals) fun _ _ =>
                Stream.interleave_renumber
              exact fun g gOther goal => ih goal next
      | fresh names body =>
          apply (Engine.Renumbers.freshVars _).bind
          rintro vars _ rfl
          apply (same.fire .varsFresh (.fresh vars)).bind
          intro _ _ _
          have filled := body.fill (.ofLists names (vars.map .var))
          rw [Scope.renumber_ofLists, List.map_map] at filled
          refine .pure (.suspended (.run ?_ same))
          rwa [List.map_map]
      | delay body => exact .pure (.suspended (.run body same))
      | call name args => exact .pure (.suspended (.call name args same))
      | relation a => exact .pure (.suspended (.openRows a same))
      | abort fault => exact .pure (.aborted fault)
      | yieldThenAbort fault => exact .pure (.ready same (.aborted fault))

theorem apply_renumber (goal : g.Renumbers ρ gOther) (same : ctx.Renumbers ρ other) :
    Engine.Renumbers ρ (Stream.Renumbers ρ) (g.apply ctx) (gOther.apply other) := by
  unfold apply
  rw [goal.depth]
  exact applyWithin_renumber _ goal same

theorem runBody_renumber (goal : g.Renumbers ρ gOther) (same : ctx.Renumbers ρ other) :
    Engine.Renumbers ρ (Stream.Renumbers ρ) (g.runBody ctx) (gOther.runBody other) := by
  unfold runBody
  rw [goal.check]
  split
  · exact apply_renumber goal same
  · exact .throw _

end Goal

/-! ## Rows -/

/-- Rows are handed out one at a time, and the renumbering leaves each of them alone. -/
theorem RowSupply.Fixed.next {supply rest : RowSupply} {row : Row} (fixed : supply.Fixed ρ)
    (more : supply.next = some (row, rest)) : row.map (·.renumber ρ) = row ∧ rest.Fixed ρ := by
  cases supply with
  | listed rows =>
      cases rows with
      | nil => cases more
      | cons first rows =>
          cases more
          refine ⟨?_, fun r member => fixed r (List.mem_cons_of_mem row member)⟩
          exact (List.map_congr_left (fixed row List.mem_cons_self)).trans (List.map_id' row)
  | endless row first =>
      cases more
      exact ⟨(List.map_congr_left (fixed first)).trans (List.map_id' (row first)), fixed⟩

namespace RowScan

/-- The rows for the arguments, and how many there are, are the same. -/
theorem rowsOf_renumber {a aOther : Application} (applied : a.Renumbers ρ aOther)
    {s other : Substitution} (renumbers : s.Renumbers ρ other) :
    rowsOf aOther other = rowsOf a s := by
  unfold rowsOf
  rw [applied.pattern renumbers, applied.relation, applied.order]

theorem rowsOf_fixed {a : Application} {s : Substitution} (fixed : a.relation.source.Fixed ρ)
    {found : RowSupply × ℕ} (asked : rowsOf a s = .ok found) : found.1.Fixed ρ := by
  have rows := fixed.rows (a.pattern s)
  unfold rowsOf at asked
  dsimp only at asked
  split at asked
  · cases asked
    exact rows
  · rename_i seed listed _ supply
    cases asked
    rw [supply] at rows
    exact fun row member => rows row ((Random.shuffle_perm seed listed).mem_iff.mp member)
  · cases asked

/-- A relation is asked for the same rows. -/
theorem start_renumber {a aOther : Application} (applied : a.Renumbers ρ aOther)
    (same : ctx.Renumbers ρ other) :
    Coupling.alike.Related (fun scan scanOther => scan.rows.Fixed ρ ∧
        scan.context.Renumbers ρ other ∧ scanOther = scan.renumber ρ other)
      (start a ctx) (start aOther other) := by
  unfold start
  rw [rowsOf_renumber applied same.substitution, same.hooks?, applied.relation, applied.args]
  cases asked : rowsOf a ctx.substitution with
  | ok found =>
      exact .inl ⟨_, _, ⟨rowsOf_fixed applied.fixed asked, same, rfl⟩, rfl, rfl⟩
  | error e => exact .inr ⟨rfl, rfl⟩

theorem report_renumber (scan : RowScan) (key : EventKey) (notice : Notice)
    {next nextOther : Context} (same : next.Renumbers ρ nextOther) :
    Engine.Renumbers ρ Eq (scan.report next key notice)
      ((scan.renumber ρ other).report nextOther key (notice.renumber ρ)) := by
  unfold report
  apply (Engine.Renumbers.notify notice).bind
  intro _ _ _
  unfold RowScan.renumber
  dsimp only
  split
  · exact same.fire key _
  · exact .pure rfl

/-- Rows are tried in the same way. -/
theorem tryRows_renumber (limit : ℕ) (scan : RowScan) (fixed : scan.rows.Fixed ρ)
    (same : scan.context.Renumbers ρ other) :
    Engine.Renumbers ρ (Stream.Renumbers ρ) (scan.tryRows limit)
      ((scan.renumber ρ other).tryRows limit) := by
  cases more : scan.rows.next with
  | none =>
      have moreOther : (scan.renumber ρ other).rows.next = none := more
      rw [tryRows_of_ended more, tryRows_of_ended moreOther]
      exact .pure .empty
  | some entry =>
      obtain ⟨row, rows⟩ := entry
      have moreOther : (scan.renumber ρ other).rows.next = some (row, rows) := more
      obtain ⟨still, rest⟩ := fixed.next more
      have args : (scan.renumber ρ other).args.length = scan.args.length := List.length_map _
      cases limit with
      | zero =>
          rw [tryRows_zero more, tryRows_zero moreOther]
          exact .throw _
      | succ limit =>
          by_cases fits : row.length = scan.args.length
          · let later : RowScan := { scan with rows := rows, index := scan.index + 1 }
            rw [tryRows_of_fits more fits, tryRows_of_fits moreOther (fits.trans args.symm)]
            have unified := Context.Renumbers.unifyAll scan.args row same
            rw [still] at unified
            apply unified.attempt.bind
            intro tried triedOther holds
            cases holds with
            | failed c => exact .pure (.aborted _)
            | result holds =>
                cases holds with
                | none =>
                    apply (scan.report_renumber .rowFailed (.rowFailed _ _) same).bind
                    exact fun _ _ _ => tryRows_renumber limit later rest same
                | some next =>
                    apply (scan.report_renumber .rowSucceeded (.rowSucceeded _ _) next).bind
                    exact fun _ _ _ => .pure (.ready next (.suspended (.scan later rest same)))
          · rw [tryRows_of_unfit more fits,
              tryRows_of_unfit moreOther fun equal => fits (equal.trans args), args]
            exact .pure (.aborted _)

theorem run_renumber (patience : ℕ) (scan : RowScan) (fixed : scan.rows.Fixed ρ)
    (same : scan.context.Renumbers ρ other) :
    Engine.Renumbers ρ (Stream.Renumbers ρ) (scan.run patience)
      ((scan.renumber ρ other).run patience) := by
  unfold run RowScan.renumber
  dsimp only
  split <;> exact tryRows_renumber _ scan fixed same

end RowScan

/-! ## Forcing -/

namespace Stream

theorem Renumbers.bind (same : s.Renumbers ρ t) (goal : g.Renumbers ρ gOther) :
    Engine.Renumbers ρ (Renumbers ρ) (s.bind g) (t.bind gOther) :=
  same.bindBy goal fun _ _ => Goal.apply_renumber goal

end Stream

theorem Continuation.Renumbers.resume (same : last.Renumbers ρ lastOther) :
    Engine.Renumbers ρ (Stream.Renumbers ρ) last.resume lastOther.resume := by
  cases same with
  | stream same => exact .pure same
  | bind goal same => exact same.bind goal

theorem Stream.Renumbers.andThen (same : s.Renumbers ρ t) (after : last.Renumbers ρ lastOther) :
    Engine.Renumbers ρ (Stream.Renumbers ρ) (s.andThen last) (t.andThen lastOther) := by
  cases same with
  | empty => exact after.resume
  | ready same rest => exact .pure ((Renumbers.ready same rest).followBy after)
  | suspended work => exact .pure ((Renumbers.suspended work).followBy after)
  | aborted fault => exact .pure (.aborted fault)

section Forcing

variable (defined : program.definitions.Renumbers ρ program.definitions)
include defined

/-- The renumbering leaves the program alone, so forcing the same work gives the same
streams. -/
theorem Work.Renumbers.force : ∀ {work workOther : Work}, work.Renumbers ρ workOther →
    Engine.Renumbers ρ (Stream.Renumbers ρ) (work.force program) (workOther.force program)
  | _, _, .run goal same => Goal.runBody_renumber goal same
  | _, _, .call name args same => by
      unfold Work.force
      have known := defined name
      split
      · rename_i definition found
        rw [found] at known
        cases known with
        | some known =>
            exact Goal.runBody_renumber (Definition.apply_renumber rfl known.2 args) same
      · exact .throw _
  | _, _, .openRows applied same => by
      apply (Engine.Renumbers.ofBounded (RowScan.start_renumber applied same)).map
      rintro scan _ ⟨fixed, same, rfl⟩
      exact .suspended (.scan scan fixed same)
  | _, _, .scan rows fixed same => rows.run_renumber _ fixed same
  | _, _, .bind goal work => work.force.bind fun _ _ forced => forced.bind goal
  | _, _, .append work after => work.force.bind fun _ _ forced => forced.andThen after
  | _, _, .resume after => after.resume
  | _, _, .turn first others => by
      apply first.force.bind
      intro forced forcedOther same
      exact .pure (Stream.interleave_renumber
        (Stream.passedBehind_renumber others (.cons same .nil)))

end Forcing

/-! ## Moves -/

/-- Moves of the same kind, that hand out contexts that are the same but for the numbers of
variables. -/
inductive Move.Renumbers (ρ : ℕ → ℕ) : Move → Move → Prop
  | yield {ctx other : Context} {s t : Stream} : ctx.Renumbers ρ other → s.Renumbers ρ t →
      Move.Renumbers ρ (.yield ctx s) (.yield other t)
  | forced {s t : Stream} : s.Renumbers ρ t → Move.Renumbers ρ (.forced s) (.forced t)
  | done : Move.Renumbers ρ .done .done
  | fault (fault : Fault) : Move.Renumbers ρ (.fault fault) (.fault fault)

namespace Stream

section

variable (defined : program.definitions.Renumbers ρ program.definitions)
include defined

theorem Renumbers.step (same : s.Renumbers ρ t) :
    Engine.Renumbers ρ (Move.Renumbers ρ) (s.step program) (t.step program) := by
  cases same with
  | empty => exact .pure .done
  | ready same rest => exact .pure (.yield same rest)
  | suspended work => exact (work.force defined).map fun _ _ => .forced
  | aborted fault => exact .pure (.fault fault)

/-- The same moves are made, however many. -/
theorem Renumbers.moves (count : ℕ) (same : s.Renumbers ρ t) :
    Engine.Renumbers ρ (List.Forall₂ (Move.Renumbers ρ)) (s.moves program count)
      (t.moves program count) := by
  induction count generalizing s t with
  | zero => exact .pure .nil
  | succ count ih =>
      apply (same.step defined).bind
      intro move moveOther made
      cases made with
      | yield same rest => exact (ih rest).map fun _ _ => .cons (.yield same rest)
      | forced rest => exact (ih rest).map fun _ _ => .cons (.forced rest)
      | done => exact .pure (.cons .done .nil)
      | fault fault => exact .pure (.cons (.fault fault) .nil)

end

end Stream

end RelationalSolver
