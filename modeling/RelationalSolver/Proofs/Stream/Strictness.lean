import RelationalSolver.Proofs.Session.Engine
import RelationalSolver.Proofs.Stream.Turns
import RelationalSolver.Stream.Run

/-!
# Searches that stop on collisions

Whatever a search does is written a second time, without a handler for the collisions that
unification reports: the first of them stops the search.  Before it, both searches do the same.
From there on, the search that handles collisions has a stream that does not end without a fault.
-/

namespace RelationalSolver

open Engine

/-! ## Streams that do not end without a fault -/

mutual

/-- If the stream ends, it ends in a fault. -/
inductive Stream.Doomed : Stream → Prop
  | ready (ctx : Context) {rest : Stream} : Stream.Doomed rest → Stream.Doomed (.ready ctx rest)
  | suspended {work : Work} : Work.Doomed work → Stream.Doomed (.suspended work)
  | aborted (fault : Fault) : Stream.Doomed (.aborted fault)

/-- What is forced is a stream that does not end without a fault. -/
inductive Work.Doomed : Work → Prop
  | bind {work : Work} (goal : Goal) : Work.Doomed work → Work.Doomed (.bind work goal)
  | append {work : Work} (next : Continuation) : Work.Doomed work →
      Work.Doomed (.append work next)
  | goOn (work : Work) {next : Continuation} : Continuation.Doomed next →
      Work.Doomed (.append work next)
  | resume {next : Continuation} : Continuation.Doomed next → Work.Doomed (.resume next)
  | turn {first work : Work} {others : List Work} : work ∈ first :: others → Work.Doomed work →
      Work.Doomed (.turn first others)

/-- What is gone on with does not end without a fault. -/
inductive Continuation.Doomed : Continuation → Prop
  | stream {s : Stream} : Stream.Doomed s → Continuation.Doomed (.stream s)
  | bind {s : Stream} (goal : Goal) : Stream.Doomed s → Continuation.Doomed (.bind s goal)

end

variable {program : Program} {s t : Stream} {work : Work} {next : Continuation} {goal : Goal}
variable {queue : List Stream} {works : List Work} {run : Context → Engine Stream}

namespace Stream

theorem Doomed.followBy (next : Continuation) : ∀ {s : Stream}, s.Doomed → (s.followBy next).Doomed
  | _, .ready ctx rest => .ready ctx (rest.followBy next)
  | _, .suspended work => .suspended (.append next work)
  | _, .aborted fault => .aborted fault

theorem doomed_followBy (doomed : next.Doomed) : ∀ s : Stream, (s.followBy next).Doomed
  | .empty => .suspended (.resume doomed)
  | .ready ctx rest => .ready ctx (doomed_followBy doomed rest)
  | .suspended work => .suspended (.goOn work doomed)
  | .aborted fault => .aborted fault

theorem Doomed.append (doomed : s.Doomed) (t : Stream) : (s.append t).Doomed := by
  cases s with
  | empty => cases doomed
  | ready | suspended | aborted => exact doomed.followBy (.stream t)

theorem doomed_append (s : Stream) (doomed : t.Doomed) : (s.append t).Doomed := by
  cases s with
  | empty => exact doomed
  | ready | suspended | aborted => exact doomed_followBy (.stream doomed) _

theorem doomed_ofWorks (member : work ∈ works) (doomed : work.Doomed) :
    (ofWorks works).Doomed := by
  rcases works with _ | ⟨first, _ | ⟨other, others⟩⟩
  · cases member
  · exact .suspended (List.mem_singleton.mp member ▸ doomed)
  · exact .suspended (.turn member doomed)

/-- Streams that take turns come to the fault of one. -/
theorem doomed_interleave (member : s ∈ queue) (doomed : s.Doomed) :
    (interleave queue).Doomed := by
  rw [interleave_eq_takeTurns]
  induction queue using turns_induction generalizing s with
  | suspended works =>
      obtain ⟨work, among, rfl⟩ := List.mem_map.mp member
      cases doomed with
      | suspended doomed =>
          rw [takeTurns_suspended]
          exact doomed_ofWorks among doomed
  | ended works queue ih =>
      rw [takeTurns_empty]
      rcases List.mem_append.mp member with passed | later
      · exact ih (List.mem_append_right _ passed) doomed
      · rcases List.mem_cons.mp later with rfl | later
        · cases doomed
        · exact ih (List.mem_append_left _ later) doomed
  | ready works ctx rest queue ih =>
      rw [takeTurns_ready]
      apply Doomed.ready
      rcases List.mem_append.mp member with passed | later
      · exact ih (by simp [passed]) doomed
      · rcases List.mem_cons.mp later with rfl | later
        · cases doomed with
          | ready _ doomed => exact ih (by simp) doomed
        · exact ih (by simp [later]) doomed
  | aborted works reason queue =>
      rw [takeTurns_aborted]
      exact .aborted reason

/-- Fed into a goal, a stream that comes to a fault still does. -/
theorem Doomed.bindBy : ∀ {s t : Stream}, s.Doomed → Returns (s.bindBy run goal) t → t.Doomed
  | _, _, .suspended work, given => given.of_pure ▸ .suspended (.bind goal work)
  | _, _, .aborted fault, given => given.of_pure ▸ .aborted fault
  | _, _, .ready ctx doomed, given => by
      obtain ⟨answers, _, given⟩ := given.of_bind
      cases answers with
      | empty => exact doomed.bindBy given
      | ready | suspended | aborted =>
          exact given.of_pure ▸ doomed_followBy (.bind goal doomed) _

end Stream

/-! ## Computations that differ from a collision on -/

namespace Engine

variable {α β : Type} {lost : α → Prop} {result : β → Prop} {x y : Engine α}
variable {f g : α → Engine β}

/-- The second computation does the same as the first, unless the first stops on a collision.
Whatever the second gives then is lost. -/
def Exposes (lost : α → Prop) (x y : Engine α) : Prop :=
  ∀ before, y.run.run before = x.run.run before ∨
    ∃ c between, x.run.run before = (.error (.collision c), between) ∧
      ∀ a after, Runs y before a after → lost a

namespace Exposes

theorem refl (lost : α → Prop) (x : Engine α) : Exposes lost x x := fun _ => .inl rfl

theorem bind (first : Exposes lost x y) (later : ∀ a, Exposes result (f a) (g a))
    (stays : ∀ a, lost a → ∀ b, Returns (g a) b → result b) :
    Exposes result (x >>= f) (y >>= g) := by
  intro before
  rcases first before with same | ⟨c, between, stops, loses⟩
  · rw [run_bind, run_bind, same]
    cases ran : x.run.run before with
    | mk outcome between =>
        cases outcome with
        | error halt => exact .inl rfl
        | ok a =>
            rcases later a between with same | ⟨c, after, stops, loses⟩
            · exact .inl same
            · refine .inr ⟨c, after, stops, ?_⟩
              rintro b last gives
              obtain ⟨other, middle, first, second⟩ := runs_bind.mp gives
              cases (same.trans ran).symm.trans first
              exact loses b last second
  · refine .inr ⟨c, between, ?_, ?_⟩
    · rw [run_bind, stops]
    · rintro b last gives
      obtain ⟨a, middle, first, second⟩ := runs_bind.mp gives
      exact stays a (loses a middle first) b ⟨middle, last, second⟩

/-- Both begin with the same. -/
theorem behind (x : Engine α) (later : ∀ a, Exposes result (f a) (g a)) :
    Exposes result (x >>= f) (x >>= g) :=
  bind (refl (fun _ => False) x) later fun _ impossible => impossible.elim

theorem map {h : α → β} (exposes : Exposes lost x y) (stays : ∀ a, lost a → result (h a)) :
    Exposes result (h <$> x) (h <$> y) := by
  rw [map_eq_pure_bind, map_eq_pure_bind]
  exact exposes.bind (fun a => refl result _) fun a given b gives => gives.of_pure ▸ stays a given

/-- The second computation handles the collisions of the first. -/
theorem attempt {handler : Except Collision α → Engine β}
    (later : ∀ a, Exposes result (f a) (handler (.ok a)))
    (handled : ∀ c b, Returns (handler (.error c)) b → result b) :
    Exposes result (x >>= f) (Engine.attempt x >>= handler) := by
  intro before
  rw [run_bind, run_bind, run_attempt]
  cases ran : x.run.run before with
  | mk outcome between =>
      rcases outcome with halt | a
      · cases halt with
        | collision c =>
            refine .inr ⟨c, between, rfl, ?_⟩
            intro b after gives
            rw [Runs, run_bind, run_attempt, ran] at gives
            exact handled c b ⟨between, after, gives⟩
        | crash | unending => exact .inl rfl
      · rcases later a between with same | ⟨c, after, stops, loses⟩
        · exact .inl same
        · refine .inr ⟨c, after, stops, ?_⟩
          intro b last gives
          rw [Runs, run_bind, run_attempt, ran] at gives
          exact loses b last gives

end Exposes

end Engine

/-! ## Applying goals -/

namespace Stream

variable {runOther : Context → Engine Stream}

theorem exposes_bindBy (runs : ∀ ctx, Exposes Doomed (run ctx) (runOther ctx)) (goal : Goal) :
    ∀ s : Stream, Exposes Doomed (s.bindBy run goal) (s.bindBy runOther goal)
  | .empty => .refl _ _
  | .aborted _ => .refl _ _
  | .suspended _ => .refl _ _
  | .ready ctx rest => by
      apply (runs ctx).bind
      · intro answers
        cases answers with
        | empty => exact exposes_bindBy runs goal rest
        | ready | suspended | aborted => exact .refl _ _
      · intro answers doomed t given
        cases answers with
        | empty => cases doomed
        | ready | suspended | aborted => exact given.of_pure ▸ doomed.followBy _

theorem Doomed.foldlM {apply : Goal → Context → Engine Stream} {s t : Stream} (doomed : s.Doomed)
    {goals : List Goal} (given : Returns (goals.foldlM (fun s g => s.bindBy (apply g) g) s) t) :
    t.Doomed := by
  induction goals generalizing s with
  | nil => exact given.of_pure ▸ doomed
  | cons g goals ih =>
      rw [List.foldlM_cons] at given
      obtain ⟨next, first, given⟩ := given.of_bind
      exact ih (doomed.bindBy first) given

/-- A goal after the other. -/
theorem exposes_foldlM {apply applyOther : Goal → Context → Engine Stream}
    (runs : ∀ g ctx, Exposes Doomed (apply g ctx) (applyOther g ctx)) :
    ∀ (goals : List Goal) (s : Stream),
      Exposes Doomed (goals.foldlM (fun s g => s.bindBy (apply g) g) s)
        (goals.foldlM (fun s g => s.bindBy (applyOther g) g) s)
  | [], s => .refl _ _
  | g :: goals, s => by
      rw [List.foldlM_cons, List.foldlM_cons]
      apply (exposes_bindBy (runs g) g s).bind fun next => exposes_foldlM runs goals next
      exact fun next doomed t given => doomed.foldlM given

/-- A goal beside the other. -/
theorem exposes_mapM {apply applyOther : Goal → Engine Stream}
    (runs : ∀ g, Exposes Doomed (apply g) (applyOther g)) (goals : List Goal) :
    Exposes (fun queue => ∃ s ∈ queue, s.Doomed) (goals.mapM apply) (goals.mapM applyOther) := by
  induction goals with
  | nil => exact .refl _ _
  | cons g goals ih =>
      rw [List.mapM_cons, List.mapM_cons]
      apply (runs g).bind
      · intro s
        apply ih.bind fun queue => .refl _ _
        rintro queue ⟨t, member, doomed⟩ all given
        exact given.of_pure ▸ ⟨t, List.mem_cons_of_mem s member, doomed⟩
      · intro s doomed all given
        obtain ⟨queue, _, given⟩ := given.of_bind
        exact given.of_pure ▸ ⟨s, List.mem_cons_self .., doomed⟩

end Stream

namespace Goal

/-- Apply a goal in which conjunctions and disjunctions are nested less deep than a given depth,
and stop on a collision. -/
def strictWithin : Nat → Goal → Context → Engine Stream
  | 0, _, _ => throw .unending
  | depth + 1, g, ctx =>
      match g with
      | .equal a b => do
          match ← ctx.unify a b with
          | some next => pure (.unit next)
          | none => pure .empty
      | .conj goals constraints => do
          match ← ctx.constrainAll constraints with
          | none => pure .empty
          | some ctx => do
              let goals ← planned ctx goals
              Engine.notify (.conjunction goals.length)
              goals.foldlM (fun s g => s.bindBy (strictWithin depth g) g) (.unit ctx)
      | .disj goals constraints => do
          match ← ctx.constrainAll constraints with
          | none => pure .empty
          | some ctx => .interleave <$> goals.mapM (strictWithin depth · ctx)
      | g => g.applyWithin (depth + 1) ctx

theorem exposes_applyWithin (depth : Nat) (g : Goal) (ctx : Context) :
    Exposes Stream.Doomed (g.strictWithin depth ctx) (g.applyWithin depth ctx) := by
  induction depth generalizing g ctx with
  | zero => exact .refl _ _
  | succ depth ih =>
      cases g with
      | equal a b =>
          apply Exposes.attempt
          · intro unified
            cases unified <;> exact .refl _ _
          · intro c s given
            exact given.of_pure ▸ .aborted (.facetCollision c)
      | conj goals constraints =>
          apply Exposes.behind
          intro attached
          cases attached with
          | none => exact .refl _ _
          | some ctx =>
              apply Exposes.behind
              intro goals
              apply Exposes.behind
              exact fun _ => Stream.exposes_foldlM ih goals (.unit ctx)
      | disj goals constraints =>
          apply Exposes.behind
          intro attached
          cases attached with
          | none => exact .refl _ _
          | some ctx =>
              apply (Stream.exposes_mapM (fun g => ih g ctx) goals).map
              rintro queue ⟨s, member, doomed⟩
              exact Stream.doomed_interleave member doomed
      | succeed | fail | constrain | fresh | delay | call | relation | abort | yieldThenAbort =>
          exact .refl _ _

/-- Apply a goal to a context, and stop on a collision. -/
def strict (g : Goal) (ctx : Context) : Engine Stream := g.strictWithin (g.depth + 1) ctx

theorem exposes_apply (g : Goal) (ctx : Context) :
    Exposes Stream.Doomed (g.strict ctx) (g.apply ctx) := g.exposes_applyWithin (g.depth + 1) ctx

/-- Run the body of a suspended goal, and stop on a collision. -/
def strictBody (body : Goal) (ctx : Context) : Engine Stream :=
  match body.check with
  | .ok () => body.strict ctx
  | .error e => Engine.crash (.arity e)

end Goal

/-! ## Rows -/

namespace RowScan

/-- Try at most so many rows, until one unifies with the arguments or collides. -/
def strictTryRows (limit : Nat) (scan : RowScan) : Engine Stream :=
  match scan.rows.next, limit with
  | none, _ => pure .empty
  | some _, 0 => throw .unending
  | some (row, rows), limit + 1 => do
      let later := { scan with rows := rows, index := scan.index + 1 }
      if row.length ≠ scan.args.length then
        pure (.aborted (.rowLength scan.relation scan.index row.length scan.args.length))
      else
        match ← scan.context.unifyAll scan.args row with
        | some next => do
            scan.report next .rowSucceeded (.rowSucceeded scan.relation scan.index)
            pure (.ready next (.suspended (.scan later)))
        | none => do
            scan.report scan.context .rowFailed (.rowFailed scan.relation scan.index)
            later.strictTryRows limit

/-- Try rows until one unifies or collides or there are no more. -/
def strict (patience : Nat) (scan : RowScan) : Engine Stream :=
  match scan.rows with
  | .listed rows => scan.strictTryRows rows.length
  | .endless _ _ => scan.strictTryRows patience

end RowScan

/-! ## Putting streams together -/

/-- Feed every context of a stream into a goal, and stop on a collision. -/
def Stream.strictBind (s : Stream) (goal : Goal) : Engine Stream := s.bindBy goal.strict goal

/-- Go on with a continuation, and stop on a collision. -/
def Continuation.strict : Continuation → Engine Stream
  | .stream s => pure s
  | .bind s goal => s.strictBind goal

theorem Continuation.Doomed.resume (doomed : next.Doomed) (given : Returns next.resume s) :
    s.Doomed := by
  cases doomed with
  | stream doomed => exact given.of_pure ▸ doomed
  | bind goal doomed => exact doomed.bindBy given

/-- One stream after another; stop on a collision of a continuation that is resumed at once. -/
def Stream.strictAndThen (s : Stream) (next : Continuation) : Engine Stream :=
  match s with
  | .empty => next.strict
  | _ => pure (s.followBy next)

theorem Stream.Doomed.andThen (doomed : s.Doomed) (given : Returns (s.andThen next) t) :
    t.Doomed := by
  cases s with
  | empty => cases doomed
  | ready | suspended | aborted => exact given.of_pure ▸ doomed.followBy next

theorem Stream.doomed_andThen (s : Stream) (doomed : next.Doomed)
    (given : Returns (s.andThen next) t) : t.Doomed := by
  cases s with
  | empty => exact doomed.resume given
  | ready | suspended | aborted => exact given.of_pure ▸ doomed_followBy doomed _

namespace Recipe

mutual

/-- Put a stream together, and stop on a collision. -/
def strict : Recipe → Engine Stream
  | .ready ctx rest => .ready ctx <$> rest.strict
  | .append recipes => do
      match ← strictAll recipes with
      | [] => pure .empty
      | first :: others => pure (others.foldl .append first)
  | .mplus recipes => do
      match ← strictAll recipes with
      | [] => pure .empty
      | first :: others => pure (others.foldl (fun s t => .interleave [s, t]) first)
  | .interleave recipes => .interleave <$> strictAll recipes
  | .bind recipe goals => do goals.foldlM Stream.strictBind (← recipe.strict)
  | recipe => recipe.build

/-- Put several streams together, from left to right. -/
def strictAll : List Recipe → Engine (List Stream)
  | [] => pure []
  | recipe :: recipes => do
      let first ← recipe.strict
      let others ← strictAll recipes
      pure (first :: others)

end

/-- Streams one after the other, or in turns, come to the fault of one. -/
theorem doomed_foldl {join : Stream → Stream → Stream}
    (first : ∀ {s t : Stream}, s.Doomed → (join s t).Doomed)
    (second : ∀ {s t : Stream}, t.Doomed → (join s t).Doomed) {s : Stream} {queue : List Stream}
    (member : t ∈ s :: queue) (doomed : t.Doomed) : (queue.foldl join s).Doomed := by
  induction queue generalizing s t with
  | nil => exact List.mem_singleton.mp member ▸ doomed
  | cons other queue ih =>
      rcases List.mem_cons.mp member with rfl | member
      · exact ih (List.mem_cons_self ..) (first doomed)
      · rcases List.mem_cons.mp member with rfl | member
        · exact ih (List.mem_cons_self ..) (second doomed)
        · exact ih (List.mem_cons_of_mem _ member) doomed

mutual

theorem exposes_build : ∀ recipe : Recipe, Exposes Stream.Doomed recipe.strict recipe.build
  | .ready ctx rest => by
      rw [strict, build]
      exact (exposes_build rest).map fun s => .ready ctx
  | .append recipes => by
      rw [strict, build]
      apply (exposes_buildAll recipes).bind fun queue => .refl _ _
      rintro queue ⟨t, member, doomed⟩ s given
      cases queue with
      | nil => cases member
      | cons first others =>
          exact given.of_pure ▸ doomed_foldl (fun doomed => doomed.append _)
            (fun doomed => Stream.doomed_append _ doomed) member doomed
  | .mplus recipes => by
      rw [strict, build]
      apply (exposes_buildAll recipes).bind fun queue => .refl _ _
      rintro queue ⟨t, member, doomed⟩ s given
      cases queue with
      | nil => cases member
      | cons first others =>
          exact given.of_pure ▸ doomed_foldl
            (fun doomed => Stream.doomed_interleave (by simp) doomed)
            (fun doomed => Stream.doomed_interleave (by simp) doomed) member doomed
  | .interleave recipes => by
      rw [strict, build]
      apply (exposes_buildAll recipes).map
      rintro queue ⟨t, member, doomed⟩
      exact Stream.doomed_interleave member doomed
  | .bind recipe goals => by
      rw [strict, build]
      apply (exposes_build recipe).bind
      · exact Stream.exposes_foldlM (fun g => g.exposes_apply) goals
      · exact fun s doomed t given => doomed.foldlM given
  | .unit _ => .refl _ _
  | .empty => .refl _ _
  | .never => .refl _ _
  | .suspend _ => .refl _ _
  | .abort _ => .refl _ _
  | .supplied _ => .refl _ _

theorem exposes_buildAll : ∀ recipes : List Recipe,
    Exposes (fun queue => ∃ s ∈ queue, s.Doomed) (strictAll recipes) (buildAll recipes)
  | [] => .refl _ _
  | recipe :: recipes => by
      rw [strictAll, buildAll]
      apply (exposes_build recipe).bind
      · intro s
        apply (exposes_buildAll recipes).bind fun queue => .refl _ _
        rintro queue ⟨t, member, doomed⟩ all given
        exact given.of_pure ▸ ⟨t, List.mem_cons_of_mem s member, doomed⟩
      · intro s doomed all given
        obtain ⟨queue, _, given⟩ := given.of_bind
        exact given.of_pure ▸ ⟨s, List.mem_cons_self .., doomed⟩

end

/-- Put a stream together that was suspended, and stop on a collision. -/
def strictChecked (recipe : Recipe) : Engine Stream :=
  match recipe.check with
  | .ok () => recipe.strict
  | .error e => Engine.crash (.arity e)

end Recipe

/-! ## Forcing -/

/-- Force a suspension, and stop on a collision. -/
def Work.strict (program : Program) : Work → Engine Stream
  | .run goal ctx => goal.strictBody ctx
  | .call name args ctx =>
      match program.definitions.lookup name with
      | some definition => (definition.apply args).strictBody ctx
      | none => Engine.crash (.undefinedCall name)
  | .openRows application ctx =>
      (.suspended <| .scan ·) <$> Engine.ofBounded (RowScan.start application ctx)
  | .scan rows => rows.strict program.patience
  | .pull supply => supply.pull
  | .build recipe => recipe.strictChecked
  | .bind work goal => do (← work.strict program).strictBind goal
  | .append work next => do (← work.strict program).strictAndThen next
  | .resume next => next.strict
  | .turn first others => do
      let forced ← first.strict program
      pure (.interleave (others.map .suspended ++ [forced]))

/-- Forced, a stream that comes to a fault still does. -/
theorem Work.Doomed.force : ∀ {work : Work} {s : Stream}, work.Doomed →
    Returns (work.force program) s → s.Doomed
  | _, _, .bind goal doomed, given => by
      rw [Work.force] at given
      obtain ⟨t, first, given⟩ := given.of_bind
      exact (doomed.force first).bindBy given
  | _, _, .append next doomed, given => by
      rw [Work.force] at given
      obtain ⟨t, first, given⟩ := given.of_bind
      exact (doomed.force first).andThen given
  | _, _, .goOn work doomed, given => by
      rw [Work.force] at given
      obtain ⟨t, _, given⟩ := given.of_bind
      exact Stream.doomed_andThen t doomed given
  | _, _, .resume doomed, given => doomed.resume given
  | .turn first others, _, .turn member doomed, given => by
      rw [Work.force] at given
      obtain ⟨t, forced, given⟩ := given.of_bind
      rw [← given.of_pure]
      rcases List.mem_cons.mp member with rfl | member
      · exact Stream.doomed_interleave (by simp) (doomed.force forced)
      · exact Stream.doomed_interleave (List.mem_append_left _ (List.mem_map_of_mem member))
          (.suspended doomed)

end RelationalSolver
