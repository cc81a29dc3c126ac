import RelationalSolver.Stream.Run
import RelationalSolver.Proofs.Session.Engine

/-!
# Recording what is executed

Whatever a search does is written a second time, in a monad that remembers which suspensions
were executed.  Applying goals, planning, trying rows and putting streams together do the same
in both, and execute nothing.
-/

namespace RelationalSolver

/-- A piece of suspended work that is not made of others. -/
inductive Suspension where
  /-- The body of a goal that delays it or names fresh variables. -/
  | body (goal : Goal) (ctx : Context)
  /-- The body of a definition. -/
  | call (name : String) (args : List Term) (ctx : Context)
  /-- The rows of a relation are asked for. -/
  | opening (application : Application) (ctx : Context)
  /-- One pull on the rows of a relation, which passes over those that do not unify. -/
  | rows (scan : RowScan)
  /-- One pull on a supply of contexts. -/
  | supply (supply : ContextSupply)
  /-- A stream is put together. -/
  | recipe (recipe : Recipe)

/-- Computations in a session that remember which suspensions they executed. -/
abbrev Traced := ExceptT Halt (StateM (Session × List Suspension))

namespace Traced

variable {α β ι : Type}

/-- Do what a computation does, and execute nothing. -/
def quietly (x : Engine α) : Traced α :=
  ExceptT.mk fun (before, executed) =>
    ((x.run.run before).1, (x.run.run before).2, executed)

/-- Remember that suspensions are executed. -/
def record (executed : List Suspension) : Traced Unit :=
  modify fun (s, earlier) => (s, earlier ++ executed)

/-- Execute the code of a suspension. -/
def execute (suspension : Suspension) (code : Traced α) : Traced α := do
  record [suspension]
  code

/-- Run a computation, and report what it executed. -/
def during (x : Traced α) : Traced (α × List Suspension) :=
  ExceptT.mk fun (before, earlier) =>
    match x.run.run (before, []) with
    | (.ok a, after, executed) => (.ok (a, executed), after, earlier ++ executed)
    | (.error halt, after, executed) => (.error halt, after, earlier ++ executed)

theorem quietly_pure (a : α) : quietly (pure a) = pure a := rfl

theorem run_bind (x : Traced α) (f : α → Traced β) (state : Session × List Suspension) :
    (x >>= f).run.run state =
      match x.run.run state with
      | (.ok a, between) => (f a).run.run between
      | (.error halt, between) => (.error halt, between) := by
  change (ExceptT.bindCont f (x.run.run state).1).run (x.run.run state).2 = _
  cases x.run.run state with
  | mk outcome between => cases outcome <;> rfl

theorem run_map (g : α → β) (x : Traced α) (state : Session × List Suspension) :
    (g <$> x).run.run state = ((x.run.run state).1.map g, (x.run.run state).2) := by
  rw [map_eq_pure_bind, run_bind]
  cases x.run.run state with
  | mk outcome after => cases outcome <;> rfl

theorem run_quietly (x : Engine α) (before : Session) (earlier : List Suspension) :
    (quietly x).run.run (before, earlier) =
      ((x.run.run before).1, (x.run.run before).2, earlier) := rfl

theorem run_during (x : Traced α) (before : Session) (earlier : List Suspension) :
    (during x).run.run (before, earlier) =
      match x.run.run (before, []) with
      | (.ok a, after, executed) => (.ok (a, executed), after, earlier ++ executed)
      | (.error halt, after, executed) => (.error halt, after, earlier ++ executed) := rfl

theorem quietly_bind (x : Engine α) (f : α → Engine β) :
    quietly (x >>= f) = quietly x >>= fun a => quietly (f a) := by
  have same : ∀ state, (quietly (x >>= f)).run.run state =
      (quietly x >>= fun a => quietly (f a)).run.run state := by
    rintro ⟨before, earlier⟩
    rw [run_bind, run_quietly, run_quietly, Engine.run_bind]
    cases x.run.run before with
    | mk outcome between => cases outcome <;> rfl
  exact funext same

theorem quietly_map (g : α → β) (x : Engine α) : quietly (g <$> x) = g <$> quietly x := by
  rw [map_eq_pure_bind, quietly_bind, map_eq_pure_bind]
  rfl

theorem foldlM_eq_quietly {f : β → ι → Traced β} {g : β → ι → Engine β}
    (same : ∀ b item, f b item = quietly (g b item)) (items : List ι) (b : β) :
    items.foldlM f b = quietly (items.foldlM g b) := by
  induction items generalizing b with
  | nil => rfl
  | cons item items ih =>
      rw [List.foldlM_cons, List.foldlM_cons, quietly_bind, same]
      exact bind_congr fun next => ih next

theorem mapM_eq_quietly {f : ι → Traced β} {g : ι → Engine β}
    (same : ∀ item, f item = quietly (g item)) (items : List ι) :
    items.mapM f = quietly (items.mapM g) := by
  induction items with
  | nil => rfl
  | cons item items ih => simp only [List.mapM_cons, quietly_bind, quietly_pure, same, ih]

theorem run_record_bind (executed : List Suspension) (x : Traced α) (before : Session)
    (earlier : List Suspension) :
    (record executed >>= fun _ => x).run.run (before, earlier) =
      x.run.run (before, earlier ++ executed) := rfl

theorem record_nil_bind (x : Traced α) : (record [] >>= fun _ => x) = x := by
  have same : ∀ state, (record [] >>= fun _ => x).run.run state = x.run.run state := by
    rintro ⟨before, earlier⟩
    rw [run_record_bind, List.append_nil]
  exact funext same

/-- Computations that execute the same whatever happens report just that. -/
theorem during_record_bind (executed : List Suspension) (x : Engine α) :
    during (record executed >>= fun _ => quietly x) =
      record executed >>= fun _ => (·, executed) <$> quietly x := by
  have same : ∀ state, (during (record executed >>= fun _ => quietly x)).run.run state =
      (record executed >>= fun _ => (·, executed) <$> quietly x).run.run state := by
    rintro ⟨before, earlier⟩
    rw [run_record_bind, run_map, run_quietly, run_during, run_record_bind, run_quietly]
    cases x.run.run before with
    | mk outcome after => cases outcome <;> rfl
  exact funext same

end Traced

open Traced

/-! ## Applying goals -/

namespace Stream

/-- Feed every context of a stream into a goal that is run by the given function. -/
def tracedBindBy (run : Context → Traced Stream) (goal : Goal) : Stream → Traced Stream
  | .empty => pure .empty
  | .aborted fault => pure (.aborted fault)
  | .suspended work => pure (.suspended (.bind work goal))
  | .ready ctx rest => do
      match ← run ctx with
      | .empty => tracedBindBy run goal rest
      | answers => pure (answers.followBy (.bind rest goal))

theorem tracedBindBy_eq {run : Context → Traced Stream} {plain : Context → Engine Stream}
    (same : ∀ ctx, run ctx = quietly (plain ctx)) (goal : Goal) :
    ∀ s : Stream, s.tracedBindBy run goal = quietly (s.bindBy plain goal)
  | .empty => rfl
  | .aborted _ => rfl
  | .suspended _ => rfl
  | .ready ctx rest => by
      rw [tracedBindBy, bindBy, quietly_bind, same]
      apply bind_congr
      intro answers
      cases answers with
      | empty => exact tracedBindBy_eq same goal rest
      | ready | suspended | aborted => rfl

end Stream

namespace Goal

/-- Apply a goal in which conjunctions and disjunctions are nested less deep than a given
depth. -/
def tracedWithin : Nat → Goal → Context → Traced Stream
  | 0, _, _ => throw .unending
  | depth + 1, g, ctx =>
      match g with
      | .succeed => pure (.unit ctx)
      | .fail => pure .empty
      | .equal a b => do
          match ← quietly (Engine.attempt (ctx.unify a b)) with
          | .ok (some next) => pure (.unit next)
          | .ok none => pure .empty
          | .error collision => pure (.aborted (.facetCollision collision))
      | .constrain c => do
          match ← quietly (ctx.constrain c) with
          | some next => pure (.unit next)
          | none => pure .empty
      | .conj goals constraints => do
          match ← quietly (ctx.constrainAll constraints) with
          | none => pure .empty
          | some ctx => do
              let goals ← quietly (planned ctx goals)
              quietly (Engine.notify (.conjunction goals.length))
              goals.foldlM (fun s g => s.tracedBindBy (tracedWithin depth g) g) (.unit ctx)
      | .disj goals constraints => do
          match ← quietly (ctx.constrainAll constraints) with
          | none => pure .empty
          | some ctx => .interleave <$> goals.mapM (tracedWithin depth · ctx)
      | .fresh names body => do
          let vars ← quietly (Engine.freshVars names.length)
          quietly (ctx.fire .varsFresh (.fresh vars))
          pure (.suspended (.run (body.fill (.ofLists names (vars.map .var))) ctx))
      | .delay body => pure (.suspended (.run body ctx))
      | .call name args => pure (.suspended (.call name args ctx))
      | .relation a => pure (.suspended (.openRows a ctx))
      | .abort fault => pure (.aborted fault)
      | .yieldThenAbort fault => pure (.ready ctx (.aborted fault))

/-- Applying a goal and planning a conjunction execute nothing. -/
theorem tracedWithin_eq (depth : Nat) (g : Goal) (ctx : Context) :
    g.tracedWithin depth ctx = quietly (g.applyWithin depth ctx) := by
  induction depth generalizing g ctx with
  | zero => rfl
  | succ depth ih =>
      cases g with
      | succeed | fail | delay | call | relation | abort | yieldThenAbort => rfl
      | equal a b =>
          rw [tracedWithin, applyWithin, quietly_bind]
          apply bind_congr
          intro result
          rcases result with _ | _ | _ <;> rfl
      | constrain c =>
          rw [tracedWithin, applyWithin, quietly_bind]
          apply bind_congr
          intro result
          cases result <;> rfl
      | conj goals constraints =>
          rw [tracedWithin, applyWithin, quietly_bind]
          apply bind_congr
          intro result
          cases result with
          | none => rfl
          | some ctx =>
              simp only [quietly_bind]
              apply bind_congr
              intro goals
              apply bind_congr
              intro _
              exact foldlM_eq_quietly (fun s g => Stream.tracedBindBy_eq (ih g) g s) goals _
      | disj goals constraints =>
          rw [tracedWithin, applyWithin, quietly_bind]
          apply bind_congr
          intro result
          cases result with
          | none => rfl
          | some ctx =>
              dsimp only
              rw [quietly_map, mapM_eq_quietly fun g => ih g ctx]
      | fresh names body =>
          simp only [tracedWithin, applyWithin, quietly_bind]
          rfl

/-- Apply a goal to a context. -/
def traced (g : Goal) (ctx : Context) : Traced Stream := g.tracedWithin (g.depth + 1) ctx

theorem traced_eq (g : Goal) (ctx : Context) : g.traced ctx = quietly (g.apply ctx) :=
  g.tracedWithin_eq (g.depth + 1) ctx

/-- Run the body of a suspended goal. -/
def tracedBody (body : Goal) (ctx : Context) : Traced Stream :=
  match body.check with
  | .ok () => body.traced ctx
  | .error e => throw (.crash (.arity e))

theorem tracedBody_eq (body : Goal) (ctx : Context) :
    body.tracedBody ctx = quietly (body.runBody ctx) := by
  rw [tracedBody, runBody]
  cases body.check with
  | ok => exact body.traced_eq ctx
  | error e => rfl

end Goal

/-! ## Rows and contexts from the outside -/

/-- Try at most so many rows, until one unifies with the arguments. -/
def RowScan.tracedTryRows (limit : Nat) (scan : RowScan) : Traced Stream :=
  match scan.rows.next, limit with
  | none, _ => pure .empty
  | some _, 0 => throw .unending
  | some (row, rows), limit + 1 => do
      let later := { scan with rows := rows, index := scan.index + 1 }
      if row.length ≠ scan.args.length then
        pure (.aborted (.rowLength scan.relation scan.index row.length scan.args.length))
      else
        match ← quietly (Engine.attempt (scan.context.unifyAll scan.args row)) with
        | .error collision => pure (.aborted (.facetCollision collision))
        | .ok (some next) => do
            quietly (scan.report next .rowSucceeded (.rowSucceeded scan.relation scan.index))
            pure (.ready next (.suspended (.scan later)))
        | .ok none => do
            quietly (scan.report scan.context .rowFailed (.rowFailed scan.relation scan.index))
            later.tracedTryRows limit

theorem RowScan.tracedTryRows_eq (scan : RowScan) (limit : Nat) :
    scan.tracedTryRows limit = quietly (scan.tryRows limit) := by
  fun_induction tryRows limit scan with
  | case1 limit scan ended => rw [tracedTryRows.eq_def, ended]; rfl
  | case2 scan pair more => rw [tracedTryRows.eq_def, more]; rfl
  | case3 scan row rows limit next uneven =>
      rw [tracedTryRows.eq_def, next]
      exact if_pos uneven
  | case4 scan row rows limit next later fits ih =>
      rw [tracedTryRows.eq_def, next, quietly_bind]
      apply (if_neg fits).trans
      apply bind_congr
      intro attempted
      rcases attempted with collision | _ | found
      · rfl
      · exact (bind_congr fun _ => ih).trans (quietly_bind _ _).symm
      · dsimp only
        rw [quietly_bind]
        rfl

/-- Try rows until one unifies or there are no more. -/
def RowScan.traced (patience : Nat) (scan : RowScan) : Traced Stream :=
  match scan.rows with
  | .listed rows => scan.tracedTryRows rows.length
  | .endless _ _ => scan.tracedTryRows patience

theorem RowScan.traced_eq (patience : Nat) (scan : RowScan) :
    scan.traced patience = quietly (scan.run patience) := by
  rw [traced, run]
  cases scan.rows with
  | listed rows => exact scan.tracedTryRows_eq rows.length
  | endless => exact scan.tracedTryRows_eq patience

/-- Take one context from a supply. -/
def ContextSupply.traced : ContextSupply → Traced Stream
  | .listed [] => pure .empty
  | .listed (.ok ctx :: items) => pure (.ready ctx (.suspended (.pull (.listed items))))
  | .listed (.error fault :: _) => pure (.aborted fault)
  | .countingFrom facet value => do
      let ctx ← quietly (Context.empty.set (.custom facet) value)
      pure (.ready ctx (.suspended (.pull (.countingFrom facet (value + 1)))))

theorem ContextSupply.traced_eq (supply : ContextSupply) :
    supply.traced = quietly supply.pull := by
  fun_cases pull supply with
  | case1 | case2 | case3 => rfl
  | case4 facet value =>
      rw [traced, quietly_bind]
      rfl

/-! ## Putting streams together -/

namespace Stream

/-- Feed every context of a stream into a goal. -/
def tracedBind (s : Stream) (goal : Goal) : Traced Stream := s.tracedBindBy goal.traced goal

theorem tracedBind_eq (s : Stream) (goal : Goal) : s.tracedBind goal = quietly (s.bind goal) :=
  tracedBindBy_eq goal.traced_eq goal s

/-- Feed every context of a stream into goals, one goal after the other. -/
def tracedBindAll (s : Stream) (goals : List Goal) : Traced Stream := goals.foldlM tracedBind s

theorem tracedBindAll_eq (s : Stream) (goals : List Goal) :
    s.tracedBindAll goals = quietly (s.bindAll goals) :=
  foldlM_eq_quietly tracedBind_eq goals s

end Stream

/-- Go on with a continuation. -/
def Continuation.traced : Continuation → Traced Stream
  | .stream s => pure s
  | .bind s goal => s.tracedBind goal

theorem Continuation.traced_eq (next : Continuation) : next.traced = quietly next.resume := by
  cases next with
  | stream s => rfl
  | bind s goal => exact s.tracedBind_eq goal

/-- One stream after another; a continuation that is reached at once is resumed
at once. -/
def Stream.tracedAndThen (s : Stream) (next : Continuation) : Traced Stream :=
  match s with
  | .empty => next.traced
  | _ => pure (s.followBy next)

theorem Stream.tracedAndThen_eq (s : Stream) (next : Continuation) :
    s.tracedAndThen next = quietly (s.andThen next) := by
  cases s with
  | empty => exact next.traced_eq
  | ready | suspended | aborted => rfl

namespace Recipe

mutual

/-- Put a stream together. -/
def traced : Recipe → Traced Stream
  | .unit ctx => pure (.unit ctx)
  | .empty => pure .empty
  | .never => pure (.suspended (.build .never))
  | .ready ctx rest => .ready ctx <$> rest.traced
  | .suspend recipe => pure (.suspended (.build recipe))
  | .abort fault => pure (.aborted fault)
  | .append recipes => do
      match ← tracedAll recipes with
      | [] => pure .empty
      | first :: others => pure (others.foldl .append first)
  | .mplus recipes => do
      match ← tracedAll recipes with
      | [] => pure .empty
      | first :: others => pure (others.foldl (fun s t => .interleave [s, t]) first)
  | .interleave recipes => .interleave <$> tracedAll recipes
  | .bind recipe goals => do (← recipe.traced).tracedBindAll goals
  | .supplied supply => pure (.suspended (.pull supply))

/-- Put several streams together, from left to right. -/
def tracedAll : List Recipe → Traced (List Stream)
  | [] => pure []
  | recipe :: recipes => do
      let first ← recipe.traced
      let others ← tracedAll recipes
      pure (first :: others)

end

mutual

theorem traced_eq : ∀ recipe : Recipe, recipe.traced = quietly recipe.build
  | .unit _ => rfl
  | .empty => rfl
  | .never => rfl
  | .ready _ rest => by rw [traced, build, quietly_map, traced_eq rest]
  | .suspend _ => rfl
  | .abort _ => rfl
  | .append recipes => by
      rw [traced, build, quietly_bind, tracedAll_eq recipes]
      exact bind_congr fun streams => by cases streams <;> rfl
  | .mplus recipes => by
      rw [traced, build, quietly_bind, tracedAll_eq recipes]
      exact bind_congr fun streams => by cases streams <;> rfl
  | .interleave recipes => by rw [traced, build, quietly_map, tracedAll_eq recipes]
  | .bind recipe goals => by
      rw [traced, build, quietly_bind, traced_eq recipe]
      exact bind_congr fun s => s.tracedBindAll_eq goals
  | .supplied _ => rfl

theorem tracedAll_eq : ∀ recipes : List Recipe, tracedAll recipes = quietly (buildAll recipes)
  | [] => rfl
  | recipe :: recipes => by
      simp only [tracedAll, buildAll, quietly_bind, quietly_pure, traced_eq recipe,
        tracedAll_eq recipes]

end

/-- Put a stream together that was suspended. -/
def tracedChecked (recipe : Recipe) : Traced Stream :=
  match recipe.check with
  | .ok () => recipe.traced
  | .error e => throw (.crash (.arity e))

theorem tracedChecked_eq (recipe : Recipe) :
    recipe.tracedChecked = quietly recipe.buildChecked := by
  rw [tracedChecked, buildChecked]
  cases recipe.check with
  | ok => exact recipe.traced_eq
  | error e => rfl

end Recipe

end RelationalSolver
