import RelationalSolver.Proofs.Stream.Execution
import RelationalSolver.Proofs.Stream.Tracing

/-!
# What a step executes

Suspended work may be combined many times over, but at its front there is at most one
suspension that waits to be executed.  Forcing the work executes that one and nothing else,
also where it goes on with other goals afterwards.  In a search every move that is forced
therefore executes at most one suspension, and the other moves execute none.
-/

namespace RelationalSolver

open Engine Traced

variable {program : Program}

/-- One computation does what another does, and executes at most so many suspensions, also
if it stops short. -/
def Traced.Traces {α : Type} (x : Traced α) (y : Engine α) (most : Nat) : Prop :=
  ∀ before earlier, ∃ executed, executed.length ≤ most ∧
    x.run.run (before, earlier) =
      ((y.run.run before).1, (y.run.run before).2, earlier ++ executed)

theorem Traced.traces_record_bind {α : Type} {executed : List Suspension} {most : Nat}
    (few : executed.length ≤ most) (y : Engine α) :
    (record executed >>= fun _ => quietly y).Traces y most := by
  intro before earlier
  exact ⟨executed, few, by rw [run_record_bind, run_quietly]⟩

theorem Traced.traces_quietly {α : Type} (y : Engine α) : (quietly y).Traces y 0 := by
  rw [← record_nil_bind (quietly y)]
  exact traces_record_bind (Nat.le_refl 0) y

/-! ## The front of suspended work -/

namespace Work

/-- The suspension that is reached first when the work is forced. -/
def front? : Work → Option Suspension
  | .run goal ctx => some (.body goal ctx)
  | .call name args ctx => some (.call name args ctx)
  | .openRows application ctx => some (.opening application ctx)
  | .scan rows => some (.rows rows)
  | .pull supply => some (.supply supply)
  | .build recipe => some (.recipe recipe)
  | .bind work _ => work.front?
  | .append work _ => work.front?
  | .resume _ => none
  | .turn first _ => first.front?

/-- Force a suspension. -/
def tracedForce (program : Program) : Work → Traced Stream
  | .run goal ctx => execute (.body goal ctx) (goal.tracedBody ctx)
  | .call name args ctx => execute (.call name args ctx) <|
      match program.definitions.lookup name with
      | some definition => (definition.apply args).tracedBody ctx
      | none => throw (.crash (.undefinedCall name))
  | .openRows application ctx => execute (.opening application ctx) <|
      (.suspended <| .scan ·) <$> quietly (ofBounded (RowScan.start application ctx))
  | .scan rows => execute (.rows rows) (rows.traced program.patience)
  | .pull supply => execute (.supply supply) supply.traced
  | .build recipe => execute (.recipe recipe) recipe.tracedChecked
  | .bind work goal => do (← work.tracedForce program).tracedBind goal
  | .append work next => do (← work.tracedForce program).tracedAndThen next
  | .resume next => next.traced
  | .turn first others => do
      let forced ← first.tracedForce program
      pure (.interleave (others.map .suspended ++ [forced]))

/-- Forcing executes the suspension at the front, if there is one, and whatever comes after
it executes nothing. -/
theorem tracedForce_eq (program : Program) : ∀ work : Work,
    work.tracedForce program =
      record work.front?.toList >>= fun _ => quietly (work.force program)
  | .run goal ctx => by rw [tracedForce, goal.tracedBody_eq ctx]; rfl
  | .call name args ctx => by
      rw [tracedForce, force]
      cases program.definitions.lookup name with
      | none => rfl
      | some definition =>
          dsimp only
          rw [Goal.tracedBody_eq]
          rfl
  | .openRows application ctx => by rw [tracedForce, ← quietly_map]; rfl
  | .scan rows => by rw [tracedForce, rows.traced_eq]; rfl
  | .pull supply => by rw [tracedForce, supply.traced_eq]; rfl
  | .build recipe => by rw [tracedForce, recipe.tracedChecked_eq]; rfl
  | .bind work goal => by
      rw [tracedForce, force, tracedForce_eq program work, bind_assoc, quietly_bind]
      exact bind_congr fun _ => bind_congr fun s => s.tracedBind_eq goal
  | .append work next => by
      rw [tracedForce, force, tracedForce_eq program work, bind_assoc, quietly_bind]
      exact bind_congr fun _ => bind_congr fun s => s.tracedAndThen_eq next
  | .resume next => by rw [tracedForce, next.traced_eq]; exact (record_nil_bind _).symm
  | .turn first others => by
      rw [tracedForce, force, tracedForce_eq program first, bind_assoc, quietly_bind]
      rfl

end Work

namespace Stream

/-- The suspension that is reached first in the next step. -/
def front? : Stream → Option Suspension
  | .suspended work => work.front?
  | _ => none

/-- Advance a stream by one move. -/
def tracedStep (program : Program) : Stream → Traced Move
  | .empty => pure .done
  | .ready ctx rest => pure (.yield ctx rest)
  | .suspended work => .forced <$> work.tracedForce program
  | .aborted fault => pure (.fault fault)

theorem tracedStep_eq (program : Program) (s : Stream) :
    s.tracedStep program = record s.front?.toList >>= fun _ => quietly (s.step program) := by
  cases s with
  | empty | ready | aborted => exact (record_nil_bind _).symm
  | suspended work =>
      rw [tracedStep, work.tracedForce_eq, step, quietly_map, map_bind]
      rfl

theorem length_front? (s : Stream) : s.front?.toList.length ≤ 1 := by
  cases s.front? <;> simp

end Stream

/-! ## Suspensions that come from goals -/

/-- The suspension is the body of a goal, the opening of a relation, or a pull on its rows. -/
def Suspension.OfGoal : Suspension → Prop
  | .body .. | .call .. | .opening .. | .rows _ => True
  | .supply _ | .recipe _ => False

/-- Nothing in the stream is work that does not come from a goal. -/
def Stream.OfGoal (s : Stream) : Prop := Pending.foreign ∉ s.pendings []

/-- The suspension at the front is among what the work has still to do. -/
theorem Work.front?_ofGoal : ∀ (work : Work) (goals : List Goal),
    Pending.foreign ∉ work.pendings goals → ∀ suspension ∈ work.front?, suspension.OfGoal
  | .run _ _, _, _ => by rintro _ ⟨⟩; trivial
  | .call _ _ _, _, _ => by rintro _ ⟨⟩; trivial
  | .openRows _ _, _, _ => by rintro _ ⟨⟩; trivial
  | .scan _, _, _ => by rintro _ ⟨⟩; trivial
  | .pull _, _, native => absurd (List.mem_singleton_self _) native
  | .build _, _, native => absurd (List.mem_singleton_self _) native
  | .bind work goal, goals, native => front?_ofGoal work (goal :: goals) native
  | .append work _, goals, native =>
      front?_ofGoal work goals fun mem => native (List.mem_append_left _ mem)
  | .resume _, _, _ => nofun
  | .turn first _, goals, native =>
      front?_ofGoal first goals fun mem => native (List.mem_append_left _ mem)

theorem native_iff_foreign_notMem {tasks : List Task} {pendings : List Pending}
    (same : tasks.map Task.pending = pendings) : Native tasks ↔ Pending.foreign ∉ pendings := by
  rw [← same, List.mem_map, not_exists]
  exact forall_congr' fun task => not_and.symm

/-- What comes from working through tasks of goals comes from goals. -/
theorem Stream.ofGoal_of_simulates {x : Engine Stream} {s : Stream} {tasks : List Task}
    {doomed : Prop} (simulates : Simulates program (outlook []) x tasks doomed)
    (native : Native tasks) (returned : Returns x s) : s.OfGoal := by
  rcases returned with ⟨before, after, ran⟩
  rcases simulates before s after ran with ⟨_, next, evolves, _, same, _⟩
  exact (native_iff_foreign_notMem same).mp (evolves.native native)

theorem Goal.apply_ofGoal {g : Goal} {ctx : Context} {s : Stream}
    (returned : Returns (g.apply ctx) s) : s.OfGoal := by
  have native : Native [⟨[], .goals ctx [g]⟩] := List.forall_mem_singleton.mpr nofun
  have simulates : Simulates ⟨[], 0⟩ (Stream.outlook []) (g.apply ctx)
      [⟨[], .goals ctx [g]⟩] False := applyWithin_simulates _ g ctx [] []
  exact Stream.ofGoal_of_simulates simulates native returned

theorem Stream.OfGoal.force {work : Work} (ofGoal : (Stream.suspended work).OfGoal) {s : Stream}
    (returned : Returns (work.force program) s) : s.OfGoal := by
  have same : ((work.pendings []).map (Task.mk [])).map Task.pending = work.pendings [] := by
    rw [List.map_map]
    exact List.map_id _
  have native := (native_iff_foreign_notMem same).mpr ofGoal
  exact ofGoal_of_simulates (work.force_simulates [] _ native same) native returned

/-! ## Moves and what they executed -/

/-- The move executed nothing, or it forced one suspension, which came from a goal. -/
def Frugal (turn : Move × List Suspension) : Prop :=
  turn.2 = [] ∨
    ∃ next suspension, turn = (.forced next, [suspension]) ∧ suspension.OfGoal

/-- What is left after a move, if the stream goes on. -/
def Move.rest? : Move → Option Stream
  | .yield _ rest => some rest
  | .forced next => some next
  | .done | .fault _ => none

/-- A step of a stream that comes from a goal. -/
theorem Stream.OfGoal.step {s : Stream} (ofGoal : s.OfGoal) {move : Move}
    (returned : Returns (s.step program) move) :
    Frugal (move, s.front?.toList) ∧ ∀ rest ∈ move.rest?, rest.OfGoal := by
  rcases returned with ⟨before, after, ran⟩
  cases s with
  | empty =>
      rcases runs_pure.mp ran with ⟨rfl, rfl⟩
      exact ⟨.inl rfl, nofun⟩
  | aborted fault =>
      rcases runs_pure.mp ran with ⟨rfl, rfl⟩
      exact ⟨.inl rfl, nofun⟩
  | ready ctx rest =>
      rcases runs_pure.mp ran with ⟨rfl, rfl⟩
      refine ⟨.inl rfl, ?_⟩
      rintro _ ⟨⟩
      exact fun mem => ofGoal (List.mem_cons_of_mem _ mem)
  | suspended work =>
      rcases runs_map.mp ran with ⟨next, forces, rfl⟩
      constructor
      · cases reached : work.front? with
        | none => exact .inl (congrArg Option.toList reached)
        | some suspension =>
            have same : (Stream.suspended work).front?.toList = [suspension] :=
              congrArg Option.toList reached
            rw [same]
            exact .inr ⟨next, suspension, rfl, work.front?_ofGoal [] ofGoal suspension reached⟩
      · rintro _ ⟨⟩
        exact ofGoal.force forces.returns

/-- The first moves of a stream, each with what it executed. -/
def Stream.tracedMoves (program : Program) :
    Nat → Stream → Traced (List (Move × List Suspension))
  | 0, _ => pure []
  | count + 1, s => do
      let turn ← during (s.tracedStep program)
      match turn.1 with
      | .yield _ rest => (turn :: ·) <$> rest.tracedMoves program count
      | .forced next => (turn :: ·) <$> next.tracedMoves program count
      | _ => pure [turn]

/-- Apply the goal to the context, and make moves. -/
def Goal.tracedSearch (program : Program) (count : Nat) (g : Goal) (ctx : Context) :
    Traced (List (Move × List Suspension)) := do
  let s ← g.traced ctx
  s.tracedMoves program count

/-- The same moves are made, all that was executed was executed by one of them, and no move
executed more than one suspension. -/
def Itemizes (turns : Traced (List (Move × List Suspension))) (moves : Engine (List Move)) :
    Prop :=
  ∀ before earlier, ∃ outcome executed,
    turns.run.run (before, earlier) = (outcome, (moves.run.run before).2, earlier ++ executed) ∧
    (moves.run.run before).1 = outcome.map (List.map Prod.fst) ∧
    ∀ items, outcome = .ok items →
      executed = items.flatMap Prod.snd ∧ ∀ turn ∈ items, Frugal turn

namespace Itemizes

theorem nil : Itemizes (pure []) (pure []) := by
  intro before earlier
  refine ⟨.ok [], [], by rw [List.append_nil]; rfl, rfl, ?_⟩
  rintro _ ⟨⟩
  exact ⟨rfl, nofun⟩

/-- Something is done beforehand that executes nothing. -/
theorem after {α : Type} {x : Engine α} {f : α → Traced (List (Move × List Suspension))}
    {g : α → Engine (List Move)} (goesOn : ∀ a, Returns x a → Itemizes (f a) (g a)) :
    Itemizes (quietly x >>= f) (x >>= g) := by
  intro before earlier
  rw [Traced.run_bind, run_quietly, Engine.run_bind]
  cases ran : x.run.run before with
  | mk outcome between =>
      cases outcome with
      | error halt => exact ⟨.error halt, [], by rw [List.append_nil], rfl, nofun⟩
      | ok a => exact goesOn a ⟨before, between, ran⟩ between earlier

/-- One move is made before the others, and executes what is recorded first. -/
theorem cons {x : Engine Move} {executed : List Suspension}
    {f : Move → Traced (List (Move × List Suspension))} {g : Move → Engine (List Move)}
    (goesOn : ∀ move, Returns x move → Frugal (move, executed) ∧ Itemizes (f move) (g move)) :
    Itemizes
      (record executed >>= fun _ => quietly x >>= fun move => ((move, executed) :: ·) <$> f move)
      (x >>= fun move => (move :: ·) <$> g move) := by
  intro before earlier
  rw [run_record_bind, Traced.run_bind, run_quietly, Engine.run_bind]
  cases ran : x.run.run before with
  | mk outcome between =>
      cases outcome with
      | error halt => exact ⟨.error halt, executed, rfl, rfl, nofun⟩
      | ok move =>
          rcases goesOn move ⟨before, between, ran⟩ with ⟨frugal, itemizes⟩
          rcases itemizes between (earlier ++ executed) with
            ⟨outcome, later, runs, same, listed⟩
          refine ⟨outcome.map ((move, executed) :: ·), executed ++ later, ?_, ?_, ?_⟩
          · dsimp only
            rw [Traced.run_map, runs, Engine.run_map, List.append_assoc]
          · dsimp only
            rw [Engine.run_map, same]
            cases outcome <;> rfl
          · intro items found
            cases outcome with
            | error halt => cases found
            | ok rest =>
                cases found
                rcases listed rest rfl with ⟨rfl, frugals⟩
                exact ⟨rfl, List.forall_mem_cons.mpr ⟨frugal, frugals⟩⟩

end Itemizes

namespace Stream

theorem moves_succ (program : Program) (count : Nat) (s : Stream) :
    s.moves program (count + 1) = s.step program >>= fun move =>
      (move :: ·) <$> move.rest?.elim (pure []) (moves program count) := by
  rw [moves]
  exact bind_congr fun move => by cases move <;> rfl

theorem tracedMoves_succ (program : Program) (count : Nat) (s : Stream) :
    s.tracedMoves program (count + 1) =
      record s.front?.toList >>= fun _ => quietly (s.step program) >>= fun move =>
        ((move, s.front?.toList) :: ·) <$>
          move.rest?.elim (pure []) (tracedMoves program count) := by
  rw [tracedMoves, tracedStep_eq, during_record_bind, bind_assoc]
  apply bind_congr
  intro _
  rw [map_eq_pure_bind, bind_assoc]
  exact bind_congr fun move => by cases move <;> rfl

/-- From a stream that comes from a goal only such streams are reached, and every step
executes the suspension at the front. -/
theorem OfGoal.itemizes (count : Nat) {s : Stream} (ofGoal : s.OfGoal) :
    Itemizes (s.tracedMoves program count) (s.moves program count) := by
  induction count generalizing s with
  | zero => exact .nil
  | succ count ih =>
      rw [moves_succ, tracedMoves_succ]
      apply Itemizes.cons
      intro move returned
      rcases ofGoal.step returned with ⟨frugal, later⟩
      refine ⟨frugal, ?_⟩
      cases left : move.rest? with
      | none => exact .nil
      | some rest => exact ih (later rest left)

end Stream

/-- One step executes at most one suspension.  Applying a goal, also one that is planned,
feeding a stream into it and putting a stream after another execute none; taking turns is a
function of the streams alone.  In every search the moves that are forced execute at most
one suspension each, and the others none. -/
theorem Goal.search_executes (program : Program) (g : Goal) (ctx : Context) (count : Nat) :
    (g.traced ctx).Traces (g.apply ctx) 0 ∧
      (∀ s : Stream,
        (s.tracedBind g).Traces (s.bind g) 0 ∧
        (∀ next, (s.tracedAndThen next).Traces (s.andThen next) 0) ∧
        (s.tracedStep program).Traces (s.step program) 1) ∧
      Itemizes (g.tracedSearch program count ctx) (g.search program count ctx) := by
  refine ⟨?_, fun s => ⟨?_, fun next => ?_, ?_⟩, ?_⟩
  · rw [g.traced_eq]
    exact traces_quietly _
  · rw [s.tracedBind_eq]
    exact traces_quietly _
  · rw [s.tracedAndThen_eq]
    exact traces_quietly _
  · rw [s.tracedStep_eq]
    exact traces_record_bind s.length_front? _
  · rw [tracedSearch, search, g.traced_eq]
    exact .after fun s returned => (apply_ofGoal returned).itemizes count

end RelationalSolver
