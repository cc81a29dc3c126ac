import RelationalSolver.Query.Basic

/-!
# Runs of a query

A run pulls the stream of the goal and reports every context it yields as a
solution.  Before every move the termination is asked.  A run that is exhausted,
terminated, faulty or given up ends once: its statistics are kept and its end is
announced.
-/

namespace RelationalSolver

/-- One run of a query. -/
structure Run where
  /-- What is left to search; nothing once the run has ended. -/
  stream : Option Stream
  scope : SearchScope
  terminatedEarly : Bool
deriving Inhabited

namespace Query

/-- Report a context as a solution. -/
def solution (q : Query) (ctx : Context) (index : Nat) : Solution where
  index := index
  bindings := q.projection.map fun v => (v, ctx.resolve (.var v))
  bindingsMade := ctx.bindingsMade

/-- A bound on the number of answers, found without running the goal. -/
def sizeHint (q : Query) : Except Unending SizeBound := q.goal.bound q.root.substitution

end Query

namespace Run

/-- Start a run. -/
def start (q : Query) : Engine Run := do
  Engine.notify (.queryStarted q.projection.length q.goal.name)
  q.root.fire .queryStarted .nothing
  let stream ← q.goal.apply q.root
  pure ⟨some stream, .start, false⟩

/-- The termination of the query says that the run is to stop. -/
def isTerminated (q : Query) (run : Run) : Bool :=
  (q.termination.map (·.reached run.scope)).getD false

/-- End a run, if it has not ended before. -/
def finish (q : Query) (run : Run) : Engine Run := do
  if run.stream.isNone then pure run
  else
    let statistics : Statistics :=
      ⟨run.scope.elapsed, run.scope.steps, run.scope.solutions, run.terminatedEarly⟩
    modify fun s => { s with statistics := statistics }
    q.root.fire .queryEnded (.lifecycle statistics.steps statistics.solutions)
    Engine.notify (.queryEnded statistics.steps statistics.solutions statistics.terminatedEarly)
    pure { run with stream := none }

/-- What a pull gave. -/
abbrev Pulled := Option (Except SolverError Solution)

/-- Pull the next solution with at most so many moves of the stream.  The run is
handed back also if the stream breaks down; it has lost its stream then. -/
def next (program : Program) (q : Query) : Nat → Run → Engine (Run × Pulled)
  | 0, _ => throw .unending
  | moves + 1, run => do
      if run.isTerminated q then
        let run ←
          if run.stream.isSome then do
            Engine.notify (.terminated run.scope.steps run.scope.solutions)
            pure { run with terminatedEarly := true }
          else pure run
        return (← run.finish q, none)
      match run.stream with
      | none => return (run, none)
      | some stream =>
          match ← stream.step program with
          | .done => return (← { run with stream := some .empty }.finish q, none)
          | .yield ctx rest =>
              let index := run.scope.solutions
              let solution := q.solution ctx index
              ctx.fire .querySolution (.solution index)
              modify fun s => { s with latest := some solution }
              return (⟨some rest, run.scope.recordSolution, run.terminatedEarly⟩,
                some (.ok solution))
          | .forced rest =>
              next program q moves ⟨some rest, run.scope.recordStep, run.terminatedEarly⟩
          | .fault fault =>
              return (← { run with stream := some .empty }.finish q,
                some (.error (.invariant fault)))

/-- What up to so many pulls give, each with at most so many moves, until one
gives nothing. -/
def pulls (program : Program) (q : Query) (moves : Nat) :
    Nat → Run → Engine (Run × List (Except SolverError Solution))
  | 0, run => pure (run, [])
  | count + 1, run => do
      match ← run.next program q moves with
      | (run, none) => pure (run, [])
      | (run, some pulled) => do
          let (run, later) ← pulls program q moves count run
          pure (run, pulled :: later)

/-- Pull until a pull gives nothing, with at most so many moves for each of at
most so many pulls. -/
def pullAll (program : Program) (q : Query) (moves : Nat) :
    Nat → Run → Engine (Run × List (Except SolverError Solution))
  | 0, _ => throw .unending
  | count + 1, run => do
      match ← run.next program q moves with
      | (run, none) => pure (run, [])
      | (run, some pulled) => do
          let (run, later) ← pullAll program q moves count run
          pure (run, pulled :: later)

end Run

namespace Query

/-- What up to so many pulls of a new run give.  The run is given up afterwards. -/
def pulls (program : Program) (q : Query) (moves count : Nat) :
    Engine (List (Except SolverError Solution)) := do
  let run ← Run.start q
  let (run, pulled) ← run.pulls program q moves count
  discard (run.finish q)
  pure pulled

/-- Up to so many solutions, in stream order, or the error that ended the run. -/
def take (program : Program) (q : Query) (moves count : Nat) :
    Engine (Except SolverError (List Solution)) := do
  pure ((← q.pulls program moves count).mapM id)

/-- The first solution, if any. -/
def first (program : Program) (q : Query) (moves : Nat) :
    Engine (Except SolverError (Option Solution)) := do
  pure ((← q.take program moves 1).map (·.head?))

/-- All solutions, or the error that ended the run. -/
def all (program : Program) (q : Query) (moves : Nat) :
    Engine (Except SolverError (List Solution)) := do
  let run ← Run.start q
  let (_, pulled) ← run.pullAll program q moves moves
  pure (pulled.mapM id)

/-- Run to exhaustion and count the solutions. -/
def count (program : Program) (q : Query) (moves : Nat) : Engine (Except SolverError Nat) := do
  pure ((← q.all program moves).map (·.length))

end Query

/-- Build a query and collect all its solutions. -/
def QuerySetup.solve (setup : QuerySetup) (entropy : UInt64) (program : Program) (moves : Nat) :
    Engine (Except SolverError (List Solution)) := do
  match ← setup.build entropy with
  | .error e => pure (.error e)
  | .ok q => q.all program moves

end RelationalSolver
