import RelationalSolver.Hook.Registry
import RelationalSolver.Session.Notice
import RelationalSolver.Session.Solution
import RelationalSolver.Session.Statistics

/-!
# Sessions

Branches of a search do not see each other, but they share one session: the
numbering of variables, what observers received, the log, and the results of
runs.  The engine is the monad of computations in a session.  What a session
has received stays received when a computation stops short.
-/

namespace RelationalSolver

/-- An event as a recording observer received it. -/
structure Recorded where
  recorder : Nat
  key : EventKey
  payload : Payload
  /-- Bindings that the branch had made. -/
  bindings : Nat

/-- How many events of each kind were received. -/
structure Tally where
  fresh : Nat
  bindings : Nat
  condensed : Nat
  violations : Nat
  rowsSucceeded : Nat
  rowsFailed : Nat
  queriesStarted : Nat
  solutions : Nat
  queriesEnded : Nat
  /-- Events under keys that the solver does not fire. -/
  other : Nat
deriving Inhabited

namespace Tally

/-- Nothing received yet. -/
def zero : Tally := ⟨0, 0, 0, 0, 0, 0, 0, 0, 0, 0⟩

/-- Count one event by its exact key. -/
def count (t : Tally) (key : EventKey) : Tally :=
  if key = .varsFresh then { t with fresh := t.fresh + 1 }
  else if key = .bound then { t with bindings := t.bindings + 1 }
  else if key = .condensed then { t with condensed := t.condensed + 1 }
  else if key = .violated then { t with violations := t.violations + 1 }
  else if key = .rowSucceeded then { t with rowsSucceeded := t.rowsSucceeded + 1 }
  else if key = .rowFailed then { t with rowsFailed := t.rowsFailed + 1 }
  else if key = .queryStarted then { t with queriesStarted := t.queriesStarted + 1 }
  else if key = .querySolution then { t with solutions := t.solutions + 1 }
  else if key = .queryEnded then { t with queriesEnded := t.queriesEnded + 1 }
  else { t with other := t.other + 1 }

/-- The counts, kind by kind. -/
def toList (t : Tally) : List Nat :=
  [t.fresh, t.bindings, t.condensed, t.violations, t.rowsSucceeded, t.rowsFailed,
    t.queriesStarted, t.solutions, t.queriesEnded, t.other]

end Tally

/-- What the branches of a search share. -/
structure Session where
  /-- The ordinal of the next new variable. -/
  nextOrdinal : Nat
  recorded : Array Recorded
  tallies : List Tally
  log : Array Notice
  /-- Of the most recent run. -/
  statistics : Statistics
  /-- The last solution that any run yielded. -/
  latest : Option Solution
deriving Inhabited

/-- Why nobody could handle what went wrong. -/
inductive Crash where
  /-- A facet collided in an operation that cannot report it. -/
  | collision (c : Collision)
  /-- The body of a suspended goal applies a relation wrongly. -/
  | arity (e : ArityMismatch)
  | undefinedCall (name : String)
deriving DecidableEq

/-- Why a computation stopped short. -/
inductive Halt where
  /-- A facet collided, and the caller can handle it. -/
  | collision (c : Collision)
  | crash (cause : Crash)
  /-- The computation has no end. -/
  | unending
deriving DecidableEq

/-- What is wrong, in the way that the caller tells facets apart. -/
def Crash.message (label : FacetKey → String) : Crash → String
  | .collision c => c.message label
  | .arity e => e.message
  | .undefinedCall name => "No definition is called `" ++ name ++ "`"

/-- Computations in a session. -/
abbrev Engine := ExceptT Halt (StateM Session)

namespace Session

/-- A session in which some ordinals are in use and some tallies are kept. -/
def start (ordinalsInUse tallies : Nat) : Session where
  nextOrdinal := ordinalsInUse + 1
  recorded := #[]
  tallies := List.replicate tallies .zero
  log := #[]
  statistics := .zero
  latest := none

/-- Run a computation in a session, and tell what recorders received meanwhile. -/
def perform {α : Type} (s : Session) (computation : Engine α) :
    Except Halt α × Session × List Recorded :=
  let (outcome, after) := computation.run.run s
  (outcome, after, after.recorded.toList.drop s.recorded.size)

/-- Write a notice. -/
def write (s : Session) (notice : Notice) : Session := { s with log := s.log.push notice }

/-- Take notice of what an observer receives. -/
def receive (s : Session) (key : EventKey) (payload : Payload) (bindings : Nat) :
    Observer → Session
  | .recorder number => { s with recorded := s.recorded.push ⟨number, key, payload, bindings⟩ }
  | .tally number => { s with tallies := s.tallies.modify number (·.count key) }
  | .logger label => s.write (.observed label key payload)

/-- The notices of a log that goes down to a level, in order. -/
def noticesTo (s : Session) (level : LogLevel) : List Notice :=
  s.log.toList.filter fun notice => level.includes notice.level

/-- Set every tally back to zero. -/
def resetTallies (s : Session) : Session := { s with tallies := s.tallies.map fun _ => .zero }

end Session

namespace Engine

/-- Stop on an error that nobody handles. -/
def crash {α : Type} (cause : Crash) : Engine α := throw (.crash cause)

/-- A computation that may have no end. -/
def ofBounded {α : Type} : Except Unending α → Engine α
  | .ok a => pure a
  | .error _ => throw .unending

/-- Report a collision to the caller. -/
def ofCollision {α : Type} : Except Collision α → Engine α
  | .ok a => pure a
  | .error c => throw (.collision c)

/-- Stop on a collision, since there is no caller to report it to. -/
def orCrash {α : Type} : Except Collision α → Engine α
  | .ok a => pure a
  | .error c => crash (.collision c)

/-- Handle a collision that a computation reports. -/
def attempt {α : Type} (computation : Engine α) : Engine (Except Collision α) := do
  try
    let a ← computation
    pure (.ok a)
  catch
    | .collision c => pure (.error c)
    | halt => throw halt

/-- Stop on a collision that a computation reports. -/
def insist {α : Type} (computation : Engine α) : Engine α := do
  match ← attempt computation with
  | .ok a => pure a
  | .error c => crash (.collision c)

/-- Write a notice into the log. -/
def notify (notice : Notice) : Engine Unit := modify (·.write notice)

/-- Introduce new variables. -/
def freshVars (count : Nat) : Engine (List Var) := do
  let first := (← get).nextOrdinal
  modify fun s => { s with nextOrdinal := first + count }
  pure ((List.range count).map fun i => .numbered (first + i))

/-- Deliver an event to those who are subscribed to it. -/
def fire (registry : Registry) (key : EventKey) (payload : Payload) (bindings : Nat) :
    Engine Unit :=
  modify fun s => (registry.receivers key).foldl (·.receive key payload bindings ·) s

end Engine

end RelationalSolver
