import RelationalSolver.Term.Basic

/-!
# Events

An event is fired under a hierarchical key and carries a payload.  Whoever
subscribes to a key also receives the events of every key below it.
-/

namespace RelationalSolver

/-- A path of names from the general to the special. -/
abbrev EventKey := List String

namespace EventKey

/-- New variables were introduced. -/
def varsFresh : EventKey := ["vars", "fresh"]

/-- A variable was bound. -/
def bound : EventKey := ["subst", "bind"]

/-- A chain of variables was bound straight to its value. -/
def condensed : EventKey := ["subst", "condense"]

/-- A constraint failed a branch. -/
def violated : EventKey := ["constraint", "violated"]

/-- Everything about rows of relations. -/
def rows : EventKey := ["relation", "row"]

/-- A row unified with the arguments of a relation. -/
def rowSucceeded : EventKey := ["relation", "row", "succeeded"]

/-- A row was tried and rejected. -/
def rowFailed : EventKey := ["relation", "row", "failed"]

/-- A run of a query started. -/
def queryStarted : EventKey := ["query", "started"]

/-- A run yielded a solution. -/
def querySolution : EventKey := ["query", "solution"]

/-- A run ended. -/
def queryEnded : EventKey := ["query", "ended"]

/-- The names of the path with dots between them. -/
def dotted (key : EventKey) : String := ".".intercalate key

end EventKey

/-- What an event carries. -/
inductive Payload where
  | fresh (vars : List Var)
  | bind (v : Var) (t : Term)
  | condense (value : Term) (chain : List Var)
  | violation (v : Var) (constraint : String)
  | row (relation : String) (index total : Nat)
  | solution (index : Nat)
  | lifecycle (steps solutions : Nat)
  | nothing
deriving Inhabited

end RelationalSolver
