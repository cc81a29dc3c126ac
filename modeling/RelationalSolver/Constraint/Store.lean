import RelationalSolver.Goal.Basic

/-!
# The store of pending constraints

Constraints are kept under ids in the order of their insertion.  Two indexes,
each the inverse of the other, say which constraints wait for a variable and
which variables a constraint waits for.
-/

namespace RelationalSolver

/-- Pending constraints and what they wait for. -/
structure ConstraintStore where
  /-- The id of the next constraint. -/
  nextId : Nat
  entries : Std.TreeMap Nat Constraint
  /-- The ids waiting for a variable, in increasing order. -/
  byVar : Std.TreeMap Var (List Nat)
  /-- The variables that an id waits for. -/
  indexed : Std.TreeMap Nat (List Var)

namespace ConstraintStore

/-- The store without constraints. -/
def empty : ConstraintStore := ⟨0, ∅, ∅, ∅⟩

instance : Inhabited ConstraintStore := ⟨empty⟩

/-- Number of pending constraints. -/
def size (store : ConstraintStore) : Nat := store.entries.size

/-- The constraint kept under an id. -/
def get? (store : ConstraintStore) (id : Nat) : Option Constraint := store.entries[id]?

/-- The pending constraints in insertion order. -/
def toList (store : ConstraintStore) : List (Nat × Constraint) := store.entries.toList

/-- The ids waiting for a variable. -/
def idsFor (store : ConstraintStore) (v : Var) : List Nat := (store.byVar[v]?).getD []

/-- The variables that an id waits for. -/
def varsFor (store : ConstraintStore) (id : Nat) : List Var := (store.indexed[id]?).getD []

/-- Number of variables that some constraint waits for. -/
def indexedVars (store : ConstraintStore) : Nat := store.byVar.size

/-- Put an id into an increasing list. -/
def insertId (id : Nat) : List Nat → List Nat
  | [] => [id]
  | other :: ids =>
      if id < other then id :: other :: ids
      else if id = other then other :: ids
      else other :: insertId id ids

/-- Let an id wait for one more variable.  Nothing waits for the wildcard. -/
def indexVar (id : Nat) (store : ConstraintStore) (v : Var) : ConstraintStore :=
  if v = .wildcard then store
  else
    { store with
      byVar := store.byVar.insert v (insertId id (store.idsFor v))
      indexed := store.indexed.insert id (appendNew (store.varsFor id) v) }

/-- Let an id wait for more variables. -/
def indexUnder (store : ConstraintStore) (id : Nat) (vars : List Var) : ConstraintStore :=
  vars.foldl (indexVar id)
    { store with indexed := store.indexed.insert id (store.varsFor id) }

/-- Add a constraint that waits for the variables, under a new id. -/
def insert (store : ConstraintStore) (c : Constraint) (vars : List Var) :
    ConstraintStore × Nat :=
  let id := store.nextId
  let store := { store with nextId := id + 1, entries := store.entries.insert id c }
  (store.indexUnder id vars, id)

/-- Put another constraint in the place of one, and let it wait for more
variables. -/
def replace (store : ConstraintStore) (id : Nat) (c : Constraint) (vars : List Var) :
    ConstraintStore :=
  let store := { store with entries := store.entries.insert id c }
  store.indexUnder id vars

/-- No longer let an id wait for a variable.  A variable that nothing waits for
leaves the index. -/
def forgetVar (id : Nat) (byVar : Std.TreeMap Var (List Nat)) (v : Var) :
    Std.TreeMap Var (List Nat) :=
  let ids := ((byVar[v]?).getD []).filter (· ≠ id)
  if ids.isEmpty then byVar.erase v else byVar.insert v ids

/-- Drop a constraint and what it waits for. -/
def remove (store : ConstraintStore) (id : Nat) : ConstraintStore where
  nextId := store.nextId
  entries := store.entries.erase id
  byVar := (store.varsFor id).foldl (forgetVar id) store.byVar
  indexed := store.indexed.erase id

/-- The names of the pending constraints. -/
def names (store : ConstraintStore) : List String := store.toList.map fun (_, c) => c.name

end ConstraintStore

end RelationalSolver
