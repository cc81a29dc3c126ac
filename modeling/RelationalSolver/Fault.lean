/-!
# Facet names, collisions and faults

A context holds facets.  Each has a name, and a context holds at most one facet
of a name: two different facets that share a name collide.  A fault is an
invariant violation that ends a search.
-/

namespace RelationalSolver

/-- A facet declared by a user of the solver.  Facets of one name are different
if their types are. -/
structure CustomFacet where
  name : String
  typeName : String
deriving DecidableEq, Inhabited

/-- The facets of the solver, and those of its users. -/
inductive FacetKey where
  | substitutions
  | unification
  | hooks
  | counters
  | constraints
  | planner
  | custom (facet : CustomFacet)
deriving DecidableEq, Inhabited

/-- The name under which a facet is registered. -/
def FacetKey.name : FacetKey → String
  | .substitutions => "substitutions"
  | .unification => "unification"
  | .hooks => "hooks"
  | .counters => "counters"
  | .constraints => "constraints"
  | .planner => "planner"
  | .custom facet => facet.name

/-- A facet was to be set while another one holds its name. -/
structure Collision where
  existing : FacetKey
  incoming : FacetKey
deriving DecidableEq

/-- Names both facets in the way that the caller tells facets apart. -/
def Collision.message (label : FacetKey → String) (c : Collision) : String :=
  "Facet key collision: `" ++ c.incoming.name ++ "` is registered by " ++
    label c.existing ++ " and " ++ label c.incoming

/-- A fatal violation of an invariant, which ends a search. -/
inductive Fault where
  | raised (subject message : String)
  | facetCollision (collision : Collision)
  /-- A source produced a row that has not one column for every argument. -/
  | rowLength (relation : String) (row found expected : Nat)
deriving DecidableEq

/-- What is at fault. -/
def Fault.subject : Fault → String
  | .raised subject _ => subject
  | .facetCollision c => "facet `" ++ c.incoming.name ++ "`"
  | .rowLength relation _ _ _ => "relation `" ++ relation ++ "`"

/-- What is wrong with it. -/
def Fault.message (label : FacetKey → String) : Fault → String
  | .raised _ message => message
  | .facetCollision c => c.message label
  | .rowLength _ row found expected => s!"row {row} has {found} columns, expected {expected}"

/-- Subject and message. -/
def Fault.text (label : FacetKey → String) (fault : Fault) : String :=
  fault.subject ++ ": " ++ fault.message label

end RelationalSolver
