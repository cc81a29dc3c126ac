import RelationalSolver.Constraint.Store
import RelationalSolver.Hook.Registry
import RelationalSolver.Planning.Pipeline

/-!
# Contexts as maps of facets

A context is everything that one branch of a search knows.  Each piece is a
facet: a key with a value of the type that belongs to the key.  A context holds
at most one facet of a name, and contexts are values: setting a facet leaves the
other branches alone.
-/

namespace RelationalSolver

/-- Named counters of a branch. -/
abbrev Counters := Std.TreeMap String Nat

/-- The type of the values of a facet. -/
@[reducible] def FacetKey.Value : FacetKey → Type
  | .substitutions => Substitution
  | .unification => OccursCheck
  | .hooks => Registry
  | .counters => Counters
  | .constraints => ConstraintStore
  | .planner => Pipeline
  | .custom _ => Int

/-- The value of a facet that is not set. -/
def FacetKey.initial : (key : FacetKey) → key.Value
  | .substitutions => .empty
  | .unification => .disabled
  | .hooks => .empty
  | .counters => ∅
  | .constraints => .empty
  | .planner => []
  | .custom _ => 0

/-- A key with its value. -/
structure Facet where
  key : FacetKey
  value : key.Value

/-- The facets that one branch of a search carries. -/
structure Context where
  facets : List Facet

namespace Context

/-- The context without facets. -/
def empty : Context := ⟨[]⟩

instance : Inhabited Context := ⟨empty⟩

/-- The value of the first facet with a key. -/
def lookupIn (key : FacetKey) : List Facet → Option key.Value
  | [] => none
  | facet :: facets =>
      if same : facet.key = key then some (same ▸ facet.value) else lookupIn key facets

/-- The value of a facet, if it is set. -/
def get? (ctx : Context) (key : FacetKey) : Option key.Value := lookupIn key ctx.facets

/-- The value of a facet, or its initial value. -/
def get (ctx : Context) (key : FacetKey) : key.Value := (ctx.get? key).getD key.initial

/-- The facet is set. -/
def contains (ctx : Context) (key : FacetKey) : Bool := ctx.facets.any (·.key = key)

/-- Put a value in the place of the one with the same key, or at the end. -/
def putIn (facet : Facet) : List Facet → List Facet
  | [] => [facet]
  | other :: facets =>
      if other.key = facet.key then facet :: facets else other :: putIn facet facets

/-- Set a facet, unless another one holds its name. -/
def trySet (ctx : Context) (key : FacetKey) (value : key.Value) : Except Collision Context :=
  match ctx.facets.find? (·.key.name = key.name) with
  | some holder =>
      if holder.key = key then pure ⟨putIn ⟨key, value⟩ ctx.facets⟩
      else throw ⟨holder.key, key⟩
  | none => pure ⟨putIn ⟨key, value⟩ ctx.facets⟩

/-- Set a facet to a function of its value. -/
def tryUpdate (ctx : Context) (key : FacetKey) (change : key.Value → key.Value) :
    Except Collision Context :=
  ctx.trySet key (change (ctx.get key))

/-- Take a facet away.  Nothing happens if it is not set. -/
def remove (ctx : Context) (key : FacetKey) : Context :=
  ⟨ctx.facets.filter (·.key ≠ key)⟩

/-- Number of facets set. -/
def size (ctx : Context) : Nat := ctx.facets.length

/-- The names of the facets set, sorted. -/
def names (ctx : Context) : List String :=
  (ctx.facets.map (·.key.name)).mergeSort fun a b => (compare a b).isLE

@[simp] theorem lookupIn_putIn_self (facet : Facet) : ∀ facets : List Facet,
    lookupIn facet.key (putIn facet facets) = some facet.value
  | [] => by simp [putIn, lookupIn]
  | other :: facets => by
      unfold putIn
      split
      · simp [lookupIn]
      · rename_i different
        simp [lookupIn, different, lookupIn_putIn_self facet facets]

theorem lookupIn_putIn_of_ne {facet : Facet} {key : FacetKey} (different : facet.key ≠ key) :
    ∀ facets : List Facet, lookupIn key (putIn facet facets) = lookupIn key facets
  | [] => by simp [putIn, lookupIn, different]
  | other :: facets => by
      unfold putIn
      split
      · rename_i same
        have : other.key ≠ key := same ▸ different
        simp [lookupIn, different, this]
      · simp only [lookupIn, lookupIn_putIn_of_ne different facets]

theorem eq_of_trySet {ctx next : Context} {key : FacetKey} {value : key.Value}
    (success : ctx.trySet key value = .ok next) :
    next = ⟨putIn ⟨key, value⟩ ctx.facets⟩ := by
  unfold trySet at success
  split at success
  · split at success
    · exact (Except.ok.inj success).symm
    · cases success
  · exact (Except.ok.inj success).symm

/-- What was set is what is found. -/
theorem get?_of_trySet {ctx next : Context} {key : FacetKey} {value : key.Value}
    (success : ctx.trySet key value = .ok next) : next.get? key = some value := by
  rw [eq_of_trySet success]
  exact lookupIn_putIn_self ⟨key, value⟩ ctx.facets

/-- Setting one facet leaves the others alone. -/
theorem get?_of_trySet_of_ne {ctx next : Context} {key other : FacetKey} {value : key.Value}
    (success : ctx.trySet key value = .ok next) (different : key ≠ other) :
    next.get? other = ctx.get? other := by
  rw [eq_of_trySet success]
  exact lookupIn_putIn_of_ne different ctx.facets

/-! ## The facets of the solver -/

/-- The bindings of the branch. -/
def substitution (ctx : Context) : Substitution := ctx.get .substitutions

/-- Whether a variable may be bound to a term that contains it. -/
def occursCheck (ctx : Context) : OccursCheck := ctx.get .unification

/-- The hooks of the query, if there are any. -/
def hooks? (ctx : Context) : Option Registry := ctx.get? .hooks

/-- The value of a counter, zero if it was never bumped. -/
def counter (ctx : Context) (name : String) : Nat := (ctx.get .counters)[name]?.getD 0

/-- Bindings that the branch has made. -/
def bindingsMade (ctx : Context) : Nat := ctx.counter "bindings"

/-- Resolve the top level of a term. -/
def walk (ctx : Context) (t : Term) : Term := ctx.substitution.walk t

/-- Put bindings in the place of bound variables at every depth. -/
def resolve (ctx : Context) (t : Term) : Term := ctx.substitution.resolve t

/-- The unbound variables that a term reaches. -/
def freeVars (ctx : Context) (t : Term) : List Var := ctx.substitution.freeVars t

/-- What planning looks at. -/
def planningState (ctx : Context) : PlanningState := ⟨ctx.substitution, ctx.bindingsMade⟩

end Context

end RelationalSolver
