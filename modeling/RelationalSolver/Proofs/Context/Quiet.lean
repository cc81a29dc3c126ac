import RelationalSolver.Context.Unification
import RelationalSolver.Proofs.Unification.Lawful

/-!
# Quiet contexts

In a context without hooks, and without facets of a user that hold names of the
solver, setting the facets of the solver cannot go wrong and nothing is reported.
-/

namespace RelationalSolver

instance : Unbounded Engine where
  unending := throw .unending
  unending_bind _ := rfl

/-- The facet is not one of a user. -/
def FacetKey.isNative : FacetKey → Bool
  | .custom _ => false
  | _ => true

theorem FacetKey.eq_of_name_eq {key other : FacetKey} (native : key.isNative = true)
    (otherNative : other.isNative = true) (same : key.name = other.name) : key = other := by
  cases key <;> cases other <;> simp_all [isNative, name]

namespace Context

variable {ctx : Context} {key other : FacetKey} {value : key.Value}

/-- No facet of a user holds a name of the solver. -/
def Clear (ctx : Context) : Prop :=
  ∀ facet ∈ ctx.facets, ∀ key : FacetKey, key.isNative = true →
    facet.key.name = key.name → facet.key = key

/-- Put a value in the place of the facet. -/
def put (ctx : Context) (key : FacetKey) (value : key.Value) : Context :=
  ⟨putIn ⟨key, value⟩ ctx.facets⟩

@[simp] theorem get?_put_self : (ctx.put key value).get? key = some value :=
  lookupIn_putIn_self ⟨key, value⟩ ctx.facets

theorem get?_put_of_ne (different : key ≠ other) :
    (ctx.put key value).get? other = ctx.get? other :=
  lookupIn_putIn_of_ne different ctx.facets

@[simp] theorem get_put_self : (ctx.put key value).get key = value := by
  rw [get, get?_put_self, Option.getD_some]

theorem get_put_of_ne (different : key ≠ other) :
    (ctx.put key value).get other = ctx.get other := by
  rw [get, get?_put_of_ne different, get]

theorem eq_or_mem_of_mem_putIn {new facet : Facet} : ∀ {facets : List Facet},
    facet ∈ putIn new facets → facet = new ∨ facet ∈ facets
  | [], member => Or.inl (List.mem_singleton.mp member)
  | first :: facets, member => by
      unfold putIn at member
      split at member
      · rcases List.mem_cons.mp member with same | later
        · exact .inl same
        · exact .inr (List.mem_cons_of_mem first later)
      · rcases List.mem_cons.mp member with same | later
        · exact .inr (same ▸ List.mem_cons_self ..)
        · exact (eq_or_mem_of_mem_putIn later).imp_right (List.mem_cons_of_mem first)

theorem Clear.put (clear : ctx.Clear) (native : key.isNative = true) :
    (ctx.put key value).Clear := by
  intro facet member other otherNative sameName
  rcases eq_or_mem_of_mem_putIn member with rfl | before
  · exact FacetKey.eq_of_name_eq native otherNative sameName
  · exact clear facet before other otherNative sameName

theorem Clear.trySet_eq (clear : ctx.Clear) (native : key.isNative = true) :
    ctx.trySet key value = .ok (ctx.put key value) := by
  unfold trySet
  split
  · rename_i holder found
    have member := List.mem_of_find?_eq_some found
    have sameName := List.find?_some found
    rw [decide_eq_true_eq] at sameName
    rw [if_pos (clear holder member key native sameName)]
    rfl
  · rfl

theorem Clear.set_eq (clear : ctx.Clear) (native : key.isNative = true) :
    ctx.set key value = pure (ctx.put key value) := by
  rw [set, clear.trySet_eq native]
  rfl

theorem Clear.bump_eq (clear : ctx.Clear) (name : String) :
    ctx.bump name = pure (ctx.put .counters
      ((ctx.get .counters).insert name (ctx.counter name + 1))) := clear.set_eq rfl

/-- No hooks are there, the occurrence test is made, and names do not collide. -/
structure Quiet (ctx : Context) : Prop where
  unhooked : ctx.hooks? = none
  checked : ctx.occursCheck = .enabled
  clear : ctx.Clear

theorem Quiet.put (quiet : ctx.Quiet) (native : key.isNative = true) (notHooks : key ≠ .hooks)
    (notCheck : key ≠ .unification) : (ctx.put key value).Quiet where
  unhooked := (get?_put_of_ne notHooks).trans quiet.unhooked
  checked := (get_put_of_ne notCheck).trans quiet.checked
  clear := quiet.clear.put native

theorem Quiet.fire_eq (quiet : ctx.Quiet) (event : EventKey) (payload : Payload) :
    ctx.fire event payload = pure () := by
  rw [fire, quiet.unhooked]

theorem walkCondensed_of_unhooked (unhooked : ctx.hooks? = none) (t : Term) :
    ctx.walkCondensed t = pure (ctx, ctx.walk t) := by
  rw [walkCondensed, unhooked]

/-- Without hooks both terms are only walked. -/
theorem condenseThen_of_unhooked (unhooked : ctx.hooks? = none)
    (unify : Context → Term → Term → Engine (Option Context)) (a b : Term) :
    condenseThen unify ctx a b = unify ctx (ctx.walk a) (ctx.walk b) := by
  rw [condenseThen, walkCondensed_of_unhooked unhooked, pure_bind]
  dsimp only
  rw [walkCondensed_of_unhooked unhooked, pure_bind]

theorem Quiet.condenseThen_eq (quiet : ctx.Quiet)
    (unify : Context → Term → Term → Engine (Option Context)) (a b : Term) :
    condenseThen unify ctx a b = unify ctx (ctx.walk a) (ctx.walk b) :=
  condenseThen_of_unhooked quiet.unhooked unify a b

end Context

end RelationalSolver
