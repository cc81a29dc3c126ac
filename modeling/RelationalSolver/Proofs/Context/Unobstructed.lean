import Mathlib.Data.List.Nodup
import RelationalSolver.Proofs.Context.Quiet
import RelationalSolver.Proofs.Session.Engine

/-!
# Unobstructed contexts

Counters and constraints are written without a way to report a collision.  In a context
where no other facet holds their names, and no bind hook sets such a facet, this cannot
go wrong, and every operation leads to such a context again.  Bindings may collide, but
the collision is reported.
-/

namespace RelationalSolver

open Engine

/-- The facet is written where a collision cannot be reported. -/
def FacetKey.Unreported (key : FacetKey) : Prop := key = .counters ∨ key = .constraints

/-- The action sets no facet under a name where collisions cannot be reported. -/
def BindAction.Spares : BindAction → Prop
  | .setFacet facet _ => ∀ key : FacetKey, key.Unreported → facet.name ≠ key.name
  | .addToFacet facet _ => ∀ key : FacetKey, key.Unreported → facet.name ≠ key.name
  | _ => True

/-- All bind hooks spare the names where collisions cannot be reported. -/
def Registry.Spares (registry : Registry) : Prop :=
  ∀ hook ∈ registry.bindHooks, hook.action.Spares

namespace Context

variable {ctx next : Context} {key : FacetKey} {value : key.Value} {bad : Halt → Prop}

/-- Names are held once, and those under which collisions cannot be reported are held by
nothing else and are spared by the hooks. -/
structure Unobstructed (ctx : Context) : Prop where
  names : (ctx.facets.map (·.key.name)).Nodup
  free : ∀ facet ∈ ctx.facets, ∀ key : FacetKey, key.Unreported →
    facet.key.name = key.name → facet.key = key
  spared : ∀ registry, ctx.hooks? = some registry → registry.Spares

theorem map_name_putIn (new : Facet) : ∀ facets : List Facet,
    (putIn new facets).map (·.key.name) =
      if ∃ facet ∈ facets, facet.key = new.key then facets.map (·.key.name)
      else facets.map (·.key.name) ++ [new.key.name]
  | [] => by simp [putIn]
  | first :: facets => by
      by_cases same : first.key = new.key
      · simp [putIn, same]
      · simp only [putIn, same, if_false, List.map_cons, map_name_putIn new facets,
          List.exists_mem_cons_iff, false_or]
        split <;> rfl

/-- The facet that holds the name is the one with the key. -/
theorem holder_eq (names : (ctx.facets.map (·.key.name)).Nodup) {facet holder : Facet}
    (member : facet ∈ ctx.facets) (held : holder ∈ ctx.facets)
    (same : holder.key.name = facet.key.name) : holder = facet :=
  List.inj_on_of_nodup_map names held member same

theorem nodup_of_trySet (names : (ctx.facets.map (·.key.name)).Nodup)
    (success : ctx.trySet key value = .ok next) : (next.facets.map (·.key.name)).Nodup := by
  rw [eq_of_trySet success, map_name_putIn]
  split
  · exact names
  · rename_i absent
    rw [← List.concat_eq_append]
    refine List.Nodup.concat ?_ names
    intro member
    obtain ⟨facet, there, same⟩ := List.mem_map.mp member
    unfold trySet at success
    split at success
    · rename_i holder found
      split at success
      · rename_i isKey
        exact absent ⟨holder, List.mem_of_find?_eq_some found, isKey⟩
      · cases success
    · rename_i none
      have different := List.find?_eq_none.mp none facet there
      exact different (decide_eq_true same)

theorem Unobstructed.trySet (un : ctx.Unobstructed) (success : ctx.trySet key value = .ok next)
    (notHooks : key ≠ .hooks)
    (spares : ∀ other : FacetKey, other.Unreported → key.name = other.name → key = other) :
    next.Unobstructed where
  names := nodup_of_trySet un.names success
  free := by
    rw [eq_of_trySet success]
    intro facet member other unreported same
    rcases eq_or_mem_of_mem_putIn member with rfl | before
    · exact spares other unreported same
    · exact un.free facet before other unreported same
  spared := by
    rw [hooks?, get?_of_trySet_of_ne success notHooks]
    exact un.spared

/-- A facet whose name is held by nothing else is set. -/
theorem exists_trySet (alone : ∀ facet ∈ ctx.facets, facet.key.name = key.name → facet.key = key) :
    ∃ next, ctx.trySet key value = .ok next := by
  unfold Context.trySet
  split
  · rename_i holder found
    have member := List.mem_of_find?_eq_some found
    have sameName := List.find?_some found
    rw [if_pos (alone holder member (of_decide_eq_true sameName))]
    exact ⟨_, rfl⟩
  · exact ⟨_, rfl⟩

namespace Unobstructed

/-- If there is a context, it is unobstructed. -/
def Result (result : Option Context) : Prop := ∀ next, result = some next → next.Unobstructed

theorem exists_facet_of_get? (found : (ctx.get? key).isSome = true) :
    ∃ facet ∈ ctx.facets, facet.key = key := by
  rw [get?] at found
  generalize ctx.facets = facets at found
  induction facets with
  | nil => cases found
  | cons facet facets ih =>
      rw [lookupIn] at found
      split at found
      · rename_i same
        exact ⟨facet, List.mem_cons_self .., same⟩
      · obtain ⟨other, member, same⟩ := ih found
        exact ⟨other, List.mem_cons_of_mem _ member, same⟩

/-- The context is unobstructed and has bindings. -/
structure Bound (ctx : Context) : Prop where
  unobstructed : ctx.Unobstructed
  bindings : (ctx.get? .substitutions).isSome = true

theorem Bound.alone (bound : Bound ctx) : ∀ facet ∈ ctx.facets,
    facet.key.name = FacetKey.substitutions.name → facet.key = .substitutions := by
  obtain ⟨own, there, same⟩ := exists_facet_of_get? bound.bindings
  intro facet member sameName
  rw [← same] at sameName
  rw [holder_eq bound.unobstructed.names there member sameName, same]

/-- A way to unify terms in which no collision goes unreported. -/
def Unifies (unify : Context → Term → Term → Engine (Option Context)) : Prop :=
  ∀ ctx a b, ctx.Unobstructed → Avoids Halt.Clashes (unify ctx a b) Result

variable {unify : Context → Term → Term → Engine (Option Context)}

end Unobstructed

end Context

end RelationalSolver
