import RelationalSolver.Proofs.Context.Ground
import RelationalSolver.Proofs.Substitution.Resolution
import RelationalSolver.Proofs.Unification.Agreement
import RelationalSolver.Proofs.Unification.Locality

/-!
# Bindings that stay within a set of variables

A set of variables out of which no binding leads is left by no walk.  If two terms over it
are unified, what is bound is a variable of the set, to a term over the set: so the set stays
closed, and whatever is bound later on the way of the same terms is one of its variables
again.  Where nothing but observers is registered, an equation over the set binds variables
of the set, a constraint binds nothing, and neither writes more than the bindings, the
counters and the constraints.  Substitutions may be cyclic here.
-/

namespace RelationalSolver.Substitution

variable {s next : Substitution} {v w : Var} {a b t u : Term} {inside : Set Var} {count : Nat}
  {vars : List Var}

/-! ## Walks that come to an end -/

/-- Walks come to an end, and the wildcard has no binding. -/
structure Orderly (s : Substitution) : Prop where
  ends : s.WalksEnd
  anonymous : s.lookup .wildcard = none

/-- A chain that does not end at a variable is not changed by binding it. -/
theorem Ends.insert_of_ne (chain : s.Ends count t u) (unbound : s.lookup v = none)
    (different : u ≠ .var v) (value : Term) : (s.insert v value).Ends count t u := by
  induction chain with
  | here walked => exact .here (walked.insert different)
  | @next w t u count bound _ ih =>
      refine (ih different).next ?_
      rw [lookup_insert, if_neg, bound]
      rintro rfl
      rw [unbound] at bound
      cases bound

/-- A chain that ends at a variable goes on at what the variable is bound to. -/
theorem Ends.insert_at (chain : s.Ends count t (.var v)) {more : Nat} {value : Term}
    (later : (s.insert v value).Ends more value u) :
    ∃ many, (s.insert v value).Ends many t u := by
  generalize atVar : Term.var v = last at chain
  induction chain with
  | here _ =>
      subst atVar
      exact ⟨more + 1, later.next (by simp [lookup_insert])⟩
  | @next w t last count bound rest ih =>
      obtain ⟨many, reaches⟩ := ih atVar
      refine ⟨many + 1, reaches.next ?_⟩
      rw [lookup_insert, if_neg, bound]
      rintro rfl
      rw [rest.walked v atVar.symm] at bound
      cases bound

theorem WalksEnd.insert (ends : s.WalksEnd) (unbound : s.lookup v = none)
    (apart : s.walk t ≠ .var v) : (s.insert v t).WalksEnd := by
  have value : ∃ count, (s.insert v t).Ends count t (s.walk t) := by
    obtain ⟨count, chain⟩ := ends.exists_ends t
    exact ⟨count, chain.insert_of_ne unbound apart t⟩
  intro r
  obtain ⟨more, later⟩ := value
  obtain ⟨count, chain⟩ := ends.exists_ends r
  by_cases atVar : s.walk r = .var v
  · rw [atVar] at chain
    obtain ⟨many, reaches⟩ := chain.insert_at later
    exact reaches.walk_eq ▸ reaches.walked
  · have reaches := chain.insert_of_ne unbound atVar t
    exact reaches.walk_eq ▸ reaches.walked

/-- What is made by binding unbound variables one after the other is orderly. -/
theorem Built.orderly (built : s.Built) : s.Orderly := by
  refine ⟨?_, built.lookup_wildcard⟩
  induction built with
  | empty => exact acyclic_empty.walksEnd
  | @extend s next v t _ unbound extended ih =>
      rw [Substitution.extend] at extended
      split at extended
      · cases extended
      · rename_i allowed
        cases extended
        exact ih.insert unbound fun walks => allowed (.inr walks)

/-! ## Sets that no binding leads out of -/

/-- No binding leads out of the set. -/
def Encloses (s : Substitution) (inside : Set Var) : Prop :=
  ∀ v ∈ inside, ∀ t, s.lookup v = some t → t.Within inside

theorem Encloses.walk (encloses : s.Encloses inside) (within : t.Within inside) :
    (s.walk t).Within inside := by
  have each : ∀ steps t, t.Within inside → (s.walkWithin steps t).Within inside := by
    intro steps
    induction steps with
    | zero =>
        intro t within
        cases t <;> exact within
    | succ steps ih =>
        intro t within
        cases t with
        | atom a => exact within
        | compound f args => exact within
        | var v =>
            rw [walkWithin]
            cases bound : s.lookup v with
            | none => exact within
            | some t => exact ih t (encloses v (within v (Term.mentions_var.mpr rfl)) t bound)
  exact each s.size t within

/-- The variables reached from some variables, and the wildcard. -/
def reachedFrom (s : Substitution) (vars : List Var) : Set Var :=
  {w | w = .wildcard ∨ ∃ v ∈ vars, Relation.ReflTransGen s.Binds v w}

theorem Orderly.encloses (orderly : s.Orderly) (vars : List Var) :
    s.Encloses (s.reachedFrom vars) := by
  rintro v (rfl | ⟨u, member, path⟩) t bound w mentioned
  · rw [orderly.anonymous] at bound
    cases bound
  · exact .inr ⟨u, member, path.tail ⟨t, bound, mentioned⟩⟩

/-- Bindings were added, only of variables in a set that no binding leads out of. -/
structure Confined (inside : Set Var) (s next : Substitution) : Prop where
  orderly : next.Orderly
  extended : next.Extends s
  encloses : next.Encloses inside
  added : ∀ v, next.lookup v ≠ none → s.lookup v = none → v ∈ inside

theorem Confined.refl (orderly : s.Orderly) (encloses : s.Encloses inside) :
    Confined inside s s :=
  ⟨orderly, .refl s, encloses, fun _ bound unbound => absurd unbound bound⟩

/-- A variable that a term over the set walks to may be bound to what another one walks to. -/
theorem Confined.insert (confined : Confined inside s next) (left : a.Within inside)
    (right : b.Within inside) (meets : Bindings.Meets next.walk a b v t) :
    Confined inside s (next.insert v t) := by
  obtain ⟨unbound, _, grown⟩ := confined.orderly.ends.bindVar meets
  have walkedLeft := confined.encloses.walk left
  have walkedRight := confined.encloses.walk right
  have within : t.Within inside := meets.of_walks (P := (·.Within inside)) walkedLeft walkedRight
  have member : v ∈ inside := by
    rcases meets.2.2 with ⟨atVar, _⟩ | ⟨atVar, _⟩
    · exact walkedLeft v (atVar ▸ Term.mentions_var.mpr rfl)
    · exact walkedRight v (atVar ▸ Term.mentions_var.mpr rfl)
  refine ⟨⟨grown.ends, ?_⟩, grown.extended.trans confined.extended, ?_, ?_⟩
  · rw [lookup_insert, if_neg meets.1, confined.orderly.anonymous]
  · intro w among u bound
    rw [lookup_insert] at bound
    split at bound
    · cases bound
      exact within
    · exact confined.encloses w among u bound
  · intro w bound unboundFirst
    rw [lookup_insert] at bound
    split at bound
    · rename_i same
      exact same ▸ member
    · exact confined.added w bound unboundFirst

end RelationalSolver.Substitution

/-! ## Operations on contexts -/

namespace RelationalSolver.Context

open Engine

variable {base ctx next : Context} {inside : Set Var} {a b : Term} {as bs : List Term}
  {inner outer : Context → Term → Term → Engine (Option Context)}

/-- No bind hook and no walk hook is registered. -/
structure OnlyObserved (ctx : Context) : Prop where
  binds : ctx.BindsFreely
  walks : ∀ registry, ctx.hooks? = some registry → registry.walkHooks = []

/-- What was written since are bindings of variables in a set, counters and constraints. -/
structure Confined (inside : Set Var) (base ctx : Context) : Prop where
  bindings : Substitution.Confined inside base.substitution ctx.substitution
  aside : Keeps FacetKey.IsAside base ctx

theorem Confined.onlyObserved (confined : Confined inside base ctx) (only : base.OnlyObserved) :
    ctx.OnlyObserved := by
  have same : ctx.hooks? = base.hooks? := confined.aside .hooks trivial
  exact ⟨fun registry found => only.binds registry (same ▸ found),
    fun registry found => only.walks registry (same ▸ found)⟩

/-! ### Constraints -/

theorem Confined.of_keeps (confined : Confined inside base ctx)
    (keeps : Keeps (· ≠ .constraints) ctx next) : Confined inside base next := by
  have same : next.substitution = ctx.substitution :=
    congrArg (·.getD .empty) (keeps .substitutions (by simp))
  refine ⟨same ▸ confined.bindings, confined.aside.trans (keeps.mono ?_)⟩
  rintro key isAside rfl
  exact isAside

theorem Confined.constrain (confined : Confined inside base ctx) (c : Constraint) :
    Detached (ctx.constrain c) (Leaves (Confined inside) base) := by
  have keeps : Detached (ctx.constrain c) (Leaves (Keeps (· ≠ .constraints)) ctx) :=
    constrain_keeps (by simp) c
  exact keeps.mono fun _ leaves next found => confined.of_keeps (leaves next found)

theorem Confined.constrainAll (confined : Confined inside base ctx)
    (constraints : List Constraint) :
    Detached (ctx.constrainAll constraints) (Leaves (Confined inside) base) := by
  have keeps : Detached (ctx.constrainAll constraints) (Leaves (Keeps (· ≠ .constraints)) ctx) :=
    constrainAll_keeps (by simp) constraints
  exact keeps.mono fun _ leaves next found => confined.of_keeps (leaves next found)

/-! ### Unification -/

/-- Unifying terms over the set leaves the context confined. -/
def UnifiesWithin (inside : Set Var) (base : Context)
    (inner : Context → Term → Term → Engine (Option Context)) : Prop :=
  ∀ ctx a b, Confined inside base ctx → a.Within inside → b.Within inside →
    Detached (inner ctx a b) (Leaves (Confined inside) base)

theorem UnifiesWithin.pairs (unifies : UnifiesWithin inside base inner) :
    ∀ {as bs : List Term} {ctx : Context}, Confined inside base ctx →
      (∀ t ∈ as, t.Within inside) → (∀ t ∈ bs, t.Within inside) →
      Detached (Bindings.unifyPairs inner ctx as bs) (Leaves (Confined inside) base)
  | a :: as, b :: bs, ctx, confined, left, right => by
      rw [List.forall_mem_cons] at left right
      rw [Bindings.unifyPairs]
      apply (unifies ctx a b confined left.1 right.1).bind
      intro result leaves
      cases result with
      | none => exact .pure leaves_none
      | some next => exact unifies.pairs (leaves next rfl) left.2 right.2
  | [], _, _, confined, _, _ => .pure (leaves_some confined)
  | _ :: _, [], _, confined, _, _ => .pure (leaves_some confined)

theorem Confined.of_bound {v : Var} {t : Term} (confined : Confined inside base ctx)
    (left : a.Within inside) (right : b.Within inside)
    (meets : Bindings.Meets ctx.substitution.walk a b v t) (bound : Bound v t ctx next) :
    Confined inside base next :=
  ⟨bound.inserted ▸ confined.bindings.insert left right meets, confined.aside.trans bound.aside⟩

/-- A round binds at most a variable that one of the terms walks to. -/
theorem UnifiesWithin.round (only : base.OnlyObserved) (unifies : UnifiesWithin inside base inner) :
    UnifiesWithin inside base ((store outer).unifyRound inner) := by
  intro ctx a b confined left right
  apply Bindings.unifyRound_cases (motive := fun x => Detached x (Leaves (Confined inside) base))
  · exact fun _ => .pure (leaves_some confined)
  · exact fun _ => .pure (leaves_some confined)
  · intro v t meets
    have binds : Detached (bindBy outer ctx v t) (Leaves (fun _ => Confined inside base) ctx) :=
      (bindBy_bound (confined.onlyObserved only).binds v t).mono fun _ leaves next found =>
        confined.of_bound left right meets (leaves next found)
    exact bindVar_leaves binds
  · intro f as bs walksLeft walksRight _
    have walkedLeft : (Term.compound f as).Within inside :=
      walksLeft ▸ confined.bindings.encloses.walk left
    have walkedRight : (Term.compound f bs).Within inside :=
      walksRight ▸ confined.bindings.encloses.walk right
    exact unifies.pairs confined (fun _ => walkedLeft.arg) (fun _ => walkedRight.arg)
  · exact fun _ => .pure leaves_none

theorem unifyWithin_confined (only : base.OnlyObserved) (depth : Nat) :
    UnifiesWithin inside base (unifyWithin depth) := by
  induction depth with
  | zero => exact fun _ _ _ _ _ _ => .throw _
  | succ depth ih => exact ih.round only

/-- Without walk hooks, walking leaves the context as it is. -/
theorem OnlyObserved.walkCondensed (only : ctx.OnlyObserved) (t : Term) :
    ctx.walkCondensed t = pure (ctx, ctx.walk t) := by
  rw [Context.walkCondensed]
  split
  · rfl
  · rename_i registry found
    rw [only.walks registry found]
    dsimp only
    rw [Substitution.walkChain_fst, runWalkHooks, pure_bind, ite_self]
    rfl

theorem Confined.unify (only : base.OnlyObserved) (confined : Confined inside base ctx)
    (left : a.Within inside) (right : b.Within inside) :
    Detached (ctx.unify a b) (Leaves (Confined inside) base) := by
  have quiet := confined.onlyObserved only
  have encloses := confined.bindings.encloses
  rw [Context.unify, unifyOver_eq, condenseThen, quiet.walkCondensed, pure_bind]
  dsimp only
  rw [quiet.walkCondensed, pure_bind]
  exact unifyWithin_confined only _ ctx _ _ confined (encloses.walk left) (encloses.walk right)

theorem Confined.unifyAll (only : base.OnlyObserved) (confined : Confined inside base ctx)
    (left : ∀ t ∈ as, t.Within inside) (right : ∀ t ∈ bs, t.Within inside) :
    Detached (ctx.unifyAll as bs) (Leaves (Confined inside) base) := by
  rw [Context.unifyAll, unifyOver_eq, Bindings.unifyLists]
  split
  · exact (unifyWithin_confined only _).pairs confined left right
  · exact .pure leaves_none

end RelationalSolver.Context
