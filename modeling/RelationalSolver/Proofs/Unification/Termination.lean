import RelationalSolver.Proofs.Unification.Adequacy

/-!
# Unification ends

With the occurrence test, every pass through an acyclic substitution ends: walks, the test
itself, deep walks, and unification of terms and of lists of terms.  Each is computed with a
bound on its depth.  Here the bounds are shown to be out of the way: above the number of nodes
in sight every bound gives the same result, so what is computed is what the recursion without
a bound comes to.
-/

namespace RelationalSolver.Substitution

variable {check : OccursCheck} {s : Substitution} {as bs : List Term} {a b t : Term}

/-- In an acyclic substitution every chain of bindings ends where the walk does. -/
theorem ends_walk (acyclic : s.Acyclic) (t : Term) : ∃ count, s.Ends count t (s.walk t) :=
  exists_ends_walkWithin (walked_walk acyclic t)

/-- The occurrence test goes no deeper than there are nodes. -/
theorem occursWithin_eq_mentions (acyclic : s.Acyclic) (v : Var) {depth : Nat}
    (enough : s.nodes + t.size < depth) :
    s.occursWithin v depth t = .ok ((s.resolve t).mentions v) := by
  apply occursWithin_eq acyclic (s.closedUnderArgs_sight [t]) (s.staysIn_sight [t])
    (mem_sight (List.mem_singleton_self t))
  have small := s.card_sight_le [t]
  simp only [Term.sizes] at small
  omega

/-! ## Lists of terms -/

/-- Lists that unify within some depth unify alike within every greater one. -/
theorem unifyLists_eq_ok_of_le {depth more : Nat} (less : depth ≤ more)
    {result : Option Substitution}
    (ended : Bindings.unifyLists (unifyWithin check depth) s as bs = .ok result) :
    Bindings.unifyLists (unifyWithin check more) s as bs = .ok result := by
  have follows : Coupling.following.Related (Option.Rel Eq)
      (Bindings.unifyLists (unifyWithin check depth) s as bs)
      (Bindings.unifyLists (unifyWithin check more) s as bs) := by
    apply Coupling.following.unifyLists rfl
    rintro later _ rfl a _ b _
    exact unifyWithin_deeper less later a b
  obtain ⟨found, again, same⟩ := follows result ended
  rw [again, eq_of_rel_eq same]

/-- A substitution that unification may come to from an acyclic one, among the same nodes. -/
structure Onward (nodes : Finset Term) (s next : Substitution) : Prop where
  acyclic : next.Acyclic
  extended : next.Extends s
  stays : next.StaysIn nodes

namespace Onward

variable {nodes : Finset Term} {next : Substitution} {depth : Nat}

/-- With more levels than there are nodes, unification of two nodes ends. -/
theorem unifyWithin (onward : Onward nodes s next) (closed : Term.ClosedUnderArgs nodes)
    (left : a ∈ nodes) (right : b ∈ nodes) (enough : nodes.card < depth) :
    ∃ result, unifyWithin .enabled depth next a b = .ok result ∧
      ∀ last, result = some last → Onward nodes s last := by
  obtain ⟨result, _, holds, ended, _⟩ := Coupling.Paired.unify_of_depth
    (fun _ _ => paired_store) (unifyWithin_succ .enabled) (unifyWithin_succ .enabled) closed closed
    (.refl onward.acyclic) onward.stays onward.stays left right left right
    (Nat.lt_add_right _ enough) (Nat.lt_add_right _ enough)
  refine ⟨result, ended, ?_⟩
  rintro last rfl
  cases holds with
  | some both => exact ⟨both.1.acyclic, both.2.extended.trans onward.extended, both.2.stays⟩

theorem unifyPairs (closed : Term.ClosedUnderArgs nodes) (enough : nodes.card < depth) :
    ∀ {as bs : List Term} {next : Substitution}, Onward nodes s next → (∀ a ∈ as, a ∈ nodes) →
      (∀ b ∈ bs, b ∈ nodes) →
      ∃ result, Bindings.unifyPairs (Substitution.unifyWithin .enabled depth) next as bs =
          .ok result ∧ ∀ last, result = some last → Onward nodes s last
  | a :: as, b :: bs, next, onward, left, right => by
      obtain ⟨result, ended, holds⟩ :=
        onward.unifyWithin closed (left a (by simp)) (right b (by simp)) enough
      rw [Bindings.unifyPairs, ended]
      cases result with
      | none => exact ⟨none, rfl, by simp⟩
      | some later =>
          exact unifyPairs closed enough (holds later rfl)
            (fun x member => left x (List.mem_cons_of_mem a member))
            (fun x member => right x (List.mem_cons_of_mem b member))
  | [], _, next, onward, _, _ => ⟨some next, rfl, fun _ same => Option.some.inj same ▸ onward⟩
  | _ :: _, [], next, onward, _, _ => ⟨some next, rfl, fun _ same => Option.some.inj same ▸ onward⟩

theorem unifyLists (onward : Onward nodes s next) (closed : Term.ClosedUnderArgs nodes)
    (left : ∀ a ∈ as, a ∈ nodes) (right : ∀ b ∈ bs, b ∈ nodes) (enough : nodes.card < depth) :
    ∃ result, Bindings.unifyLists (Substitution.unifyWithin .enabled depth) next as bs =
      .ok result ∧ ∀ last, result = some last → Onward nodes s last := by
  unfold Bindings.unifyLists
  split
  · exact unifyPairs closed enough onward left right
  · exact ⟨none, rfl, nofun⟩

end Onward

theorem Acyclic.onward (acyclic : s.Acyclic) (ts : List Term) : Onward (s.sight ts) s s :=
  ⟨acyclic, .refl s, s.staysIn_sight ts⟩

/-! ## Depths that make no difference -/

/-- Unification of two terms comes to the same at every depth above the number of nodes. -/
theorem unifyWithin_settles (acyclic : s.Acyclic) (a b : Term) :
    ∃ result, (∀ depth, s.nodes + a.size + b.size < depth →
        unifyWithin .enabled depth s a b = .ok result) ∧
      s.unify .enabled a b = .ok result ∧ ∀ next, result = some next → next.Acyclic := by
  have small := s.card_sight_le [a, b]
  have enough := lt_rounds (s.nodes + a.size + b.size)
  simp only [Term.sizes] at small
  have left : a ∈ s.sight [a, b] := mem_sight (by simp)
  have right : b ∈ s.sight [a, b] := mem_sight (by simp)
  have deep : (s.sight [a, b]).card < s.nodes + a.size + b.size + 1 := by omega
  obtain ⟨result, ended, holds⟩ :=
    (acyclic.onward [a, b]).unifyWithin (s.closedUnderArgs_sight [a, b]) left right deep
  have deeper : ∀ depth, s.nodes + a.size + b.size < depth →
      unifyWithin .enabled depth s a b = .ok result :=
    fun depth more => unifyWithin_eq_ok_of_le more ended
  refine ⟨result, deeper, ?_, fun next same => (holds next same).acyclic⟩
  rw [unify_eq]
  exact deeper _ (by omega)

/-- Unification of two lists comes to the same at every depth above the number of nodes. -/
theorem unifyLists_settles (acyclic : s.Acyclic) (as bs : List Term) :
    ∃ result, (∀ depth, s.nodes + Term.sizes as + Term.sizes bs < depth →
        Bindings.unifyLists (unifyWithin .enabled depth) s as bs = .ok result) ∧
      s.unifyAll .enabled as bs = .ok result ∧ ∀ next, result = some next → next.Acyclic := by
  have small := s.card_sight_le (as ++ bs)
  have enough := lt_rounds (s.nodes + Term.sizes as + Term.sizes bs)
  rw [Term.sizes_append] at small
  have left : ∀ a ∈ as, a ∈ s.sight (as ++ bs) :=
    fun a member => mem_sight (List.mem_append_left bs member)
  have right : ∀ b ∈ bs, b ∈ s.sight (as ++ bs) :=
    fun b member => mem_sight (List.mem_append_right as member)
  have deep : (s.sight (as ++ bs)).card < s.nodes + Term.sizes as + Term.sizes bs + 1 := by omega
  obtain ⟨result, ended, holds⟩ :=
    (acyclic.onward (as ++ bs)).unifyLists (s.closedUnderArgs_sight (as ++ bs)) left right deep
  have deeper : ∀ depth, s.nodes + Term.sizes as + Term.sizes bs < depth →
      Bindings.unifyLists (unifyWithin .enabled depth) s as bs = .ok result :=
    fun depth more => unifyLists_eq_ok_of_le more ended
  refine ⟨result, deeper, ?_, fun next same => (holds next same).acyclic⟩
  rw [unifyAll_eq]
  exact deeper _ (by omega)

/-- In an acyclic substitution everything ends.  A walk follows a chain of bindings to its
end.  The occurrence test, unification and unification of lists come to one result at every
depth above the number of nodes, and unification leaves the substitution acyclic.  A deep walk
comes to the same term whatever more it may expand, and leaves no bound variable in it. -/
theorem passes_end (acyclic : s.Acyclic) :
    (∀ t, ∃ count, s.Ends count t (s.walk t)) ∧
    (∀ v t, ∃ found, (∀ depth, s.nodes + t.size < depth →
        s.occursWithin v depth t = .ok found) ∧ s.occurs v t = .ok found) ∧
    (∀ t, (∀ budget, s.size ≤ budget → t.mapVars (s.expand budget []) = s.resolve t) ∧
      ∀ w, (s.resolve t).mentions w = true → s.lookup w = none) ∧
    (∀ a b, ∃ result, (∀ depth, s.nodes + a.size + b.size < depth →
        unifyWithin .enabled depth s a b = .ok result) ∧
      s.unify .enabled a b = .ok result ∧ ∀ next, result = some next → next.Acyclic) ∧
    (∀ as bs, ∃ result, (∀ depth, s.nodes + Term.sizes as + Term.sizes bs < depth →
        Bindings.unifyLists (unifyWithin .enabled depth) s as bs = .ok result) ∧
      s.unifyAll .enabled as bs = .ok result ∧ ∀ next, result = some next → next.Acyclic) := by
  refine ⟨ends_walk acyclic, ?_, ?_, unifyWithin_settles acyclic, unifyLists_settles acyclic⟩
  · intro v t
    exact ⟨_, fun depth enough => occursWithin_eq_mentions acyclic v enough,
      occurs_eq_mentions acyclic v t⟩
  · intro t
    refine ⟨fun budget enough => mapVars_expand acyclic enough t, ?_⟩
    exact fun w inside => ((mentions_resolve acyclic).mp inside).2

/-- A variable met with a compound that leads back to it through a binding: the test finds it,
and no depth beyond the nodes in sight changes the answer. -/
theorem passes_end_behind_binding :
    let x := Var.numbered 1
    let y := Var.numbered 2
    let s := empty.insert x (.tuple [.var y])
    s.Acyclic ∧ s.occurs y (.tuple [.var x]) = .ok true ∧
      ∀ depth, 9 < depth →
        unifyWithin .enabled depth s (.tuple [.var .wildcard, .var y])
          (.tuple [.var x, .tuple [.var x]]) = .ok none := by
  intro x y s
  have acyclic : s.Acyclic := acyclic_empty.insert_apart (by decide) (lookup_empty x)
  obtain ⟨_, occurrence, _, unification, _⟩ := passes_end acyclic
  refine ⟨acyclic, ?_, ?_⟩
  · obtain ⟨found, deeper, same⟩ := occurrence y (.tuple [.var x])
    have within := deeper 10 (by decide)
    rw [same, ← within]
    rfl
  · intro depth deep
    obtain ⟨result, deeper, _⟩ :=
      unification (.tuple [.var .wildcard, .var y]) (.tuple [.var x, .tuple [.var x]])
    have within := deeper 10 (by decide)
    rw [deeper depth (Nat.lt_of_le_of_lt (by decide) deep), ← within]
    rfl

end RelationalSolver.Substitution
