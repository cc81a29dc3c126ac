import RelationalSolver.Proofs.Session.Engine
import RelationalSolver.Proofs.Unification.Termination

/-!
# Tangled equations

The occurrence test is what keeps unification from tying a variable to a term that holds it.
On equations where the test never has to step in, unification goes the same way without it,
and so it ends.  Where the test does step in, unification without it may go in circles.
-/

namespace RelationalSolver.Substitution

variable {s next : Substitution} {pairs : List (Term × Term)} {as bs : List Term} {a b : Term}

/-- On its way through the pairs, unification with the occurrence test comes to a variable that
meets a compound which holds it. -/
inductive Tangled : Substitution → List (Term × Term) → Prop
  | knot {s : Substitution} {a b : Term} {v : Var} {f : String} {args : List Term}
      (meets : Bindings.Meets s.walk a b v (.compound f args))
      (holds : (s.resolve (.compound f args)).mentions v = true) (rest : List (Term × Term)) :
      Tangled s ((a, b) :: rest)
  | inside {s : Substitution} {a b : Term} {f : String} {as bs : List Term}
      (left : s.walk a = .compound f as) (right : s.walk b = .compound f bs)
      (lengths : as.length = bs.length) (tangled : Tangled s (as.zip bs))
      (rest : List (Term × Term)) : Tangled s ((a, b) :: rest)
  | later {s next : Substitution} {a b : Term} {rest : List (Term × Term)}
      (ended : s.unify .enabled a b = .ok (some next)) (tangled : Tangled next rest) :
      Tangled s ((a, b) :: rest)

theorem not_tangled_nil : ¬ s.Tangled [] := nofun

theorem Tangled.cons (tangled : s.Tangled [(a, b)]) (rest : List (Term × Term)) :
    s.Tangled ((a, b) :: rest) := by
  cases tangled with
  | knot meets holds _ => exact .knot meets holds rest
  | inside left right lengths tangled _ => exact .inside left right lengths tangled rest
  | later _ tangled => exact absurd tangled not_tangled_nil

/-! ## Without the test -/

/-- What unification with the test comes to at some depth, it comes to at full depth. -/
theorem unify_eq_of_unifyWithin (acyclic : s.Acyclic) {depth : Nat} {result : Option Substitution}
    (ended : unifyWithin .enabled depth s a b = .ok result) :
    s.unify .enabled a b = .ok result := by
  obtain ⟨found, deeper, whole, _⟩ := unifyWithin_settles acyclic a b
  have enough : s.nodes + a.size + b.size < max depth (s.nodes + a.size + b.size + 1) := by omega
  have here := deeper _ enough
  rw [unifyWithin_eq_ok_of_le (Nat.le_max_left _ _) ended] at here
  rw [whole, here]

/-- A binding that the test lets pass is made without it too. -/
theorem bindVar_of_untangled (acyclic : s.Acyclic) {v : Var} {t : Term}
    (untangled : ¬ s.Tangled [(a, b)]) (meets : Bindings.Meets s.walk a b v t) :
    (store .disabled).bindVar s v t = (store .enabled).bindVar s v t := by
  cases t with
  | var w => rfl
  | atom x => rfl
  | compound f args =>
      have apart : (s.resolve (.compound f args)).mentions v = false := by
        rw [← Bool.not_eq_true]
        exact fun holds => untangled (.knot meets holds [])
      have passes : (store .enabled).forbids s v (.compound f args) = .ok false := by
        rw [← apart]
        exact occurs_eq_mentions acyclic v _
      rw [Bindings.bindVar, Bindings.bindVar, passes]
      rfl

/-- Pairs that are not tangled are unified alike without the test. -/
theorem unifyPairs_of_untangled {depth : Nat}
    (alike : ∀ {s : Substitution} {a b : Term} {result : Option Substitution}, s.Acyclic →
      ¬ s.Tangled [(a, b)] → unifyWithin .enabled depth s a b = .ok result →
      unifyWithin .disabled depth s a b = .ok result) :
    ∀ {as bs : List Term} {s : Substitution} {result : Option Substitution}, s.Acyclic →
      ¬ s.Tangled (as.zip bs) →
      Bindings.unifyPairs (unifyWithin .enabled depth) s as bs = .ok result →
      Bindings.unifyPairs (unifyWithin .disabled depth) s as bs = .ok result
  | a :: as, b :: bs, s, result, acyclic, untangled, ended => by
      rw [List.zip_cons_cons] at untangled
      rw [Bindings.unifyPairs, Engine.except_bind_eq_ok] at ended
      obtain ⟨first, endedFirst, endedRest⟩ := ended
      have alone : ¬ s.Tangled [(a, b)] := fun tangled => untangled (tangled.cons _)
      rw [Bindings.unifyPairs, alike acyclic alone endedFirst]
      cases first with
      | none => exact endedRest
      | some next =>
          have whole := unify_eq_of_unifyWithin acyclic endedFirst
          obtain ⟨found, again, holds⟩ := unify_ends acyclic a b
          rw [whole] at again
          cases again
          exact unifyPairs_of_untangled alike (holds next rfl).1
            (fun tangled => untangled (.later whole tangled)) endedRest
  | [], _, _, _, _, _, ended => ended
  | _ :: _, [], _, _, _, _, ended => ended

/-- An equation that is not tangled is unified alike without the test, at every depth at which
it is unified with the test. -/
theorem unifyWithin_of_untangled (acyclic : s.Acyclic) (untangled : ¬ s.Tangled [(a, b)])
    {depth : Nat} {result : Option Substitution}
    (ended : unifyWithin .enabled depth s a b = .ok result) :
    unifyWithin .disabled depth s a b = .ok result := by
  induction depth generalizing s a b result with
  | zero => cases ended
  | succ depth ih =>
      suffices follows : Coupling.following.Related (Option.Rel Eq)
          (unifyWithin .enabled (depth + 1) s a b) (unifyWithin .disabled (depth + 1) s a b) by
        obtain ⟨found, again, same⟩ := follows result ended
        rw [again, eq_of_rel_eq same]
      have walks : ∀ t, (store .disabled).walk s t = (store .enabled).walk s t := fun _ => rfl
      rw [unifyWithin_succ, unifyWithin_succ]
      apply Coupling.following.unifyRound_of_length_eq walks rfl
      · intro v t meets
        rw [bindVar_of_untangled acyclic untangled meets]
        exact following_refl _
      · intro f as bs left right lengths found endedPairs
        have inner : ¬ s.Tangled (as.zip bs) :=
          fun tangled => untangled (.inside left right lengths tangled [])
        have again := unifyPairs_of_untangled (fun here apart ended => ih here apart ended)
          acyclic inner endedPairs
        exact following_refl _ found again

/-- Unification of an equation that is not tangled ends without the test, and comes to what it
comes to with the test. -/
theorem unify_of_untangled (acyclic : s.Acyclic) (untangled : ¬ s.Tangled [(a, b)]) :
    s.unify .disabled a b = s.unify .enabled a b := by
  obtain ⟨result, _, whole, _⟩ := unifyWithin_settles acyclic a b
  rw [whole, unify_eq]
  rw [unify_eq] at whole
  exact unifyWithin_of_untangled acyclic untangled whole

/-! ## In circles -/

/-- Two variables are bound to compounds of one shape, each around the other. -/
structure Crossed (s : Substitution) (f : String) (v w : Var) : Prop where
  left : s.lookup v = some (.compound f [.var w])
  right : s.lookup w = some (.compound f [.var v])
  different : v ≠ w

namespace Crossed

variable {f : String} {v w : Var}

theorem symm (crossed : s.Crossed f v w) : s.Crossed f w v :=
  ⟨crossed.right, crossed.left, crossed.different.symm⟩

theorem walk_eq (crossed : s.Crossed f v w) : s.walk (.var v) = .compound f [.var w] :=
  (Ends.next crossed.left (.here (by simp [Walked]))).walk_eq

/-- Without the test, unifying such variables comes back to unifying them. -/
theorem unifyWithin_eq (crossed : s.Crossed f v w) (depth : Nat) :
    unifyWithin .disabled depth s (.var v) (.var w) = .error .unending := by
  induction depth generalizing v w with
  | zero => rfl
  | succ depth ih =>
      have apart : Term.compound f [.var w] ≠ .compound f [.var v] := by
        intro same
        simp only [Term.compound.injEq, List.cons.injEq, Term.var.injEq] at same
        exact crossed.different same.2.1.symm
      have left : (store .disabled).walk s (.var v) = .compound f [.var w] := crossed.walk_eq
      have right : (store .disabled).walk s (.var w) = .compound f [.var v] := crossed.symm.walk_eq
      rw [unifyWithin_succ, Bindings.unifyRound]
      simp only [left, right, if_neg apart, List.length_cons, and_self, if_true,
        Bindings.unifyPairs, ih crossed.symm]
      rfl

end Crossed

/-- Without the test, an unbound variable is bound to whatever compound it meets. -/
theorem unifyWithin_of_unbound {v : Var} (unbound : s.lookup v = none) (named : v ≠ .wildcard)
    (f : String) (args : List Term) (depth : Nat) :
    unifyWithin .disabled (depth + 1) s (.var v) (.compound f args) =
      .ok (some (s.insert v (.compound f args))) := by
  have walked : s.Walked (.compound f args) := by simp [Walked]
  have walks : (store .disabled).walk s (.var v) = .var v := by
    apply walk_of_walked
    rintro _ ⟨⟩
    exact unbound
  have stays : (store .disabled).walk s (.compound f args) = .compound f args := walk_compound ..
  have binds : (store .disabled).bindVar s v (.compound f args) = _ :=
    bindVar_unchecked named walked (by simp)
  rw [unifyWithin_succ, Bindings.unifyRound]
  simp only [walks, stays]
  cases v with
  | wildcard => exact absurd rfl named
  | numbered ordinal => exact binds
  | named name => exact binds

/-- A pair that unifies leaves the pairs behind it. -/
theorem unifyPairs_of_ok
    {unify : Substitution → Term → Term → Except Unending (Option Substitution)}
    (first : unify s a b = .ok (some next)) (as bs : List Term) :
    Bindings.unifyPairs unify s (a :: as) (b :: bs) = Bindings.unifyPairs unify next as bs := by
  rw [Bindings.unifyPairs, first]
  rfl

/-- Without the test, two unbound variables that each meet a compound around the other get bound
around each other, and to unify them then has no end. -/
theorem unifyWithin_crossing {v w : Var} (unbound : s.lookup v = none)
    (unboundOther : s.lookup w = none) (named : v ≠ .wildcard) (namedOther : w ≠ .wildcard)
    (different : v ≠ w) (f g : String) (depth : Nat) :
    unifyWithin .disabled depth s (.compound f [.var v, .var w, .var v])
      (.compound f [.compound g [.var w], .compound g [.var v], .var w]) = .error .unending := by
  cases depth with
  | zero => rfl
  | succ depth =>
      have left : ∀ args, (store .disabled).walk s (.compound f args) = .compound f args :=
        fun args => walk_compound ..
      rw [unifyWithin_succ, Bindings.unifyRound]
      simp only [left, List.length_cons, and_self, if_true]
      rw [if_neg (by simp)]
      cases depth with
      | zero => rfl
      | succ depth =>
          let once := s.insert v (.compound g [.var w])
          let twice := once.insert w (.compound g [.var v])
          have unboundOnce : once.lookup w = none := by
            simp [once, lookup_insert, different, unboundOther]
          have crossed : twice.Crossed g v w := by
            refine ⟨?_, ?_, different⟩
            · simp [twice, once, lookup_insert, different.symm]
            · simp [twice, lookup_insert]
          rw [unifyPairs_of_ok (unifyWithin_of_unbound unbound named g _ depth),
            unifyPairs_of_ok (unifyWithin_of_unbound unboundOnce namedOther g _ depth),
            Bindings.unifyPairs, crossed.unifyWithin_eq]
          rfl

end RelationalSolver.Substitution
