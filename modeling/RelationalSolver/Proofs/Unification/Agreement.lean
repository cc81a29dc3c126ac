import RelationalSolver.Proofs.Unification.Adequacy
import RelationalSolver.Proofs.Unification.Covering

/-!
# Where both ways of unifying agree

With and without the occurrence test, unification takes the same turns up to the first
binding that the test forbids.  Without the test that binding ties a cycle, and whatever is
bound later leaves the cycle there.  So of the results without the test, the test turns away
those that have a cycle, and no others.
-/

namespace RelationalSolver.Substitution

open Coupling

variable {s next : Substitution} {v : Var} {a b t : Term} {as bs : List Term}

/-! ## Cycles -/

/-- A cycle stays when bindings are added. -/
theorem Acyclic.of_extends (acyclic : next.Acyclic) (extended : next.Extends s) : s.Acyclic := by
  have kept : s.Binds ≤ next.Binds := fun x y ⟨u, bound, within⟩ => ⟨u, extended x u bound, within⟩
  exact fun v cycle => acyclic v (Relation.TransGen.mono kept v v cycle)

/-- A binding to a term that leads back to the variable ties a cycle. -/
theorem not_acyclic_insert (unbound : s.lookup v = none) (reached : s.Reaches t v) :
    ¬ (s.insert v t).Acyclic := by
  intro acyclic
  obtain ⟨w, inside, path⟩ := reached.of_extends (extends_insert t unbound)
  have binds : (s.insert v t).Binds v w := ⟨t, by simp [lookup_insert], inside⟩
  exact acyclic v (.head' binds path)

theorem acyclic_insert_iff (acyclic : s.Acyclic) (unbound : s.lookup v = none) :
    (s.insert v t).Acyclic ↔ (s.resolve t).mentions v = false := by
  constructor
  · intro acyclicNext
    by_contra inside
    have reached := (mentions_resolve acyclic).mp (Bool.eq_true_of_not_eq_false inside)
    exact not_acyclic_insert unbound reached.1 acyclicNext
  · exact fun apart => acyclic.insert_apart apart unbound

/-! ## Without the test -/

/-- Bindings were added, and walks come to an end. -/
structure Grown (s next : Substitution) : Prop where
  ends : next.WalksEnd
  extended : next.Extends s

theorem Grown.refl (ends : s.WalksEnd) : Grown s s := ⟨ends, .refl s⟩

theorem Grown.trans {last : Substitution} (first : Grown s next) (second : Grown next last) :
    Grown s last :=
  ⟨second.ends, second.extended.trans first.extended⟩

/-- Without the test, a variable that meets a walked term is bound to it. -/
theorem WalksEnd.bindVar (ends : s.WalksEnd) (meets : Bindings.Meets s.walk a b v t) :
    s.lookup v = none ∧ s.Walked t ∧ Grown s (s.insert v t) := by
  have inserted := ((Matches.refl ends).bindVar_unchecked meets).2.2
  have around : s.lookup v = none ∧ s.Walked t := by
    rcases meets.2.2 with ⟨atVar, rfl⟩ | ⟨atVar, rfl⟩
    · exact ⟨ends a v atVar, ends b⟩
    · exact ⟨ends b v atVar, ends a⟩
  exact ⟨around.1, around.2, inserted.ends, extends_insert t around.1⟩

/-- What unification without the test ends in has grown. -/
theorem WalksEnd.unifyWithin_grown (ends : s.WalksEnd) (depth : Nat) (a b : Term) :
    following.Related (Option.Rel fun next other => next = other ∧ Grown s next)
      (unifyWithin .disabled depth s a b) (unifyWithin .disabled depth s a b) := by
  induction depth generalizing s a b with
  | zero => exact nofun
  | succ depth ih =>
      rw [unifyWithin_succ]
      apply following.unifyRound (fun _ => rfl) ⟨rfl, .refl ends⟩
      · intro v t meets
        rw [bindVar_unchecked meets.1 (ends.bindVar meets).2.1 meets.2.1]
        rintro _ ⟨⟩
        exact ⟨_, rfl, .some ⟨rfl, (ends.bindVar meets).2.2⟩⟩
      · intro f as bs _ _
        apply following.unifyPairs ⟨rfl, .refl ends⟩
        rintro later _ ⟨rfl, grown⟩ x _ y _
        apply following.mono_rel (ih grown.ends x y)
        exact fun _ _ both => ⟨both.1, grown.trans both.2⟩

theorem WalksEnd.unifyPairs_grown (ends : s.WalksEnd) {depth : Nat} {result : Option Substitution}
    (ended : Bindings.unifyPairs (unifyWithin .disabled depth) s as bs = .ok result) :
    ∀ next, result = some next → Grown s next := by
  have related : following.Related (Option.Rel fun next other => next = other ∧ Grown s next)
      (Bindings.unifyPairs (unifyWithin .disabled depth) s as bs)
      (Bindings.unifyPairs (unifyWithin .disabled depth) s as bs) := by
    apply following.unifyPairs ⟨rfl, .refl ends⟩
    rintro later _ ⟨rfl, grown⟩ x _ y _
    apply following.mono_rel (grown.ends.unifyWithin_grown depth x y)
    exact fun _ _ both => ⟨both.1, grown.trans both.2⟩
  rintro next rfl
  obtain ⟨_, _, holds⟩ := related _ ended
  cases holds with
  | some both => exact both.2

/-! ## Beside each other -/

/-- What the attempt without the test comes to, and what the one with it does: both fail, both
end in the same bindings, or those of the first have a cycle and the second fails. -/
inductive Agree (s : Substitution) : Option Substitution → Option Substitution → Prop where
  | fails : Agree s none none
  | same {next : Substitution} (acyclic : next.Acyclic) (extended : next.Extends s) :
      Agree s (some next) (some next)
  | cyclic {next : Substitution} (cyclic : ¬ next.Acyclic) : Agree s (some next) none

theorem Agree.iff {result found : Option Substitution} (agree : Agree s result found) :
    ∀ next, found = some next ↔ result = some next ∧ next.Acyclic := by
  intro next
  cases agree with
  | fails => simp
  | same acyclic _ =>
      constructor
      · rintro ⟨⟩
        exact ⟨rfl, acyclic⟩
      · exact fun both => both.1
  | cyclic cyclic =>
      constructor
      · exact nofun
      · rintro ⟨⟨⟩, acyclic⟩
        exact absurd acyclic cyclic

theorem Agree.of_extends {result found : Option Substitution} (extended : next.Extends s)
    (agree : Agree next result found) : Agree s result found := by
  cases agree with
  | fails => exact .fails
  | same acyclic further => exact .same acyclic (further.trans extended)
  | cyclic cyclic => exact .cyclic cyclic

theorem bindVar_agree (acyclic : s.Acyclic) (meets : Bindings.Meets s.walk a b v t) :
    following.Related (Agree s) ((store .disabled).bindVar s v t)
      ((store .enabled).bindVar s v t) := by
  obtain ⟨unbound, walked, grown⟩ := acyclic.walksEnd.bindVar meets
  rw [bindVar_unchecked meets.1 walked meets.2.1,
    bindVar_enabled acyclic meets.1 walked meets.2.1]
  rintro _ ⟨⟩
  refine ⟨_, rfl, ?_⟩
  have tied := acyclic_insert_iff (t := t) acyclic unbound
  cases inside : (s.resolve t).mentions v with
  | false => exact .same (tied.mpr inside) grown.extended
  | true => exact .cyclic fun acyclicNext => by simp [tied.mp acyclicNext] at inside

theorem unifyPairs_agree {depth : Nat}
    (agree : ∀ {s : Substitution}, s.Acyclic → ∀ a b, following.Related (Agree s)
      (unifyWithin .disabled depth s a b) (unifyWithin .enabled depth s a b)) :
    ∀ {s : Substitution} {as bs : List Term}, s.Acyclic → following.Related (Agree s)
      (Bindings.unifyPairs (unifyWithin .disabled depth) s as bs)
      (Bindings.unifyPairs (unifyWithin .enabled depth) s as bs)
  | s, [], _, acyclic => following.pure (.same acyclic (.refl s))
  | s, _ :: _, [], acyclic => following.pure (.same acyclic (.refl s))
  | s, a :: as, b :: bs, acyclic => by
      intro last ended
      rw [Bindings.unifyPairs] at ended ⊢
      cases first : unifyWithin .disabled depth s a b with
      | error e =>
          rw [first] at ended
          cases ended
      | ok result =>
          obtain ⟨found, checked, agreed⟩ := agree acyclic a b result first
          rw [first] at ended
          rw [checked]
          cases agreed with
          | fails =>
              cases ended
              exact ⟨none, rfl, .fails⟩
          | same acyclicNext extended =>
              obtain ⟨found, again, agreed⟩ := unifyPairs_agree agree acyclicNext last ended
              exact ⟨found, again, agreed.of_extends extended⟩
          | @cyclic next cyclic =>
              -- The attempt without the test goes on from a cycle, and keeps it.
              refine ⟨none, rfl, ?_⟩
              have grown := (acyclic.walksEnd.unifyWithin_grown depth a b) _ first
              obtain ⟨_, _, holds⟩ := grown
              cases holds with
              | some both =>
                  cases last with
                  | none => exact .fails
                  | some last =>
                      have further := both.2.ends.unifyPairs_grown ended last rfl
                      exact .cyclic fun acyclicLast =>
                        cyclic (acyclicLast.of_extends further.extended)

theorem unifyWithin_agree (depth : Nat) (acyclic : s.Acyclic) (a b : Term) :
    following.Related (Agree s) (unifyWithin .disabled depth s a b)
      (unifyWithin .enabled depth s a b) := by
  induction depth generalizing s a b with
  | zero => exact nofun
  | succ depth ih =>
      have walks : ∀ t, (store .enabled).walk s t = (store .disabled).walk s t := fun _ => rfl
      rw [unifyWithin_succ, unifyWithin_succ]
      apply Bindings.unifyRound_abreast _ _ (motive := following.Related (Agree s)) walks
      · exact fun _ => following.pure (.same acyclic (.refl s))
      · exact fun _ => following.pure (.same acyclic (.refl s))
      · exact fun v t meets => bindVar_agree acyclic meets
      · exact fun f as bs _ _ _ => unifyPairs_agree ih acyclic
      · exact fun _ => following.pure .fails

/-- Where unification ends without the occurrence test, it ends with it, in the same bindings
if they have no cycle, and it fails if they have one. -/
theorem unify_checked_iff (acyclic : s.Acyclic) {result : Option Substitution}
    (ended : s.unify .disabled a b = .ok result) :
    ∃ checked, s.unify .enabled a b = .ok checked ∧
      (∀ next, checked = some next ↔ result = some next ∧ next.Acyclic) ∧
      (result = none → checked = none) := by
  rw [unify_eq] at ended ⊢
  obtain ⟨checked, endedToo, agree⟩ := unifyWithin_agree _ acyclic a b result ended
  refine ⟨checked, endedToo, agree.iff, ?_⟩
  rintro rfl
  cases agree
  rfl

/-- A binding that ties a cycle through one that was there. -/
theorem unify_checked_iff_tied :
    let x := Var.numbered 1
    let y := Var.numbered 2
    let s := empty.insert x (.tuple [.var y])
    s.Acyclic ∧ s.unify .disabled (.var y) (.tuple [.var x]) =
        .ok (some (s.insert y (.tuple [.var x]))) ∧
      s.unify .enabled (.var y) (.tuple [.var x]) = .ok none := by
  intro x y s
  have acyclic : s.Acyclic :=
    (acyclic_insert_iff acyclic_empty (lookup_empty x)).mpr rfl
  have unbound : s.lookup y = none := by simp [s, x, y, lookup_insert]
  have ended : s.unify .disabled (.var y) (.tuple [.var x]) =
      .ok (some (s.insert y (.tuple [.var x]))) := rfl
  obtain ⟨checked, endedToo, same, _⟩ := unify_checked_iff acyclic ended
  refine ⟨acyclic, ended, ?_⟩
  cases checked with
  | none => exact endedToo
  | some next =>
      obtain ⟨⟨⟩, acyclicNext⟩ := (same next).mp rfl
      have binds : s.Binds x y := ⟨.tuple [.var y], by simp [s, lookup_insert], by decide⟩
      have reached : s.Reaches (.tuple [.var x]) y := ⟨x, by decide, .single binds⟩
      exact absurd acyclicNext (not_acyclic_insert unbound reached)

end RelationalSolver.Substitution
