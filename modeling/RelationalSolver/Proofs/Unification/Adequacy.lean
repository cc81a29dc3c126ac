import Mathlib.Data.Finset.Prod
import RelationalSolver.Proofs.Unification.Lockstep
import RelationalSolver.Proofs.Unification.Unchecked

/-!
# Enough rounds without the occurrence test

Without the occurrence test unification may have no end.  If it ends at some depth, it ends
within the rounds that are allowed: rounds nested in each other without a binding in between
compare different pairs of nodes, and no more variables get bound than there are nodes.  So
substitutions that walk alike agree on whether unification ends, and on what it ends in.
-/

namespace RelationalSolver.Substitution

open Coupling

variable {check : OccursCheck} {s next other : Substitution} {v : Var} {a b t : Term}
variable {nodes : Finset Term}

/-! ## More depth -/

theorem following_refl {α : Type} (x : Except Unending (Option α)) :
    following.Related (Option.Rel Eq) x x := by
  intro result ended
  refine ⟨result, ended, ?_⟩
  cases result with
  | none => exact .none
  | some next => exact .some rfl

theorem eq_of_rel_eq {α : Type} {x y : Option α} (same : Option.Rel Eq x y) : x = y := by
  cases same with
  | some same => exact congrArg some same
  | none => rfl

/-- What ends within some depth ends alike within every greater one. -/
theorem unifyWithin_deeper {depth more : Nat} (less : depth ≤ more) (s : Substitution)
    (a b : Term) : following.Related (Option.Rel Eq) (unifyWithin check depth s a b)
      (unifyWithin check more s a b) := by
  induction depth generalizing more s a b with
  | zero => exact nofun
  | succ depth ih =>
      obtain ⟨more, rfl⟩ := Nat.exists_eq_succ_of_ne_zero (Nat.ne_zero_of_lt less)
      rw [unifyWithin_succ, unifyWithin_succ]
      apply following.unifyRound (fun _ => rfl) rfl
      · exact fun v t _ => following_refl _
      · intro f as bs _ _
        apply following.unifyPairs rfl
        rintro later _ rfl x _ y _
        exact ih (Nat.le_of_succ_le_succ less) later x y

theorem unifyWithin_eq_ok_of_le {depth more : Nat} (less : depth ≤ more)
    {result : Option Substitution} (ended : unifyWithin check depth s a b = .ok result) :
    unifyWithin check more s a b = .ok result := by
  obtain ⟨found, again, same⟩ := unifyWithin_deeper less s a b result ended
  rw [again, eq_of_rel_eq same]

/-- A variable that meets a walked term is bound to it in substitutions that walk alike. -/
theorem Matches.bindVar_unchecked (alike : s.Matches other)
    (meets : Bindings.Meets s.walk a b v t) :
    (store .disabled).bindVar s v t = .ok (some (s.insert v t)) ∧
      (store .disabled).bindVar other v t = .ok (some (other.insert v t)) ∧
      (s.insert v t).Matches (other.insert v t) := by
  obtain ⟨named, different, ends⟩ := meets
  have walked : s.Walked t := by
    rcases ends with ⟨_, rfl⟩ | ⟨_, rfl⟩
    · exact alike.ends b
    · exact alike.ends a
  have unbound : s.lookup v = none := by
    rcases ends with ⟨atVar, _⟩ | ⟨atVar, _⟩
    · exact alike.ends a v atVar
    · exact alike.ends b v atVar
  exact ⟨Substitution.bindVar_unchecked named walked different,
    Substitution.bindVar_unchecked named (alike.walked walked) different,
    alike.insert unbound walked different⟩

/-- Unification without the test goes the same way in substitutions that walk alike. -/
theorem Matches.unifyWithin_unchecked (alike : s.Matches other) (depth : Nat) (a b : Term) :
    Coupling.alike.Related (Option.Rel Matches) (unifyWithin .disabled depth s a b)
      (unifyWithin .disabled depth other a b) := by
  induction depth generalizing s other a b with
  | zero => exact .inr ⟨rfl, rfl⟩
  | succ depth ih =>
      rw [unifyWithin_succ]
      apply Coupling.alike.unifyRound alike.walk alike
      · intro v t meets
        obtain ⟨binds, bindsOther, inserted⟩ := alike.bindVar_unchecked meets
        exact .inl ⟨_, _, .some inserted, binds, bindsOther⟩
      · intro f as bs _ _
        exact Coupling.alike.unifyPairs alike fun later laterOther alikeLater x _ y _ =>
          ih alikeLater x y

/-! ## Enough depth -/

open Classical in
/-- Number of unbound variables among the nodes. -/
noncomputable def unboundIn (s : Substitution) (nodes : Finset Term) : Nat :=
  (nodes.filter fun t => ∃ v, t = .var v ∧ s.lookup v = none).card

theorem unboundIn_le (s : Substitution) (nodes : Finset Term) : s.unboundIn nodes ≤ nodes.card := by
  classical
  exact Finset.card_filter_le _ _

theorem unboundIn_insert_lt (unbound : s.lookup v = none) (member : .var v ∈ nodes) :
    (s.insert v t).unboundIn nodes < s.unboundIn nodes := by
  classical
  apply Finset.card_lt_card
  rw [Finset.ssubset_iff_of_subset]
  · refine ⟨.var v, Finset.mem_filter.mpr ⟨member, v, rfl, unbound⟩, ?_⟩
    intro still
    obtain ⟨_, w, same, free⟩ := Finset.mem_filter.mp still
    cases same
    rw [lookup_insert, if_pos rfl] at free
    cases free
  · intro x inside
    rw [Finset.mem_filter] at inside ⊢
    obtain ⟨member, w, rfl, free⟩ := inside
    refine ⟨member, w, rfl, ?_⟩
    rw [lookup_insert] at free
    split at free
    · cases free
    · exact free

/-- One substitution comes after another: it is the same, or more of its nodes are bound. -/
structure Proceeds (nodes : Finset Term) (s next : Substitution) : Prop where
  ends : next.WalksEnd
  stays : next.StaysIn nodes
  fewer : next = s ∨ next.unboundIn nodes < s.unboundIn nodes

theorem Proceeds.refl (ends : s.WalksEnd) (stays : s.StaysIn nodes) : Proceeds nodes s s :=
  ⟨ends, stays, .inl rfl⟩

theorem Proceeds.trans {last : Substitution} (first : Proceeds nodes s next)
    (second : Proceeds nodes next last) : Proceeds nodes s last where
  ends := second.ends
  stays := second.stays
  fewer := by
    rcases first.fewer with rfl | fewer
    · exact second.fewer
    · rcases second.fewer with rfl | still
      · exact .inr fewer
      · exact .inr (Nat.lt_trans still fewer)

theorem Proceeds.insert (ends : s.WalksEnd) (stays : s.StaysIn nodes) (left : a ∈ nodes)
    (right : b ∈ nodes) (meets : Bindings.Meets s.walk a b v t) :
    Proceeds nodes s (s.insert v t) := by
  have inserted := ((Matches.refl ends).bindVar_unchecked meets).2.2
  have around : .var v ∈ nodes ∧ t ∈ nodes ∧ s.lookup v = none := by
    have atLeft := walk_mem_nodes stays left
    have atRight := walk_mem_nodes stays right
    rcases meets.2.2 with ⟨atVar, rfl⟩ | ⟨atVar, rfl⟩
    · exact ⟨atVar ▸ atLeft, atRight, ends a v atVar⟩
    · exact ⟨atVar ▸ atRight, atLeft, ends b v atVar⟩
  exact ⟨inserted.ends, stays.insert around.2.1, .inr (unboundIn_insert_lt around.2.2 around.1)⟩

/-- The pairs that the rounds so far have compared since the last binding have no end at this
depth.  The steps that are left suffice for all other pairs, and for all pairs again after
every binding that can still be made. -/
structure Spent (nodes : Finset Term) (s : Substitution) (depth steps : Nat)
    (passed : Finset (Term × Term)) : Prop where
  among : passed ⊆ nodes ×ˢ nodes
  endless : ∀ pair ∈ passed, ∀ result,
    unifyWithin .disabled depth s pair.1 pair.2 ≠ .ok result
  enough : nodes.card * nodes.card * (s.unboundIn nodes + 1) ≤ steps + passed.card

namespace Spent

variable {depth steps : Nat} {passed : Finset (Term × Term)} {result : Option Substitution}

theorem none_passed (enough : nodes.card * nodes.card * (s.unboundIn nodes + 1) ≤ steps) :
    Spent nodes s depth steps ∅ where
  among := Finset.empty_subset _
  endless _ member := absurd member (Finset.notMem_empty _)
  enough := enough

theorem shallower (spent : Spent nodes s (depth + 1) steps passed) :
    Spent nodes s depth steps passed where
  among := spent.among
  endless pair member result ended :=
    spent.endless pair member result (unifyWithin_eq_ok_of_le depth.le_succ ended)
  enough := spent.enough

/-- A pair that ends was not compared before, so there is a step left for it. -/
theorem card_lt (spent : Spent nodes s depth steps passed) (left : a ∈ nodes) (right : b ∈ nodes)
    (ended : unifyWithin .disabled depth s a b = .ok result) :
    passed.card < nodes.card * nodes.card := by
  have new : (a, b) ∉ passed := fun member => spent.endless (a, b) member result ended
  have pair : (a, b) ∈ nodes ×ˢ nodes := Finset.mem_product.mpr ⟨left, right⟩
  rw [← Finset.card_product]
  exact Finset.card_lt_card (Finset.ssubset_iff_of_subset spent.among |>.mpr ⟨(a, b), pair, new⟩)

/-- A pair that ends no earlier is passed with one step. -/
theorem pass (spent : Spent nodes s (depth + 1) (steps + 1) passed) (left : a ∈ nodes)
    (right : b ∈ nodes) (ended : unifyWithin .disabled (depth + 1) s a b = .ok result)
    (notBefore : ∀ found, unifyWithin .disabled depth s a b ≠ .ok found) :
    Spent nodes s depth steps (Insert.insert (a, b) passed) where
  among := Finset.insert_subset (Finset.mem_product.mpr ⟨left, right⟩) spent.among
  endless pair member := by
    rcases Finset.mem_insert.mp member with rfl | before
    · exact notBefore
    · exact spent.shallower.endless pair before
  enough := by
    have new : (a, b) ∉ passed := fun member => spent.endless (a, b) member result ended
    have enough := spent.enough
    rw [Finset.card_insert_of_notMem new]
    omega

/-- After a binding all pairs may be compared again. -/
theorem afresh (spent : Spent nodes s depth (steps + 1) passed)
    (room : passed.card < nodes.card * nodes.card)
    (fewer : next.unboundIn nodes < s.unboundIn nodes) (depthNext : Nat) :
    Spent nodes next depthNext steps ∅ := by
  apply none_passed
  have enough := spent.enough
  have less := Nat.mul_le_mul_left (nodes.card * nodes.card)
    (show next.unboundIn nodes + 1 ≤ s.unboundIn nodes from fewer)
  rw [Nat.mul_succ] at enough
  omega

end Spent

/-- Unification without the test that ends at some depth ends alike within the steps. -/
theorem unifyWithin_adequate (closed : Term.ClosedUnderArgs nodes) {depth steps : Nat}
    {passed : Finset (Term × Term)} (spent : Spent nodes s depth steps passed)
    (ends : s.WalksEnd) (stays : s.StaysIn nodes) (left : a ∈ nodes) (right : b ∈ nodes) :
    following.Related (Option.Rel fun next nextOther =>
        next = nextOther ∧ Proceeds nodes s next)
      (unifyWithin .disabled depth s a b) (unifyWithin .disabled steps s a b) := by
  induction depth generalizing steps passed s a b with
  | zero => exact nofun
  | succ depth ih =>
      intro result ended
      by_cases earlier : ∃ found, unifyWithin .disabled depth s a b = .ok found
      · obtain ⟨found, before⟩ := earlier
        have same := unifyWithin_eq_ok_of_le depth.le_succ before
        rw [ended] at same
        cases same
        exact ih spent.shallower ends stays left right result before
      · have room := spent.card_lt left right ended
        have enough := spent.enough
        rw [Nat.mul_succ] at enough
        obtain ⟨steps, rfl⟩ : ∃ rest, steps = rest + 1 := ⟨steps - 1, by omega⟩
        have passing := spent.pass left right ended fun found before => earlier ⟨found, before⟩
        revert result
        rw [unifyWithin_succ, unifyWithin_succ]
        apply following.unifyRound (fun _ => rfl) ⟨rfl, .refl ends stays⟩
        · intro v t meets
          obtain ⟨binds, _, _⟩ := (Matches.refl ends).bindVar_unchecked meets
          rintro _ bound
          rw [binds] at bound ⊢
          cases bound
          exact ⟨_, rfl, .some ⟨rfl, .insert ends stays left right meets⟩⟩
        · intro f as bs walkedLeft walkedRight
          apply following.unifyPairs ⟨rfl, .refl ends stays⟩
          rintro later _ ⟨rfl, proceeds⟩ x inLeft y inRight
          have insideLeft : x ∈ nodes :=
            mem_nodes_of_descends closed stays left ⟨f, as, walkedLeft, inLeft⟩
          have insideRight : y ∈ nodes :=
            mem_nodes_of_descends closed stays right ⟨f, bs, walkedRight, inRight⟩
          have below : following.Related (Option.Rel fun next nextOther =>
                next = nextOther ∧ Proceeds nodes later next)
              (unifyWithin .disabled depth later x y)
              (unifyWithin .disabled steps later x y) := by
            rcases proceeds.fewer with rfl | fewer
            · exact ih passing proceeds.ends proceeds.stays insideLeft insideRight
            · exact ih (spent.afresh room fewer depth) proceeds.ends proceeds.stays insideLeft
                insideRight
          apply following.mono_rel below
          exact fun _ _ both => ⟨both.1, proceeds.trans both.2⟩

/-- Unification without the test that ends at some depth ends within the rounds that are
allowed. -/
theorem unify_adequate (ends : s.WalksEnd) {depth : Nat} {result : Option Substitution}
    (ended : unifyWithin .disabled depth s a b = .ok result) :
    s.unify .disabled a b = .ok result := by
  have small := s.card_sight_le [a, b]
  have fewer := s.unboundIn_le (s.sight [a, b])
  simp only [Term.sizes] at small
  have enough : (s.sight [a, b]).card * (s.sight [a, b]).card *
      (s.unboundIn (s.sight [a, b]) + 1) ≤ rounds (s.nodes + a.size + b.size) + shallow :=
    Nat.le_add_right_of_le
      (Nat.mul_le_mul (Nat.mul_le_mul (by omega) (by omega)) (by omega))
  rw [unify_eq]
  obtain ⟨found, within, holds⟩ := unifyWithin_adequate (s.closedUnderArgs_sight [a, b])
    (.none_passed enough) ends (s.staysIn_sight _) (mem_sight (by simp)) (mem_sight (by simp))
    result ended
  refine within.trans ?_
  cases holds with
  | none => rfl
  | some both => rw [both.1]

/-- Unification without the test ends in both of two substitutions that walk alike, and in
ones that walk alike, or it ends in neither. -/
theorem Matches.unify_unchecked (alike : s.Matches other) (a b : Term) :
    Coupling.alike.Related (Option.Rel Matches) (s.unify .disabled a b)
      (other.unify .disabled a b) := by
  have follow : ∀ {s other : Substitution}, s.Matches other → ∀ result,
      s.unify .disabled a b = .ok result → ∃ found, other.unify .disabled a b = .ok found ∧
        Option.Rel Matches result found := by
    intro s other alike result ended
    rw [unify_eq] at ended
    rcases alike.unifyWithin_unchecked _ a b with ⟨_, found, related, first, again⟩ | ⟨stuck, _⟩
    · rw [ended] at first
      cases first
      exact ⟨found, unify_adequate alike.endsOther again, related⟩
    · rw [ended] at stuck
      cases stuck
  cases ended : s.unify .disabled a b with
  | ok result =>
      obtain ⟨found, endedOther, related⟩ := follow alike result ended
      exact .inl ⟨result, found, related, rfl, endedOther⟩
  | error e =>
      cases endedOther : other.unify .disabled a b with
      | error e => exact .inr ⟨rfl, rfl⟩
      | ok found =>
          obtain ⟨result, again, _⟩ := follow alike.symm found endedOther
          rw [ended] at again
          cases again

end RelationalSolver.Substitution
