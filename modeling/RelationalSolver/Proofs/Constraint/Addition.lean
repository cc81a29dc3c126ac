import RelationalSolver.Proofs.Constraint.Indexing
import RelationalSolver.Proofs.Constraint.Quiescence

/-!
# One constraint more

Two stores hold the same constraints, but for one that only the first of them holds or has
already dropped.  Settled side by side they go on to do so, unless the additional constraint is
violated: constraints are decided one by one, and none looks at another.
-/

namespace RelationalSolver

open Substitution Constraint

namespace ConstraintStore

variable {s before after : Substitution} {store other next nextOther : ConstraintStore}
variable {k id i j : Nat} {ids idsOther : List Nat} {c d : Constraint} {v : Var} {t : Term}
variable {vars follow : List Var} {verdict : Verdict}

/-! ## All ids but one -/

/-- The ids other than one, counted in order. -/
def skip (k id : Nat) : Nat := if id < k then id else id + 1

theorem skip_lt_skip : skip k i < skip k j ↔ i < j := by
  unfold skip
  split <;> split <;> omega

theorem skip_inj : skip k i = skip k j ↔ i = j := by
  unfold skip
  split <;> split <;> omega

theorem skip_ne (k i : Nat) : skip k i ≠ k := by
  unfold skip
  split <;> omega

theorem skip_of_le (later : k ≤ i) : skip k i = i + 1 := if_neg (Nat.not_lt.mpr later)

theorem exists_skip (different : id ≠ k) : ∃ i, skip k i = id := by
  by_cases before : id < k
  · exact ⟨id, if_pos before⟩
  · refine ⟨id - 1, ?_⟩
    rw [skip_of_le (by omega)]
    omega

/-- The second store holds what the first one holds but for what stands under one id, which it
has not given out, and this waits for the same variables. -/
structure Beside (k : Nat) (store other : ConstraintStore) : Prop where
  ordered : store.Ordered
  orderedOther : other.Ordered
  nextId : store.nextId = other.nextId + 1
  later : k ≤ other.nextId
  entries : ∀ id, store.get? (skip k id) = other.get? id
  waits : ∀ id v, skip k id ∈ store.idsFor v ↔ id ∈ other.idsFor v

namespace Beside

theorem skip_nextId (beside : Beside k store other) : skip k other.nextId = store.nextId := by
  rw [skip_of_le beside.later, beside.nextId]

theorem nextId_ne (beside : Beside k store other) : store.nextId ≠ k :=
  beside.skip_nextId ▸ skip_ne k other.nextId

/-- The same ids wait for a variable, in the same order. -/
theorem idsFor (beside : Beside k store other) (v : Var) :
    (store.idsFor v).filter (· ≠ k) = (other.idsFor v).map (skip k) := by
  apply ((beside.ordered.increasing v).filter _).eq_of_mem_iff
  · exact (beside.orderedOther.increasing v).map _ fun _ _ => skip_lt_skip.mpr
  · intro id
    rw [List.mem_filter, List.mem_map, decide_eq_true_eq]
    constructor
    · rintro ⟨member, different⟩
      obtain ⟨i, rfl⟩ := exists_skip different
      exact ⟨i, (beside.waits i v).mp member, rfl⟩
    · rintro ⟨i, member, rfl⟩
      exact ⟨(beside.waits i v).mpr member, skip_ne k i⟩

/-- A constraint is added to one of two equal stores. -/
theorem start (ordered : store.Ordered) (c : Constraint) (vars : List Var) :
    Beside store.nextId (store.insert c vars).1 store where
  ordered := ordered.insert c vars
  orderedOther := ordered
  nextId := nextId_insert
  later := le_rfl
  entries id := by
    rw [get?_insert, if_neg (Ne.symm (skip_ne _ id))]
    unfold skip
    split
    · rfl
    · rename_i beyond
      have absent : ∀ other, store.nextId ≤ other → store.get? other = none := by
        intro other late
        cases found : store.get? other with
        | none => rfl
        | some c =>
            have := ordered.numbered found
            omega
      rw [absent id (by omega), absent (id + 1) (by omega)]
  waits id v := by
    rw [mem_idsFor_insert]
    simp only [skip_ne, false_and, or_false]
    unfold skip
    split
    · rfl
    · rename_i beyond
      have absent : ∀ other, store.nextId ≤ other → other ∉ store.idsFor v := by
        intro other late member
        have := ordered.waiting member
        omega
      simp [absent id (by omega), absent (id + 1) (by omega)]

/-- A constraint is added to both stores. -/
theorem insert (beside : Beside k store other) (d : Constraint) (vars : List Var) :
    Beside k (store.insert d vars).1 (other.insert d vars).1 where
  ordered := beside.ordered.insert d vars
  orderedOther := beside.orderedOther.insert d vars
  nextId := by rw [nextId_insert, nextId_insert, beside.nextId]
  later := by
    rw [nextId_insert]
    exact beside.later.trans (Nat.le_succ _)
  entries id := by
    rw [get?_insert, get?_insert, ← beside.skip_nextId, beside.entries]
    simp only [skip_inj]
  waits id v := by
    rw [mem_idsFor_insert, mem_idsFor_insert, beside.waits, ← beside.skip_nextId, skip_inj]

/-- A verdict on the additional constraint is none of the other store's business. -/
theorem alone (beside : Beside k store other) (found : store.get? k = some d)
    (kept : store.afterVerdict k follow verdict = some next) : Beside k next other := by
  have revises := beside.ordered.revises found kept
  refine ⟨beside.ordered.afterVerdict found kept, beside.orderedOther, ?_, beside.later, ?_, ?_⟩
  · rw [revises.nextId, beside.nextId]
  · intro id
    rw [revises.others _ (skip_ne k id), beside.entries]
  · intro id v
    rw [revises.othersWait _ (skip_ne k id), beside.waits]

/-- The same verdict on a constraint that both stores hold leaves the same of it. -/
theorem both (beside : Beside k store other) (found : other.get? id = some d)
    (kept : store.afterVerdict (skip k id) follow verdict = some next)
    (keptOther : other.afterVerdict id follow verdict = some nextOther) :
    Beside k next nextOther := by
  have foundFirst : store.get? (skip k id) = some d := (beside.entries id).trans found
  have revises := beside.ordered.revises foundFirst kept
  have revisesOther := beside.orderedOther.revises found keptOther
  refine ⟨beside.ordered.afterVerdict foundFirst kept,
    beside.orderedOther.afterVerdict found keptOther, ?_, ?_, ?_, ?_⟩
  · rw [revises.nextId, revisesOther.nextId, beside.nextId]
  · rw [revisesOther.nextId]
    exact beside.later
  · intro i
    by_cases same : i = id
    · rw [same, revises.held, revisesOther.held]
    · rw [revises.others _ (mt skip_inj.mp same), revisesOther.others i same, beside.entries]
  · intro i v
    by_cases same : i = id
    · rw [same, revises.waits, revisesOther.waits, beside.waits]
    · rw [revises.othersWait _ (mt skip_inj.mp same), revisesOther.othersWait i same, beside.waits]

end Beside

/-! ## What is left of the additional constraint -/

/-- What is stored stands for the constraint, under the assignments given; if nothing is, they
satisfy it. -/
def StandsFor (Θ : Set Assignment) (c : Constraint) : Option Constraint → Prop
  | some d => d.Proper ∧ ∀ θ ∈ Θ, (d.Holds θ ↔ c.Holds θ)
  | none => ∀ θ ∈ Θ, c.Holds θ

theorem StandsFor.mono {Θ Ψ : Set Assignment} {held : Option Constraint}
    (stands : StandsFor Θ c held) (fewer : Ψ ⊆ Θ) : StandsFor Ψ c held := by
  cases held with
  | some d => exact ⟨stands.1, fun θ member => stands.2 θ (fewer member)⟩
  | none => exact fun θ member => stands θ (fewer member)

theorem StandsFor.afterVerdict (stands : StandsFor s.solutions c (some d))
    (judged : Judged Proper s d verdict) (different : verdict ≠ .violated) :
    StandsFor s.solutions c (verdict.leaves d) := by
  obtain ⟨proper, same⟩ := stands
  cases verdict with
  | violated => exact absurd rfl different
  | satisfied => exact fun θ solves => (same θ solves).mp (judged proper.isGuard_eq θ solves)
  | simplified simpler =>
      obtain ⟨properSimpler, _, _, _, _, sameSimpler⟩ := judged
      exact ⟨properSimpler, fun θ solves => (sameSimpler θ solves).trans (same θ solves)⟩
  | pending => exact ⟨proper, same⟩

/-- The stores hold the same constraints, but for what stands for an additional one under an
id of the first store.  This waits for what its variables reached before, and unless it remains
to be settled, it is at rest. -/
structure Joined (c : Constraint) (k : Nat) (before after : Substitution) (remaining : List Nat)
    (store other : ConstraintStore) : Prop where
  beside : Beside k store other
  stands : StandsFor after.solutions c (store.get? k)
  state : store.Rests after k ∨ (k ∈ remaining ∧ store.Watched before k)

namespace Joined

theorem rests (joined : Joined c k before after [] store other) : store.Rests after k :=
  joined.state.resolve_right fun impossible => List.not_mem_nil impossible.1

/-- Once nothing remains to be settled, the bindings of now take the place of those of before. -/
theorem renew (joined : Joined c k before after [] store other) :
    Joined c k after after [] store other :=
  ⟨joined.beside, joined.stands, .inl joined.rests⟩

/-- What is at rest can still be met. -/
theorem exists_holds (joined : Joined c k before after [] store other) (acyclic : after.Acyclic)
    (plain : after.WildcardFree) : ∃ θ ∈ after.solutions, c.Holds θ := by
  have stands := joined.stands
  cases found : store.get? k with
  | none =>
      rw [found] at stands
      exact ⟨_, resolution_mem acyclic, stands _ (resolution_mem acyclic)⟩
  | some d =>
      rw [found] at stands
      obtain ⟨proper, same⟩ := stands
      obtain ⟨verdict, judged, returned⟩ := (family_proper.judged acyclic plain proper).exists
      rw [joined.rests.2 d found] at returned
      cases returned
      obtain ⟨θ, solves, holds⟩ := judged.exists_holds acyclic proper.isGuard_eq (by simp)
      exact ⟨θ, solves, (same θ solves).mp holds⟩

/-- A verdict puts the additional constraint to rest. -/
theorem settle_own (joined : Joined c k before after (k :: ids) store other)
    (follows : Follows before after follow) (found : store.get? k = some d)
    (judged : Judged Proper after d verdict) (evaluated : d.evaluate .enabled after = .ok verdict)
    (kept : store.afterVerdict k follow verdict = some next) :
    Joined c k before after ids next other := by
  refine ⟨joined.beside.alone found kept, ?_, .inl ?_⟩
  · have different : verdict ≠ .violated := by
      rintro rfl
      cases kept
    rw [(joined.beside.ordered.revises found kept).held]
    exact (found ▸ joined.stands).afterVerdict judged different
  · rcases joined.state with rests | ⟨_, watched⟩
    · exact rests_afterVerdict rests.1 (.refl after follow) found evaluated kept
    · exact rests_afterVerdict watched follows found evaluated kept

theorem skip_own (joined : Joined c k before after (k :: ids) store other)
    (absent : store.get? k = none) : Joined c k before after ids store other := by
  refine ⟨joined.beside, joined.stands, .inl ?_⟩
  constructor <;> intro d stored <;> rw [absent] at stored <;> cases stored

/-- Settling another constraint leaves the additional one alone. -/
theorem settle_other (joined : Joined c k before after (id :: ids) store other) (different : id ≠ k)
    (untouched : Untouched store next k) (beside : Beside k next nextOther) :
    Joined c k before after ids next nextOther := by
  refine ⟨beside, ?_, ?_⟩
  · rw [untouched.kept]
    exact joined.stands
  · rcases joined.state with rests | ⟨member, watched⟩
    · exact .inl (untouched.rests rests)
    · exact .inr ⟨List.mem_of_ne_of_mem (Ne.symm different) member, untouched.watched watched⟩

end Joined

/-! ## Side by side -/

/-- Both computations give results that are related; or the first gives none, and if the second
gives one all the same, then all is lost. -/
def Tracking {α β : Type} (R : α → β → Prop) (lost : Prop) (x : Except Unending (Option α))
    (y : Except Unending (Option β)) : Prop :=
  (∃ a b, R a b ∧ x = .ok (some a) ∧ y = .ok (some b)) ∨
  ((∀ a, x ≠ .ok (some a)) ∧ ∀ b, y = .ok (some b) → lost)

namespace Tracking

variable {α β : Type} {R S : α → β → Prop} {lost : Prop} {x : Except Unending (Option α)}
variable {y : Except Unending (Option β)}

theorem intro {a : α} {b : β} (related : R a b) :
    Tracking R lost (.ok (some a)) (.ok (some b)) := .inl ⟨a, b, related, rfl, rfl⟩

/-- Related results are gone on from. -/
theorem bind {f : Option α → Except Unending (Option α)}
    {g : Option β → Except Unending (Option β)} (tracking : Tracking R lost x y)
    (rest : ∀ a b, R a b → Tracking S lost (f (some a)) (g (some b))) (stops : f none = .ok none)
    (stopsOther : g none = .ok none) : Tracking S lost (x >>= f) (y >>= g) := by
  rcases tracking with ⟨a, b, related, rfl, rfl⟩ | ⟨fails, loses⟩
  · exact rest a b related
  · right
    constructor
    · intro last given
      obtain ⟨result, first, later⟩ := ok_of_bind given
      cases result with
      | none => cases stops.symm.trans later
      | some a => exact fails a first
    · intro last given
      obtain ⟨result, first, later⟩ := ok_of_bind given
      cases result with
      | none => cases stopsOther.symm.trans later
      | some b => exact loses b first

end Tracking

/-- The additional constraint is settled, unless it is violated. -/
theorem settleOne_own (acyclic : after.Acyclic) (plain : after.WildcardFree)
    (follows : Follows before after follow)
    (joined : Joined c k before after (k :: ids) store other) :
    Tracking (Joined c k before after ids) (∀ θ ∈ after.solutions, ¬ c.Holds θ)
      (settleOne after follow store k) (.ok (some other)) := by
  cases found : store.get? k with
  | none =>
      rw [settleOne_absent found]
      exact .intro (joined.skip_own found)
  | some d =>
      obtain ⟨proper, same⟩ := found ▸ joined.stands
      obtain ⟨verdict, judged, evaluated⟩ := (family_proper.judged acyclic plain proper).exists
      rw [settleOne_found found, evaluated]
      change Tracking _ _ (.ok (store.afterVerdict k follow verdict)) _
      cases kept : store.afterVerdict k follow verdict with
      | none =>
          cases afterVerdict_eq_none.mp kept
          refine .inr ⟨by simp, fun _ _ θ solves holds => ?_⟩
          exact judged θ solves ((same θ solves).mpr holds)
      | some next => exact .intro (joined.settle_own follows found judged evaluated kept)

/-- A constraint that both stores hold is settled in both alike. -/
theorem settleOne_other {lost : Prop}
    (joined : Joined c k before after (skip k i :: ids) store other) :
    Tracking (Joined c k before after ids) lost (settleOne after follow store (skip k i))
      (settleOne after follow other i) := by
  have different := skip_ne k i
  have same := joined.beside.entries i
  cases found : other.get? i with
  | none =>
      rw [found] at same
      rw [settleOne_absent same, settleOne_absent found]
      exact .intro (joined.settle_other different ⟨rfl, fun _ => id⟩ joined.beside)
  | some d =>
      rw [found] at same
      rw [settleOne_found same, settleOne_found found]
      cases d.evaluate .enabled after with
      | error e => exact .inr ⟨nofun, nofun⟩
      | ok verdict =>
          change Tracking _ _ (.ok (store.afterVerdict (skip k i) follow verdict))
            (.ok (other.afterVerdict i follow verdict))
          by_cases violated : verdict = .violated
          · subst violated
            exact .inr ⟨nofun, nofun⟩
          · obtain ⟨next, kept⟩ := exists_afterVerdict store (skip k i) follow violated
            obtain ⟨nextOther, keptOther⟩ := exists_afterVerdict other i follow violated
            rw [kept, keptOther]
            exact .intro (joined.settle_other different (untouched_afterVerdict different kept)
              (joined.beside.both found kept keptOther))

/-- Settled side by side, the stores go on to hold the same constraints but for the additional
one, unless this is violated. -/
theorem settleEach_tracking (acyclic : after.Acyclic) (plain : after.WildcardFree)
    (follows : Follows before after follow) : ∀ {ids idsOther : List Nat}
      {store other : ConstraintStore}, Joined c k before after ids store other →
      ids.filter (· ≠ k) = idsOther.map (skip k) →
      Tracking (Joined c k after after []) (∀ θ ∈ after.solutions, ¬ c.Holds θ)
        (settleEach after follow store ids) (settleEach after follow other idsOther)
  | [], idsOther, store, other, joined, alike => by
      obtain rfl : idsOther = [] := List.map_eq_nil_iff.mp alike.symm
      exact .intro joined.renew
  | id :: ids, idsOther, store, other, joined, alike => by
      by_cases own : id = k
      · obtain rfl : k = id := own.symm
        rw [List.filter_cons_of_neg (by simp)] at alike
        change Tracking _ _ _ (.ok (some other) >>= fun result =>
          result.elim (.ok none) (settleEach after follow · idsOther))
        apply (settleOne_own acyclic plain follows joined).bind
        · exact fun next nextOther settled =>
            settleEach_tracking acyclic plain follows settled alike
        · rfl
        · rfl
      · rw [List.filter_cons_of_pos (by simpa using own)] at alike
        obtain ⟨i, idsOther, rfl, rfl, later⟩ := List.map_eq_cons_iff.mp alike.symm
        apply (settleOne_other joined).bind
        · exact fun next nextOther settled =>
            settleEach_tracking acyclic plain follows settled later.symm
        · rfl
        · rfl

/-! ## Operations -/

/-- After a binding, what waits for the variable remains to be settled. -/
theorem Joined.insert_binding (joined : Joined c k s s [] store other) (acyclic : s.Acyclic)
    (acyclicNext : (s.insert v t).Acyclic) (plain : s.WildcardFree) (named : v ≠ .wildcard)
    (unbound : s.lookup v = none) :
    Joined c k s (s.insert v t) (store.idsFor v) store other := by
  refine ⟨joined.beside, ?_, ?_⟩
  · exact joined.stands.mono (solutions_subset_of_extends (extends_insert t unbound))
  · by_cases waits : k ∈ store.idsFor v
    · exact .inr ⟨waits, joined.rests.1⟩
    · exact .inl (joined.rests.insert acyclic acyclicNext plain.lookup_wildcard named unbound waits)

/-- After the same binding, both stores are settled. -/
theorem Joined.tracking_binding (joined : Joined c k s s [] store other) (acyclic : s.Acyclic)
    (acyclicNext : (s.insert v t).Acyclic) (plain : s.WildcardFree)
    (plainNext : (s.insert v t).WildcardFree) (named : v ≠ .wildcard)
    (unbound : s.lookup v = none) :
    Tracking (Joined c k (s.insert v t) (s.insert v t) [])
      (∀ θ ∈ (s.insert v t).solutions, ¬ c.Holds θ)
      (settleEach (s.insert v t) ((s.insert v t).freeVars t) store (store.idsFor v))
      (settleEach (s.insert v t) ((s.insert v t).freeVars t) other (other.idsFor v)) :=
  settleEach_tracking acyclicNext plainNext (follows_insert acyclic acyclicNext unbound)
    (joined.insert_binding acyclic acyclicNext plain named unbound) (joined.beside.idsFor v)

/-- After the same constraint is added, both stores are settled. -/
theorem Joined.tracking_insert (joined : Joined c k s s [] store other) (acyclic : s.Acyclic)
    (plain : s.WildcardFree) (d : Constraint) (vars : List Var) :
    Tracking (Joined c k s s []) (∀ θ ∈ s.solutions, ¬ c.Holds θ)
      (settleEach s [] (store.insert d vars).1 [store.nextId])
      (settleEach s [] (other.insert d vars).1 [other.nextId]) := by
  have different := joined.beside.nextId_ne
  have untouched : Untouched store (store.insert d vars).1 k := untouched_insert different
  have inserted : Joined c k s s [store.nextId] (store.insert d vars).1 (other.insert d vars).1 :=
    { beside := joined.beside.insert d vars
      stands := untouched.kept ▸ joined.stands
      state := .inl (untouched.rests joined.rests) }
  apply settleEach_tracking acyclic plain (.refl s []) inserted
  rw [List.filter_cons_of_pos (by simpa using different), List.map_cons,
    joined.beside.skip_nextId]
  rfl

/-- A constraint that waits for what its variables reach is added to one of two equal stores
and settled there. -/
theorem tracking_start (ordered : store.Ordered) (acyclic : s.Acyclic) (plain : s.WildcardFree)
    (proper : c.Proper) (waits : ∀ v ∈ c.vars, ∀ w, w ≠ .wildcard →
      (s.resolve (.var v)).mentions w = true → w ∈ vars) :
    Tracking (Joined c store.nextId s s []) (∀ θ ∈ s.solutions, ¬ c.Holds θ)
      (settleEach s [] (store.insert c vars).1 [store.nextId]) (.ok (some store)) := by
  have found : (store.insert c vars).1.get? store.nextId = some c := by
    rw [get?_insert, if_pos rfl]
  have watched : (store.insert c vars).1.Watched s store.nextId := by
    intro d stored
    rw [found] at stored
    cases stored
    refine ⟨proper.comparing, ?_⟩
    intro v member w named reached
    exact mem_idsFor_insert.mpr (.inr ⟨rfl, waits v member w named reached, named⟩)
  have started : Joined c store.nextId s s [store.nextId] (store.insert c vars).1 store := by
    refine ⟨.start ordered c vars, ?_, .inr ⟨List.mem_singleton_self _, watched⟩⟩
    rw [found]
    exact ⟨proper, fun _ _ => Iff.rfl⟩
  have only : [store.nextId].filter (· ≠ store.nextId) = [].map (skip store.nextId) := by simp
  exact settleEach_tracking acyclic plain (.refl s []) started only

end ConstraintStore

end RelationalSolver
