import Mathlib.Data.List.Sort
import RelationalSolver.Proofs.Constraint.Settlement

/-!
# The index in order

Ids wait for a variable in increasing order, each of them is listed with the variables that it
waits for, and none was used that has not been given out.  Every operation keeps this up.  So a
verdict changes what is stored under its own id and what that id waits for, and nothing else.
-/

namespace RelationalSolver

/-- What a verdict leaves of a constraint. -/
def Verdict.leaves (c : Constraint) : Verdict → Option Constraint
  | .satisfied => none
  | .violated => none
  | .simplified simpler => some simpler
  | .pending => some c

/-- The variables that a constraint goes on to wait for. -/
def Verdict.renews (follow : List Var) : Verdict → List Var
  | .satisfied => []
  | .violated => []
  | .simplified simpler => simpler.vars ++ follow
  | .pending => follow

namespace ConstraintStore

variable {store next : ConstraintStore} {id other : Nat} {ids : List Nat} {c : Constraint}
variable {v : Var} {vars follow : List Var} {verdict : Verdict}

theorem pairwise_insertId (increasing : ids.Pairwise (· < ·)) :
    (insertId id ids).Pairwise (· < ·) := by
  induction ids with
  | nil => exact List.pairwise_singleton _ _
  | cons first ids ih =>
      obtain ⟨least, rest⟩ := List.pairwise_cons.mp increasing
      unfold insertId
      split
      · rename_i before
        refine List.pairwise_cons.mpr ⟨?_, increasing⟩
        rw [List.forall_mem_cons]
        exact ⟨before, fun other member => before.trans (least other member)⟩
      · split
        · exact increasing
        · rename_i notBefore different
          refine List.pairwise_cons.mpr ⟨?_, ih rest⟩
          intro other member
          rcases mem_insertId.mp member with rfl | old
          · omega
          · exact least other old

/-- Ids wait in increasing order and are listed with what they wait for, and all ids in use
were given out. -/
structure Ordered (store : ConstraintStore) : Prop where
  increasing : ∀ v, (store.idsFor v).Pairwise (· < ·)
  listed : ∀ {id v}, id ∈ store.idsFor v → v ∈ store.varsFor id
  waiting : ∀ {id v}, id ∈ store.idsFor v → id < store.nextId
  numbered : ∀ {id c}, store.get? id = some c → id < store.nextId

theorem ordered_empty : empty.Ordered where
  increasing v := by simp [idsFor, empty]
  listed member := by simp [idsFor, empty] at member
  waiting member := by simp [idsFor, empty] at member
  numbered stored := by simp [get?, empty] at stored

namespace Ordered

theorem indexVar (ordered : store.Ordered) (given : id < store.nextId) :
    (indexVar id store v).Ordered := by
  by_cases anonymous : v = .wildcard
  · rw [ConstraintStore.indexVar, if_pos anonymous]
    exact ordered
  · have waits : ∀ {other w}, other ∈ (ConstraintStore.indexVar id store v).idsFor w →
        other ∈ store.idsFor w ∨ (other = id ∧ w = v) := by
      intro other w member
      exact (mem_idsFor_indexVar.mp member).imp_right fun new => ⟨new.1, new.2.1⟩
    constructor
    · intro w
      rw [idsFor_indexVar anonymous]
      split
      · exact pairwise_insertId (ordered.increasing w)
      · exact ordered.increasing w
    · intro other w member
      rw [varsFor_indexVar anonymous]
      split
      · rw [mem_appendNew]
        exact (waits member).imp ordered.listed And.right
      · rename_i different
        exact (waits member).elim ordered.listed fun new => absurd new.1.symm different
    · intro other w member
      rw [nextId_indexVar]
      rcases waits member with old | ⟨rfl, _⟩
      · exact ordered.waiting old
      · exact given
    · intro other c stored
      rw [get?_indexVar] at stored
      rw [nextId_indexVar]
      exact ordered.numbered stored

theorem indexUnder (ordered : store.Ordered) (given : id < store.nextId) (vars : List Var) :
    (store.indexUnder id vars).Ordered := by
  have both : (store.indexUnder id vars).Ordered ∧
      (store.indexUnder id vars).nextId = store.nextId := by
    apply indexUnder_induction (motive := fun later _ =>
      later.Ordered ∧ later.nextId = store.nextId)
    · refine ⟨⟨ordered.increasing, ?_, ordered.waiting, ordered.numbered⟩, rfl⟩
      intro other v member
      rw [varsFor_reserved]
      exact ordered.listed member
    · rintro later _ v ⟨orderedLater, same⟩
      exact ⟨orderedLater.indexVar (same ▸ given), nextId_indexVar.trans same⟩
  exact both.1

theorem withEntry (ordered : store.Ordered) (given : id < store.nextId) (c : Constraint) :
    Ordered { store with entries := store.entries.insert id c } := by
  refine ⟨ordered.increasing, ordered.listed, ordered.waiting, ?_⟩
  intro other d stored
  rw [get?, Std.TreeMap.getElem?_insert] at stored
  split at stored
  · rename_i same
    rw [← Std.LawfulEqCmp.eq_of_compare same]
    exact given
  · exact ordered.numbered stored

theorem insert (ordered : store.Ordered) (c : Constraint) (vars : List Var) :
    (store.insert c vars).1.Ordered := by
  have raised : Ordered { store with nextId := store.nextId + 1 } :=
    ⟨ordered.increasing, ordered.listed, fun member => Nat.lt_succ_of_lt (ordered.waiting member),
      fun stored => Nat.lt_succ_of_lt (ordered.numbered stored)⟩
  have given : store.nextId < store.nextId + 1 := Nat.lt_succ_self _
  exact (raised.withEntry given c).indexUnder given vars

theorem replace (ordered : store.Ordered) (given : id < store.nextId) (c : Constraint)
    (vars : List Var) : (store.replace id c vars).Ordered :=
  (ordered.withEntry given c).indexUnder given vars

/-- A dropped constraint waits for nothing any more. -/
theorem mem_idsFor_remove (ordered : store.Ordered) :
    other ∈ (store.remove id).idsFor v ↔ other ∈ store.idsFor v ∧ other ≠ id := by
  by_cases same : other = id
  · subst same
    rw [idsFor_remove]
    split
    · simp
    · rename_i unlisted
      simp only [ne_eq, not_true_eq_false, and_false, iff_false]
      exact fun member => unlisted (ordered.listed member)
  · rw [ConstraintStore.mem_idsFor_remove same]
    simp [same]

theorem remove (ordered : store.Ordered) (id : Nat) : (store.remove id).Ordered where
  increasing v := by
    rw [idsFor_remove]
    split
    · exact (ordered.increasing v).filter _
    · exact ordered.increasing v
  listed member := by
    obtain ⟨old, different⟩ := ordered.mem_idsFor_remove.mp member
    rw [varsFor_remove, if_neg (Ne.symm different)]
    exact ordered.listed old
  waiting member := ordered.waiting (ordered.mem_idsFor_remove.mp member).1
  numbered stored := by
    rw [get?_remove] at stored
    split at stored
    · cases stored
    · exact ordered.numbered stored

theorem afterVerdict (ordered : store.Ordered) (found : store.get? id = some c)
    (kept : store.afterVerdict id follow verdict = some next) : next.Ordered := by
  have given := ordered.numbered found
  cases verdict with
  | violated => cases kept
  | satisfied =>
      cases kept
      exact ordered.remove id
  | simplified simpler =>
      cases kept
      exact ordered.replace given simpler _
  | pending =>
      cases kept
      exact ordered.indexUnder given follow

theorem settleOne {s : Substitution} (ordered : store.Ordered)
    (settled : settleOne s follow store id = .ok (some next)) : next.Ordered := by
  cases found : store.get? id with
  | none =>
      rw [settleOne_absent found] at settled
      cases settled
      exact ordered
  | some c =>
      rw [settleOne_found found] at settled
      cases evaluated : c.evaluate .enabled s with
      | error e =>
          rw [evaluated] at settled
          cases settled
      | ok verdict =>
          rw [evaluated] at settled
          exact ordered.afterVerdict found (Except.ok.inj settled)

theorem settleEach {s : Substitution} : ∀ {ids : List Nat} {store : ConstraintStore},
    store.Ordered → settleEach s follow store ids = .ok (some next) → next.Ordered
  | [], store, ordered, settled => by
      cases settled
      exact ordered
  | id :: ids, store, ordered, settled => by
      rw [ConstraintStore.settleEach] at settled
      cases first : ConstraintStore.settleOne s follow store id with
      | error e =>
          rw [first] at settled
          cases settled
      | ok result =>
          rw [first] at settled
          cases result with
          | none => cases settled
          | some mid => exact (ordered.settleOne first).settleEach settled

end Ordered

/-! ## One verdict -/

@[simp] theorem afterVerdict_eq_none :
    store.afterVerdict id follow verdict = none ↔ verdict = .violated := by
  cases verdict <;> simp [afterVerdict]

theorem exists_afterVerdict (store : ConstraintStore) (id : Nat) (follow : List Var)
    (different : verdict ≠ .violated) : ∃ next, store.afterVerdict id follow verdict = some next :=
  Option.ne_none_iff_exists'.mp (mt afterVerdict_eq_none.mp different)

/-- Nothing has changed but what is stored under an id and what that id waits for. -/
structure Revises (id : Nat) (held : Option Constraint) (waits : Var → Prop)
    (store next : ConstraintStore) : Prop where
  nextId : next.nextId = store.nextId
  held : next.get? id = held
  waits : ∀ v, id ∈ next.idsFor v ↔ waits v
  others : ∀ other, other ≠ id → next.get? other = store.get? other
  othersWait : ∀ other, other ≠ id → ∀ v, other ∈ next.idsFor v ↔ other ∈ store.idsFor v

/-- What is left of a constraint waits for what it waited for, and for what it goes on to wait
for. -/
theorem Ordered.revises (ordered : store.Ordered) (found : store.get? id = some c)
    (kept : store.afterVerdict id follow verdict = some next) :
    Revises id (verdict.leaves c)
      (fun v => (verdict.leaves c).isSome ∧
        (id ∈ store.idsFor v ∨ (v ∈ verdict.renews follow ∧ v ≠ .wildcard))) store next := by
  cases verdict with
  | violated => cases kept
  | satisfied =>
      cases kept
      refine ⟨rfl, ?_, ?_, ?_, ?_⟩
      · rw [get?_remove, if_pos rfl]
        rfl
      · simp [ordered.mem_idsFor_remove, Verdict.leaves]
      · intro other different
        rw [get?_remove, if_neg (Ne.symm different)]
      · exact fun other different v => ConstraintStore.mem_idsFor_remove different
  | simplified simpler =>
      cases kept
      refine ⟨nextId_replace, ?_, ?_, ?_, ?_⟩
      · rw [get?_replace, if_pos rfl]
        rfl
      · simp [mem_idsFor_replace, Verdict.leaves, Verdict.renews]
      · intro other different
        rw [get?_replace, if_neg (Ne.symm different)]
      · intro other different v
        simp [mem_idsFor_replace, different]
  | pending =>
      cases kept
      refine ⟨nextId_indexUnder, get?_indexUnder.trans found, ?_, ?_, ?_⟩
      · simp [mem_idsFor_indexUnder, Verdict.leaves, Verdict.renews]
      · exact fun other _ => get?_indexUnder
      · intro other different v
        simp [mem_idsFor_indexUnder, different]

end ConstraintStore

end RelationalSolver
