import Mathlib.Data.List.Induction
import Mathlib.Tactic.Tauto
import RelationalSolver.Constraint.Store

/-!
# The store and its index

Every operation of the store is described by the constraint kept under each id,
the next id and the ids that wait for each variable.
-/

namespace RelationalSolver.ConstraintStore

variable {store : ConstraintStore} {id other i : Nat} {c : Constraint} {v w : Var}
variable {vars : List Var}

@[simp] theorem mem_insertId {ids : List Nat} :
    other ∈ insertId id ids ↔ other = id ∨ other ∈ ids := by
  induction ids with
  | nil => simp [insertId]
  | cons first ids ih =>
      unfold insertId
      split
      · simp
      · split
        · rename_i same
          simp [same]
        · simp only [List.mem_cons, ih]
          tauto

/-! ## Waiting for variables -/

@[simp] theorem get?_indexVar : (indexVar id store v).get? other = store.get? other := by
  unfold indexVar
  split <;> rfl

@[simp] theorem nextId_indexVar : (indexVar id store v).nextId = store.nextId := by
  unfold indexVar
  split <;> rfl

theorem idsFor_indexVar (named : v ≠ .wildcard) :
    (indexVar id store v).idsFor w = if v = w then insertId id (store.idsFor w)
      else store.idsFor w := by
  rw [indexVar, if_neg named, idsFor, Std.TreeMap.getElem?_insert]
  by_cases same : v = w
  · subst same
    simp
  · simp [same, idsFor]

theorem varsFor_indexVar (named : v ≠ .wildcard) :
    (indexVar id store v).varsFor i = if id = i then appendNew (store.varsFor i) v
      else store.varsFor i := by
  rw [indexVar, if_neg named, varsFor, Std.TreeMap.getElem?_insert]
  by_cases same : id = i
  · subst same
    simp
  · simp [same, varsFor]

theorem varsFor_reserved (store : ConstraintStore) (id i : Nat) :
    varsFor { store with indexed := store.indexed.insert id (store.varsFor id) } i =
      store.varsFor i := by
  rw [varsFor, Std.TreeMap.getElem?_insert]
  by_cases same : id = i
  · subst same
    simp
  · simp [same, varsFor]

theorem mem_idsFor_indexVar :
    other ∈ (indexVar id store v).idsFor w ↔
      other ∈ store.idsFor w ∨ (other = id ∧ w = v ∧ w ≠ .wildcard) := by
  unfold indexVar
  split
  · rename_i anonymous
    constructor
    · exact Or.inl
    · rintro (waits | ⟨_, same, named⟩)
      · exact waits
      · exact absurd (same.trans anonymous) named
  · rename_i named
    by_cases same : w = v
    · subst same
      simp [idsFor, named, or_comm]
    · have different : v ≠ w := Ne.symm same
      simp [idsFor, Std.TreeMap.getElem?_insert, same, different]

theorem mem_varsFor_indexVar :
    w ∈ (indexVar id store v).varsFor i ↔
      w ∈ store.varsFor i ∨ (i = id ∧ w = v ∧ w ≠ .wildcard) := by
  by_cases anonymous : v = .wildcard
  · subst anonymous
    simp [indexVar]
  · rw [varsFor_indexVar anonymous]
    by_cases same : i = id
    · subst same
      by_cases here : w = v <;> simp [here, anonymous]
    · simp [same, Ne.symm same]

/-- What holds of a store and is kept by waiting for one more variable is kept by
waiting for several. -/
theorem indexUnder_induction {motive : ConstraintStore → List Var → Prop}
    (start : motive { store with indexed := store.indexed.insert id (store.varsFor id) } [])
    (step : ∀ later vars v, motive later vars → motive (indexVar id later v) (vars ++ [v]))
    (vars : List Var) : motive (store.indexUnder id vars) vars := by
  unfold indexUnder
  induction vars using List.reverseRecOn with
  | nil => exact start
  | append_singleton vars v ih =>
      rw [List.foldl_append]
      exact step _ _ _ ih

@[simp] theorem get?_indexUnder : (store.indexUnder id vars).get? other = store.get? other := by
  apply indexUnder_induction (motive := fun later _ => later.get? other = store.get? other)
  · rfl
  · intro later vars v ih
    rw [get?_indexVar, ih]

@[simp] theorem nextId_indexUnder : (store.indexUnder id vars).nextId = store.nextId := by
  apply indexUnder_induction (motive := fun later _ => later.nextId = store.nextId)
  · rfl
  · intro later vars v ih
    rw [nextId_indexVar, ih]

theorem mem_idsFor_indexUnder :
    other ∈ (store.indexUnder id vars).idsFor w ↔
      other ∈ store.idsFor w ∨ (other = id ∧ w ∈ vars ∧ w ≠ .wildcard) := by
  apply indexUnder_induction (motive := fun later vars => other ∈ later.idsFor w ↔
    other ∈ store.idsFor w ∨ (other = id ∧ w ∈ vars ∧ w ≠ .wildcard))
  · simp [idsFor]
  · intro later vars v ih
    rw [mem_idsFor_indexVar, ih, List.mem_append, List.mem_singleton]
    tauto

theorem mem_varsFor_indexUnder :
    w ∈ (store.indexUnder id vars).varsFor i ↔
      w ∈ store.varsFor i ∨ (i = id ∧ w ∈ vars ∧ w ≠ .wildcard) := by
  apply indexUnder_induction (motive := fun later vars => w ∈ later.varsFor i ↔
    w ∈ store.varsFor i ∨ (i = id ∧ w ∈ vars ∧ w ≠ .wildcard))
  · simp [varsFor_reserved]
  · intro later vars v ih
    rw [mem_varsFor_indexVar, ih, List.mem_append, List.mem_singleton]
    tauto

/-! ## Adding, replacing and dropping constraints -/

@[simp] theorem insert_snd : (store.insert c vars).2 = store.nextId := rfl

@[simp] theorem nextId_insert : (store.insert c vars).1.nextId = store.nextId + 1 :=
  nextId_indexUnder

theorem get?_insert : (store.insert c vars).1.get? other =
    if store.nextId = other then some c else store.get? other := by
  rw [insert, get?_indexUnder, get?, Std.TreeMap.getElem?_insert]
  simp [get?]

theorem mem_idsFor_insert :
    other ∈ (store.insert c vars).1.idsFor w ↔
      other ∈ store.idsFor w ∨ (other = store.nextId ∧ w ∈ vars ∧ w ≠ .wildcard) :=
  mem_idsFor_indexUnder

theorem mem_varsFor_insert :
    w ∈ (store.insert c vars).1.varsFor i ↔
      w ∈ store.varsFor i ∨ (i = store.nextId ∧ w ∈ vars ∧ w ≠ .wildcard) :=
  mem_varsFor_indexUnder

@[simp] theorem nextId_replace : (store.replace id c vars).nextId = store.nextId :=
  nextId_indexUnder

theorem get?_replace : (store.replace id c vars).get? other =
    if id = other then some c else store.get? other := by
  rw [replace, get?_indexUnder, get?, Std.TreeMap.getElem?_insert]
  simp [get?]

theorem mem_idsFor_replace :
    other ∈ (store.replace id c vars).idsFor w ↔
      other ∈ store.idsFor w ∨ (other = id ∧ w ∈ vars ∧ w ≠ .wildcard) :=
  mem_idsFor_indexUnder

theorem mem_varsFor_replace :
    w ∈ (store.replace id c vars).varsFor i ↔
      w ∈ store.varsFor i ∨ (i = id ∧ w ∈ vars ∧ w ≠ .wildcard) :=
  mem_varsFor_indexUnder

theorem get?_remove : (store.remove id).get? other =
    if id = other then none else store.get? other := by
  rw [remove, get?, Std.TreeMap.getElem?_erase]
  simp [get?]

theorem varsFor_remove : (store.remove id).varsFor i =
    if id = i then [] else store.varsFor i := by
  rw [remove, varsFor, Std.TreeMap.getElem?_erase]
  by_cases same : id = i <;> simp [same, varsFor]

theorem mem_varsFor_remove :
    w ∈ (store.remove id).varsFor i ↔ i ≠ id ∧ w ∈ store.varsFor i := by
  rw [varsFor_remove]
  by_cases same : i = id
  · simp [same]
  · simp [same, Ne.symm same]

theorem getD_forgetVar {byVar : Std.TreeMap Var (List Nat)} :
    ((forgetVar id byVar v)[w]?).getD [] =
      if v = w then ((byVar[w]?).getD []).filter (· ≠ id) else (byVar[w]?).getD [] := by
  unfold forgetVar
  by_cases same : v = w
  · subst same
    dsimp only
    rw [if_pos rfl]
    split
    · rename_i alone
      rw [Std.TreeMap.getElem?_erase_self, List.isEmpty_iff.mp alone]
      rfl
    · simp
  · dsimp only
    rw [if_neg same]
    split
    · simp [Std.TreeMap.getElem?_erase, same]
    · simp [Std.TreeMap.getElem?_insert, same]

theorem getD_foldl_forgetVar (vars : List Var) (byVar : Std.TreeMap Var (List Nat)) :
    ((vars.foldl (forgetVar id) byVar)[w]?).getD [] =
      if w ∈ vars then ((byVar[w]?).getD []).filter (· ≠ id) else (byVar[w]?).getD [] := by
  induction vars generalizing byVar with
  | nil => simp
  | cons v vars ih =>
      rw [List.foldl_cons, ih, getD_forgetVar]
      by_cases here : v = w
      · subst here
        simp
      · simp [here, Ne.symm here]

/-- A dropped constraint no longer waits for what it is listed to wait for. -/
theorem idsFor_remove : (store.remove id).idsFor w =
    if w ∈ store.varsFor id then (store.idsFor w).filter (· ≠ id) else store.idsFor w :=
  getD_foldl_forgetVar (store.varsFor id) store.byVar

/-- Dropping a constraint leaves it to the others what they wait for. -/
theorem mem_idsFor_remove (different : other ≠ id) :
    other ∈ (store.remove id).idsFor w ↔ other ∈ store.idsFor w := by
  rw [idsFor_remove]
  split <;> simp [different]

end RelationalSolver.ConstraintStore
