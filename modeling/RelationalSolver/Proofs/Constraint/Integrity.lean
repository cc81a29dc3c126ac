import RelationalSolver.Proofs.Constraint.Indexing

/-!
# Stores and their histories

A store that is reached by calls on ids in use keeps its two indexes inverse to each other, and a
constraint has an entry in the one by ids as long as it is pending.  What it holds can be read
from the calls: constraints wait in line in the order of their insertion, each for the variables
that were named for it, and a constraint that is replaced keeps its place in the line.
-/

namespace RelationalSolver

/-- One call that changes a store. -/
inductive StoreCall where
  | insert (c : Constraint) (vars : List Var)
  | replace (id : Nat) (c : Constraint) (vars : List Var)
  | indexUnder (id : Nat) (vars : List Var)
  | remove (id : Nat)

namespace StoreCall

/-- The store after a call. -/
def perform (store : ConstraintStore) : StoreCall → ConstraintStore
  | .insert c vars => (store.insert c vars).1
  | .replace id c vars => store.replace id c vars
  | .indexUnder id vars => store.indexUnder id vars
  | .remove id => store.remove id

/-- The id that a call is about is in use. -/
def Finds (store : ConstraintStore) : StoreCall → Prop
  | .insert _ _ => True
  | .replace id _ _ | .indexUnder id _ | .remove id => id ∈ store.entries

instance (store : ConstraintStore) : DecidablePred (Finds store)
  | .insert _ _ => .isTrue trivial
  | .replace id _ _ | .indexUnder id _ | .remove id =>
      inferInstanceAs (Decidable (id ∈ store.entries))

end StoreCall

/-- A constraint in line, under its id and with the variables that were named for it. -/
structure Held where
  id : Nat
  constraint : Constraint
  vars : List Var

/-- The constraints in line, in the order of their insertion, and the number of insertions. -/
structure Line where
  given : Nat
  waiting : List Held

namespace Line

/-- Change the constraint under an id, in its place, and name more variables for it. -/
def amend (line : Line) (id : Nat) (change : Constraint → Constraint) (vars : List Var) : Line :=
  { line with
    waiting := line.waiting.map fun held =>
      if held.id = id then ⟨id, change held.constraint, held.vars ++ vars⟩ else held }

/-- The line after a call.  Ids are the numbers of the insertions. -/
def serve (line : Line) : StoreCall → Line
  | .insert c vars => ⟨line.given + 1, line.waiting ++ [⟨line.given, c, vars⟩]⟩
  | .replace id c vars => line.amend id (fun _ => c) vars
  | .indexUnder id vars => line.amend id (fun c => c) vars
  | .remove id => { line with waiting := line.waiting.filter (·.id ≠ id) }

/-- The line after a history of calls. -/
def ofCalls (calls : List StoreCall) : Line := calls.foldl serve ⟨0, []⟩

end Line

namespace ConstraintStore

variable {store : ConstraintStore} {id i : Nat} {c : Constraint} {v w : Var} {vars : List Var}
variable {calls : List StoreCall} {call : StoreCall}

/-- The stores after a history of calls, each of them on an id in use. -/
inductive Reached : List StoreCall → ConstraintStore → Prop where
  | empty : Reached [] .empty
  | call {calls : List StoreCall} {store : ConstraintStore} (earlier : Reached calls store)
      (call : StoreCall) (finds : call.Finds store) :
      Reached (calls ++ [call]) (call.perform store)

/-! ## Ids in use -/

theorem mem_entries : id ∈ store.entries ↔ ∃ c, store.get? id = some c := by
  rw [Std.TreeMap.mem_iff_isSome_getElem?, Option.isSome_iff_exists]
  rfl

theorem mem_entries_insert : i ∈ store.entries.insert id c ↔ i = id ∨ i ∈ store.entries := by
  rw [Std.TreeMap.mem_insert, Std.compare_eq_iff_eq, eq_comm]

/-! ## Both indexes agree -/

/-- The indexes of a store are inverse to each other, and what they name is in use. -/
structure Intact (store : ConstraintStore) : Prop extends store.Ordered where
  recorded : ∀ {id v}, v ∈ store.varsFor id → id ∈ store.idsFor v
  occupied : ∀ v : Var, store.byVar[v]? ≠ some []
  named : ∀ id, .wildcard ∉ store.varsFor id
  keys : ∀ id, id ∈ store.indexed ↔ id ∈ store.entries

theorem intact_empty : empty.Intact where
  toOrdered := ordered_empty
  recorded member := by simp [varsFor, empty] at member
  occupied v := by simp [empty]
  named id := by simp [varsFor, empty]
  keys id := by simp [empty]

theorem occupied_foldl_forgetVar {byVar : Std.TreeMap Var (List Nat)}
    (occupied : ∀ v : Var, byVar[v]? ≠ some []) (w : Var) :
    (vars.foldl (forgetVar id) byVar)[w]? ≠ some [] := by
  induction vars generalizing byVar with
  | nil => exact occupied w
  | cons v vars ih =>
      apply ih
      intro u
      unfold forgetVar
      dsimp only
      split
      · rw [Std.TreeMap.getElem?_erase]
        split
        · simp
        · exact occupied u
      · rename_i others
        rw [Std.TreeMap.getElem?_insert]
        split
        · intro empty
          exact others (by rw [Option.some.inj empty, List.isEmpty_nil])
        · exact occupied u

namespace Intact

theorem lt_nextId (intact : store.Intact) (held : id ∈ store.entries) : id < store.nextId := by
  obtain ⟨c, stored⟩ := mem_entries.mp held
  exact intact.numbered stored

theorem reserve (intact : store.Intact) {nextId : Nat} {entries : Std.TreeMap Nat Constraint}
    (keys : ∀ i, i ∈ entries ↔ i = id ∨ i ∈ store.entries) (given : id < nextId)
    (counted : store.nextId ≤ nextId) :
    Intact ⟨nextId, entries, store.byVar, store.indexed.insert id (store.varsFor id)⟩ := by
  generalize reserved : ConstraintStore.mk nextId entries _ _ = later
  have idsFor_eq : later.idsFor = store.idsFor := by
    rw [← reserved]
    rfl
  have varsFor_eq : later.varsFor = store.varsFor := by
    rw [← reserved]
    exact funext (varsFor_reserved store id)
  constructor
  · constructor
    · rw [idsFor_eq]
      exact intact.increasing
    · rw [idsFor_eq, varsFor_eq]
      exact intact.listed
    · rw [idsFor_eq, ← reserved]
      exact fun member => (intact.waiting member).trans_le counted
    · intro i c stored
      have held : i ∈ later.entries := mem_entries.mpr ⟨c, stored⟩
      rw [← reserved] at held ⊢
      rcases (keys i).mp held with rfl | old
      · exact given
      · exact (intact.lt_nextId old).trans_le counted
  · rw [idsFor_eq, varsFor_eq]
    exact intact.recorded
  · rw [← reserved]
    exact intact.occupied
  · rw [varsFor_eq]
    exact intact.named
  · intro i
    rw [← reserved, Std.TreeMap.mem_insert, Std.compare_eq_iff_eq, intact.keys, keys, eq_comm]

theorem indexVar (intact : store.Intact) (held : id ∈ store.entries) :
    (indexVar id store v).Intact where
  toOrdered := intact.toOrdered.indexVar (intact.lt_nextId held)
  recorded member :=
    mem_idsFor_indexVar.mpr ((mem_varsFor_indexVar.mp member).imp_left intact.recorded)
  occupied w := by
    unfold ConstraintStore.indexVar
    split
    · exact intact.occupied w
    · rw [Std.TreeMap.getElem?_insert]
      split
      · intro empty
        have member : id ∈ insertId id (store.idsFor v) := mem_insertId.mpr (.inl rfl)
        rw [Option.some.inj empty] at member
        cases member
      · exact intact.occupied w
  named i := by
    rw [mem_varsFor_indexVar]
    rintro (old | new)
    · exact intact.named i old
    · exact new.2.2 rfl
  keys i := by
    rw [mem_entries, get?_indexVar, ← mem_entries]
    unfold ConstraintStore.indexVar
    split
    · exact intact.keys i
    · rw [Std.TreeMap.mem_insert, Std.compare_eq_iff_eq, intact.keys]
      exact or_iff_right_of_imp fun same => same ▸ held

theorem indexVars (intact : store.Intact) (held : id ∈ store.entries) (vars : List Var) :
    (vars.foldl (ConstraintStore.indexVar id) store).Intact := by
  induction vars generalizing store with
  | nil => exact intact
  | cons v vars ih =>
      apply ih (intact.indexVar held)
      rw [mem_entries, get?_indexVar, ← mem_entries]
      exact held

/-- An id may wait for more variables, also if it is used for the first time. -/
theorem indexing (intact : store.Intact) {nextId : Nat} {entries : Std.TreeMap Nat Constraint}
    (keys : ∀ i, i ∈ entries ↔ i = id ∨ i ∈ store.entries) (given : id < nextId)
    (counted : store.nextId ≤ nextId) (vars : List Var) :
    (ConstraintStore.indexUnder ⟨nextId, entries, store.byVar, store.indexed⟩ id vars).Intact :=
  (intact.reserve keys given counted).indexVars ((keys id).mpr (.inl rfl)) vars

theorem insert (intact : store.Intact) (c : Constraint) (vars : List Var) :
    (store.insert c vars).1.Intact :=
  intact.indexing (fun _ => mem_entries_insert) (Nat.lt_succ_self _) (Nat.le_succ _) vars

theorem replace (intact : store.Intact) (held : id ∈ store.entries) (c : Constraint)
    (vars : List Var) : (store.replace id c vars).Intact :=
  intact.indexing (fun _ => mem_entries_insert) (intact.lt_nextId held) le_rfl vars

theorem indexUnder (intact : store.Intact) (held : id ∈ store.entries) (vars : List Var) :
    (store.indexUnder id vars).Intact :=
  intact.indexing (fun _ => (or_iff_right_of_imp fun same => same ▸ held).symm)
    (intact.lt_nextId held) le_rfl vars

theorem remove (intact : store.Intact) (id : Nat) : (store.remove id).Intact where
  toOrdered := intact.toOrdered.remove id
  recorded member := by
    obtain ⟨different, old⟩ := mem_varsFor_remove.mp member
    exact intact.toOrdered.mem_idsFor_remove.mpr ⟨intact.recorded old, different⟩
  occupied := occupied_foldl_forgetVar intact.occupied
  named i member := intact.named i (mem_varsFor_remove.mp member).2
  keys i := by
    rw [ConstraintStore.remove, Std.TreeMap.mem_erase, Std.TreeMap.mem_erase, intact.keys]

end Intact

end ConstraintStore

/-! ## The line that a store stands for -/

namespace Line

open ConstraintStore

variable {line : Line} {store : ConstraintStore} {id i : Nat} {c : Constraint} {v : Var}
variable {vars : List Var}

/-- The store holds what is in line, in that order, and for the variables named there. -/
structure Describes (line : Line) (store : ConstraintStore) : Prop where
  given : store.nextId = line.given
  increasing : line.waiting.Pairwise fun earlier later => earlier.id < later.id
  stored : ∀ {id c}, store.get? id = some c ↔
    ∃ held ∈ line.waiting, held.id = id ∧ held.constraint = c
  waits : ∀ {id v}, v ∈ store.varsFor id ↔
    (∃ held ∈ line.waiting, held.id = id ∧ v ∈ held.vars) ∧ v ≠ .wildcard

theorem describes_empty : Describes ⟨0, []⟩ .empty where
  given := rfl
  increasing := .nil
  stored := by simp [get?, ConstraintStore.empty]
  waits := by simp [varsFor, ConstraintStore.empty]

theorem map_id_amend {change : Constraint → Constraint} :
    (line.amend id change vars).waiting.map (·.id) = line.waiting.map (·.id) := by
  rw [amend, List.map_map]
  apply List.map_congr_left
  intro held _
  rw [Function.comp_apply]
  split
  · rename_i same
    exact same.symm
  · rfl

theorem exists_mem_amend {change : Constraint → Constraint} {P : Constraint → List Var → Prop} :
    (∃ held ∈ (line.amend id change vars).waiting, held.id = i ∧ P held.constraint held.vars) ↔
      ∃ held ∈ line.waiting, held.id = i ∧
        if i = id then P (change held.constraint) (held.vars ++ vars)
        else P held.constraint held.vars := by
  simp only [amend, List.mem_map, exists_exists_and_eq_and]
  refine exists_congr fun held => and_congr_right fun _ => ?_
  by_cases same : held.id = id
  · by_cases found : i = id
    · simp [same, found]
    · simp [same, found, Ne.symm found]
  · by_cases found : held.id = i
    · simp [same, found ▸ same]
    · simp [same, found]

theorem exists_mem_remove {P : Held → Prop} :
    (∃ held ∈ (line.serve (.remove id)).waiting, held.id = i ∧ P held) ↔
      i ≠ id ∧ ∃ held ∈ line.waiting, held.id = i ∧ P held := by
  simp only [serve, List.mem_filter, decide_eq_true_eq]
  constructor
  · rintro ⟨held, ⟨member, different⟩, rfl, holds⟩
    exact ⟨different, held, member, rfl, holds⟩
  · rintro ⟨different, held, member, rfl, holds⟩
    exact ⟨held, ⟨member, different⟩, rfl, holds⟩

namespace Describes

/-- A store lists its constraints as they stand in line. -/
theorem toList_eq (describes : line.Describes store) :
    store.toList = line.waiting.map fun held => (held.id, held.constraint) := by
  have irrefl : Std.Irrefl fun a b : Nat × Constraint => a.1 < b.1 := ⟨fun a => a.1.lt_irrefl⟩
  have antisymm : Std.Antisymm fun a b : Nat × Constraint => a.1 < b.1 :=
    ⟨fun a b less greater => absurd greater less.asymm⟩
  have listed : store.toList.Pairwise fun a b => a.1 < b.1 :=
    Std.TreeMap.ordered_keys_toList.imp Nat.compare_eq_lt.mp
  have lined : (line.waiting.map fun held => (held.id, held.constraint)).Pairwise
      fun a b => a.1 < b.1 := by
    rw [List.pairwise_map]
    exact describes.increasing
  apply listed.eq_of_mem_iff lined
  intro ⟨id, c⟩
  rw [ConstraintStore.toList, Std.TreeMap.mem_toList_iff_getElem?_eq_some]
  simp only [List.mem_map, Prod.mk.injEq]
  exact describes.stored

theorem mem_entries_iff (describes : line.Describes store) :
    id ∈ store.entries ↔ ∃ held ∈ line.waiting, held.id = id := by
  rw [mem_entries]
  constructor
  · rintro ⟨c, stored⟩
    obtain ⟨held, member, same, _⟩ := describes.stored.mp stored
    exact ⟨held, member, same⟩
  · rintro ⟨held, member, same⟩
    exact ⟨held.constraint, describes.stored.mpr ⟨held, member, same, rfl⟩⟩

theorem insert (describes : line.Describes store) (intact : store.Intact) (c : Constraint)
    (vars : List Var) : (line.serve (.insert c vars)).Describes (store.insert c vars).1 := by
  have earlier : ∀ held ∈ line.waiting, held.id < line.given := by
    intro held member
    rw [← describes.given]
    exact intact.lt_nextId (describes.mem_entries_iff.mpr ⟨held, member, rfl⟩)
  constructor
  · rw [nextId_insert, describes.given]
    rfl
  · rw [serve, List.pairwise_append]
    exact ⟨describes.increasing, List.pairwise_singleton _ _, by simpa using earlier⟩
  · intro i d
    rw [get?_insert, describes.given]
    simp only [serve, List.mem_append, List.mem_singleton, or_and_right, exists_or, exists_eq_left]
    by_cases new : line.given = i
    · have unused : ¬ ∃ held ∈ line.waiting, held.id = i ∧ held.constraint = d := by
        rintro ⟨held, member, same, _⟩
        exact (earlier held member).ne (same.trans new.symm)
      simp [new, unused]
    · simp [new, describes.stored]
  · intro i v
    rw [mem_varsFor_insert, describes.waits, describes.given]
    simp only [serve, List.mem_append, List.mem_singleton, or_and_right, exists_or, exists_eq_left]
    rw [and_assoc, @eq_comm _ i]

theorem amend (describes : line.Describes store) (used : id ∈ store.entries)
    {next : ConstraintStore} (change : Constraint → Constraint)
    (nextId : next.nextId = store.nextId)
    (stored : ∀ i, next.get? i = (store.get? i).map fun c => if i = id then change c else c)
    (waits : ∀ i v, v ∈ next.varsFor i ↔
      v ∈ store.varsFor i ∨ (i = id ∧ v ∈ vars ∧ v ≠ .wildcard)) :
    (line.amend id change vars).Describes next := by
  constructor
  · rw [nextId, describes.given]
    rfl
  · apply (List.pairwise_map (R := (· < ·))).mp
    rw [map_id_amend]
    exact List.pairwise_map.mpr describes.increasing
  · intro i d
    rw [exists_mem_amend (P := fun c _ => c = d), stored, Option.map_eq_some_iff]
    constructor
    · rintro ⟨c, found, rfl⟩
      obtain ⟨held, member, same, rfl⟩ := describes.stored.mp found
      refine ⟨held, member, same, ?_⟩
      split <;> rfl
    · rintro ⟨held, member, same, changed⟩
      refine ⟨held.constraint, describes.stored.mpr ⟨held, member, same, rfl⟩, ?_⟩
      rwa [← apply_ite (· = d)] at changed
  · intro i v
    rw [exists_mem_amend (P := fun _ vars => v ∈ vars), waits, describes.waits]
    by_cases here : i = id
    · obtain ⟨held, member, same⟩ := describes.mem_entries_iff.mp used
      have present : ∃ held ∈ line.waiting, held.id = i := ⟨held, member, same.trans here.symm⟩
      simp only [here, true_and, if_true, List.mem_append, and_or_left, exists_or,
        ← or_and_right, ← and_assoc, exists_and_right]
      simp only [← here, present, true_and]
    · simp [here]

theorem remove (describes : line.Describes store) (id : Nat) :
    (line.serve (.remove id)).Describes (store.remove id) where
  given := describes.given
  increasing := describes.increasing.filter _
  stored := by
    intro i c
    rw [exists_mem_remove, get?_remove, ← describes.stored]
    by_cases same : i = id
    · simp [same]
    · simp [same, Ne.symm same]
  waits := by
    intro i v
    rw [exists_mem_remove, mem_varsFor_remove, describes.waits, and_assoc]

theorem perform (describes : line.Describes store) (intact : store.Intact) {call : StoreCall}
    (finds : call.Finds store) : (line.serve call).Describes (call.perform store) := by
  cases call with
  | insert c vars => exact describes.insert intact c vars
  | replace id c vars =>
      refine describes.amend finds (fun _ => c) nextId_replace ?_ fun i v => mem_varsFor_replace
      intro i
      obtain ⟨held, found⟩ := mem_entries.mp finds
      rw [StoreCall.perform, get?_replace]
      by_cases same : i = id
      · simp [same, found]
      · simp [same, Ne.symm same]
  | indexUnder id vars =>
      refine describes.amend finds (fun c => c) nextId_indexUnder ?_
        fun i v => mem_varsFor_indexUnder
      intro i
      simp [StoreCall.perform]
  | remove id => exact describes.remove id

end Describes

end Line

namespace ConstraintStore

variable {store : ConstraintStore} {calls : List StoreCall} {call : StoreCall}

theorem Intact.perform (intact : store.Intact) (finds : call.Finds store) :
    (call.perform store).Intact := by
  cases call with
  | insert c vars => exact intact.insert c vars
  | replace id c vars => exact intact.replace finds c vars
  | indexUnder id vars => exact intact.indexUnder finds vars
  | remove id => exact intact.remove id

theorem Reached.intact (reached : Reached calls store) : store.Intact := by
  induction reached with
  | empty => exact intact_empty
  | call _ _ finds ih => exact ih.perform finds

theorem Reached.describes (reached : Reached calls store) :
    (Line.ofCalls calls).Describes store := by
  induction reached with
  | empty => exact Line.describes_empty
  | call earlier _ finds ih =>
      rw [Line.ofCalls, List.foldl_append]
      exact ih.perform earlier.intact finds

/-- In a store that is reached by calls on ids in use, the indexes by variables and by ids are
inverse to each other, no variable is left without an id, exactly the pending constraints have an
entry in the index by ids, and the wildcard has none.  The constraints are listed in the order of
their insertion, as they stand in line, and wait for the variables named there. -/
theorem reached_indexes_agree (reached : Reached calls store) :
    (∀ id v, id ∈ store.idsFor v ↔ v ∈ store.varsFor id) ∧
    (∀ v : Var, store.byVar[v]? ≠ some []) ∧
    (∀ id, id ∈ store.indexed ↔ id ∈ store.entries) ∧
    (∀ id ∈ store.entries, id < store.nextId) ∧
    (.wildcard ∉ store.byVar ∧ ∀ id, .wildcard ∉ store.varsFor id) ∧
    store.toList = (Line.ofCalls calls).waiting.map (fun held => (held.id, held.constraint)) ∧
    (∀ id v, v ∈ store.varsFor id ↔
      (∃ held ∈ (Line.ofCalls calls).waiting, held.id = id ∧ v ∈ held.vars) ∧ v ≠ .wildcard) := by
  have intact := reached.intact
  have describes := reached.describes
  have unwatched : .wildcard ∉ store.byVar := by
    intro watched
    obtain ⟨ids, found⟩ :=
      Option.isSome_iff_exists.mp (Std.TreeMap.isSome_getElem?_iff_mem.mpr watched)
    cases ids with
    | nil => exact intact.occupied _ found
    | cons id ids =>
        have waits : id ∈ store.idsFor .wildcard := by simp [idsFor, found]
        exact intact.named id (intact.listed waits)
  exact ⟨fun id v => ⟨intact.listed, intact.recorded⟩, intact.occupied, intact.keys,
    fun id => intact.lt_nextId, ⟨unwatched, intact.named⟩, describes.toList_eq,
    fun id v => describes.waits⟩

/-- One variable is named twice, beside the wildcard.  The second constraint is dropped; the first
one is replaced and told to wait for more, and keeps its place. -/
theorem reached_indexes_agree_replaced :
    ∃ store, Reached [.insert (.distinct []) [.numbered 1, .wildcard, .numbered 1],
        .insert (.distinct []) [.numbered 1, .numbered 2], .insert (.distinct []) [.numbered 3],
        .replace 0 (.neq (.int 1) (.int 2)) [.numbered 2], .remove 1,
        .indexUnder 0 [.numbered 3]] store ∧
      store.toList = [(0, .neq (.int 1) (.int 2)), (2, .distinct [])] ∧
      0 ∈ store.idsFor (.numbered 3) ∧ 1 ∉ store.idsFor (.numbered 1) := by
  have inserted := Reached.empty
    |>.call (.insert (.distinct []) [.numbered 1, .wildcard, .numbered 1]) trivial
    |>.call (.insert (.distinct []) [.numbered 1, .numbered 2]) trivial
    |>.call (.insert (.distinct []) [.numbered 3]) trivial
  have reached := inserted
    |>.call (.replace 0 (.neq (.int 1) (.int 2)) [.numbered 2]) (by decide)
    |>.call (.remove 1) (by decide)
    |>.call (.indexUnder 0 [.numbered 3]) (by decide)
  obtain ⟨inverse, _, _, _, _, listed, waits⟩ := reached_indexes_agree reached
  refine ⟨_, reached, listed, (inverse 0 _).mpr ((waits 0 _).mpr ?_), ?_⟩
  · decide
  · rw [inverse, waits]
    decide

end ConstraintStore

end RelationalSolver
