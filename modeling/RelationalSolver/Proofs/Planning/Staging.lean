import Mathlib.Data.List.Basic
import Mathlib.Data.List.FinRange
import Mathlib.Tactic.Common
import RelationalSolver.Planning.Chain

/-!
# Staged goals

The rule of chaining looks through all goals that are left whenever it places one, and asks
each of them whether it shares a variable with a goal already placed.  The loop keeps that up
to date instead: at every slot the staged goals are those, and no others, and however goals
are swapped, the loop settles the order that the rule gives.
-/

namespace RelationalSolver

namespace PlannedGoal

variable {p : PlannedGoal} {placed : List PlannedGoal} {vars : List Var}

/-- The goal can reach a variable that one of the placed goals can reach. -/
def SharesWith (p : PlannedGoal) (placed : List PlannedGoal) : Prop :=
  ∃ q ∈ placed, ∃ v ∈ q.vars, v ∈ p.vars

theorem not_sharesWith_nil : ¬p.SharesWith [] := by
  rintro ⟨q, member, _⟩
  exact List.not_mem_nil member

theorem sharesWith_concat {q : PlannedGoal} :
    p.SharesWith (placed ++ [q]) ↔ p.SharesWith placed ∨ ∃ v ∈ q.vars, v ∈ p.vars := by
  simp [SharesWith, or_and_right, exists_or]

/-- The variables are those that the placed goals can reach. -/
def Reach (placed : List PlannedGoal) (vars : List Var) : Prop :=
  ∀ v, v ∈ vars ↔ ∃ q ∈ placed, v ∈ q.vars

theorem reach_nil : Reach [] [] := by simp [Reach]

theorem reach_singleton : Reach [p] p.vars := by simp [Reach]

theorem Reach.concat (reach : Reach placed vars) (p : PlannedGoal) :
    Reach (placed ++ [p]) (appendAllNew vars p.vars) := by
  intro v
  simp [reach v, or_and_right, exists_or]

theorem Reach.shares_iff (reach : Reach placed vars) :
    p.shares vars = true ↔ p.SharesWith placed := by
  simp only [shares, SharesWith, List.any_eq_true, decide_eq_true_eq, reach _]
  grind

end PlannedGoal

namespace Planning

open scoped List

variable {ρ : Type} {le : ρ → ρ → Bool}

/-! ## The first of the least -/

section FirstLeast

variable {α β : Type} {less : α → α → Bool} {items : List α}

theorem firstLeast_eq_none_iff : firstLeast less items = none ↔ items = [] := by
  cases items with
  | nil => simp [firstLeast]
  | cons item rest =>
      rw [firstLeast]
      split <;> simp

theorem mem_of_firstLeast {best : α} (found : firstLeast less items = some best) :
    best ∈ items := by
  induction items generalizing best with
  | nil => contradiction
  | cons item rest ih =>
      rw [firstLeast] at found
      split at found
      · cases found
        exact List.mem_cons_self
      · rename_i later foundLater
        cases found
        split
        · exact List.mem_cons_self
        · exact List.mem_cons_of_mem item (ih foundLater)

/-- The item found is least. -/
theorem firstLeast_le (total : ∀ a b, less a b = true ∨ less b a = true)
    (trans : ∀ a b c, less a b = true → less b c = true → less a c = true) {best : α}
    (found : firstLeast less items = some best) : ∀ item ∈ items, less best item = true := by
  induction items generalizing best with
  | nil => contradiction
  | cons item rest ih =>
      have reflexive : less item item = true := or_self_iff.mp (total item item)
      rw [firstLeast] at found
      split at found
      · rename_i exhausted
        cases found
        cases firstLeast_eq_none_iff.mp exhausted
        simpa using reflexive
      · rename_i later foundLater
        have below := ih foundLater
        cases found
        split
        · rename_i better
          refine List.forall_mem_cons.mpr ⟨reflexive, fun other member => ?_⟩
          exact trans _ _ _ better (below other member)
        · rename_i worse
          exact List.forall_mem_cons.mpr ⟨(total item later).resolve_left worse, below⟩

theorem firstLeast_map (f : β → α) (items : List β) :
    firstLeast less (items.map f) =
      (firstLeast (fun a b => less (f a) (f b)) items).map f := by
  induction items with
  | nil => rfl
  | cons item rest ih =>
      rw [List.map_cons, firstLeast, firstLeast, ih]
      cases firstLeast (fun a b => less (f a) (f b)) rest with
      | none => rfl
      | some best => simp only [Option.map_some, apply_ite f]

end FirstLeast

/-! ## The rule -/

/-- Swap the item at a position with the first one. -/
def bringForward {α : Type} (position : Nat) (items : List α) : List α :=
  match position, items with
  | position + 1, first :: rest =>
      match rest.drop position with
      | chosen :: after => chosen :: rest.take position ++ first :: after
      | [] => items
  | _, _ => items

/-- Whether a goal may be chosen next: it shares one of the variables, or no goal does. -/
def mayFollow (vars : List Var) (remaining : List (Ranked ρ)) (p : PlannedGoal) : Bool :=
  !remaining.any (fun x => x.2.shares vars) || p.shares vars

/-- Choose the next goal among those that share a variable with the placed ones,
or among all if none does, and bring it to the front. -/
def chooseNext (le : ρ → ρ → Bool) (placed : List Var) (remaining : List (Ranked ρ)) :
    List (Ranked ρ) :=
  let candidates := remaining.zipIdx.filter fun (x, _) => mayFollow placed remaining x.2
  match firstLeast (fun a b => le a.1.1 b.1.1) candidates with
  | some (_, position) => bringForward position remaining
  | none => remaining

/-- Place so many goals one after the other, behind those that can reach the
given variables. -/
def arrange (le : ρ → ρ → Bool) : Nat → List Var → List (Ranked ρ) → List (Ranked ρ)
  | 0, _, remaining => remaining
  | count + 1, placed, remaining =>
      match chooseNext le placed remaining with
      | [] => []
      | next :: rest => next :: arrange le count (appendAllNew placed next.2.vars) rest

/-- The greedy order of ranked goals, by the rule. -/
def greedyOrder (le : ρ → ρ → Bool) (goals : List (Ranked ρ)) : List (Ranked ρ) :=
  match goals.mergeSort (fun a b => le a.1 b.1) with
  | [] => []
  | first :: rest => first :: arrange le rest.length first.2.vars rest

@[simp] theorem bringForward_zero {α : Type} (items : List α) : bringForward 0 items = items := rfl

theorem bringForward_succ {α : Type} {position : Nat} {first : α} {rest : List α}
    (inside : position < rest.length) :
    bringForward (position + 1) (first :: rest) =
      rest[position] :: rest.take position ++ first :: rest.drop (position + 1) := by
  rw [bringForward, List.drop_eq_getElem_cons inside]

/-- Bringing an item to the front swaps the first one into its place. -/
theorem getElem?_bringForward {α : Type} {position : Nat} {items : List α}
    (inside : position < items.length) (i : Nat) :
    (bringForward position items)[i]? =
      if position = i then items[0]? else if 0 = i then items[position]? else items[i]? := by
  cases position with
  | zero => grind [bringForward_zero]
  | succ position =>
      cases items with
      | nil => contradiction
      | cons first rest =>
          rw [bringForward_succ (Nat.lt_of_succ_lt_succ inside)]
          grind

/-- Swapping two slots brings the item of the later one to the front of what stands from
the earlier one on. -/
theorem toList_swapIfInBounds {α : Type} {n : ℕ} (order : Vector α n) (slot position : ℕ)
    (inside : slot + position < n) :
    (order.swapIfInBounds slot (slot + position)).toList =
      order.toList.take slot ++ bringForward position (order.toList.drop slot) := by
  have before : slot < n := Nat.lt_of_le_of_lt (Nat.le_add_right slot position) inside
  have swapped : (order.swapIfInBounds slot (slot + position)).toList =
      (order.toList.set slot order[slot + position]).set (slot + position) order[slot] := by
    rw [← Vector.toList_swap before inside]
    simp [Vector.swapIfInBounds, Array.swapIfInBounds, before, inside]
    rfl
  rw [swapped]
  apply List.ext_getElem?
  intro i
  rw [List.getElem?_append, getElem?_bringForward (by simp; omega)]
  simp only [List.getElem?_set, List.length_set, Vector.length_toList, List.length_take,
    Nat.min_eq_left (Nat.le_of_lt before), List.getElem?_drop, List.getElem?_take]
  rcases Nat.lt_or_ge i slot with early | late
  · rw [if_neg (by omega), if_neg (by omega), if_pos early, if_pos early]
  · obtain ⟨later, rfl⟩ := Nat.exists_eq_add_of_le late
    simp only [Nat.add_sub_cancel_left, Nat.add_left_cancel_iff, if_neg (Nat.not_lt.mpr late),
      if_pos before, if_pos inside, Nat.add_zero, Nat.left_eq_add, Vector.getElem?_toList,
      Vector.getElem?_eq_getElem before, Vector.getElem?_eq_getElem inside, eq_comm (a := 0)]

theorem bringForward_perm {α : Type} (position : Nat) (items : List α) :
    (bringForward position items).Perm items := by
  cases position with
  | zero => exact .refl items
  | succ position =>
      cases items with
      | nil => exact .refl []
      | cons first rest =>
          rw [bringForward]
          split
          · rename_i chosen after found
            have parts : rest = rest.take position ++ chosen :: after := by
              rw [← found, List.take_append_drop]
            conv_rhs => rw [parts]
            generalize rest.take position = front
            calc chosen :: front ++ first :: after
              _ ~ chosen :: first :: (front ++ after) := .cons chosen List.perm_middle
              _ ~ first :: chosen :: (front ++ after) := .swap first chosen _
              _ ~ first :: (front ++ chosen :: after) := .cons first List.perm_middle.symm
          · exact .refl _

theorem chooseNext_perm (le : ρ → ρ → Bool) (placed : List Var) (remaining : List (Ranked ρ)) :
    (chooseNext le placed remaining).Perm remaining := by
  rw [chooseNext]
  dsimp only
  split
  · exact bringForward_perm _ _
  · exact .refl _

theorem arrange_perm (le : ρ → ρ → Bool) (count : Nat) (placed : List Var)
    (remaining : List (Ranked ρ)) : (arrange le count placed remaining).Perm remaining := by
  induction count generalizing placed remaining with
  | zero => exact .refl _
  | succ count ih =>
      have chosen := chooseNext_perm le placed remaining
      rw [arrange]
      split
      · rename_i none
        rwa [none] at chosen
      · rename_i next rest found
        rw [found] at chosen
        exact (List.Perm.cons next (ih _ rest)).trans chosen

/-- A single goal stays where it is. -/
theorem arrange_of_short (le : ρ → ρ → Bool) {count : Nat} {placed : List Var}
    {remaining : List (Ranked ρ)} (short : remaining.length ≤ 1) :
    arrange le count placed remaining = remaining := by
  have perm := arrange_perm le count placed remaining
  match remaining, short with
  | [], _ => exact perm.eq_nil
  | [_], _ => exact perm.eq_singleton

theorem bringForward_map {α β : Type} (f : α → β) (position : Nat) (items : List α) :
    bringForward position (items.map f) = (bringForward position items).map f := by
  cases position with
  | zero => rfl
  | succ position =>
      cases items with
      | nil => rfl
      | cons first rest =>
          rw [List.map_cons, bringForward, bringForward, ← List.map_drop]
          cases rest.drop position <;> simp

theorem mayFollow_iff {vars : List Var} {placed : List PlannedGoal} {p : PlannedGoal}
    {remaining : List (Ranked ρ)} (reach : PlannedGoal.Reach placed vars) :
    mayFollow vars remaining p = true ↔
      ((∃ x ∈ remaining, x.2.SharesWith placed) → p.SharesWith placed) := by
  rw [mayFollow, Bool.or_eq_true, Bool.not_eq_true', ← Bool.not_eq_true, List.any_eq_true,
    reach.shares_iff, imp_iff_not_or]
  simp only [reach.shares_iff]

/-! ## The index -/

variable {n : Nat} {goals : Vector (Ranked ρ) n}

theorem VarIndex.mem_record {index : VarIndex n} {id other : Fin n} {v w : Var} :
    other ∈ (index.record id v).getD w [] ↔
      other ∈ index.getD w [] ∨ (other = id ∧ v = w) := by
  rw [record, Std.TreeMap.getD_alter]
  by_cases same : v = w <;> simp [Std.TreeMap.getD_eq_getD_getElem?, same]

theorem VarIndex.mem_foldl_record {vars : List Var} {index : VarIndex n} {id other : Fin n}
    {w : Var} : other ∈ (vars.foldl (record id) index).getD w [] ↔
      other ∈ index.getD w [] ∨ (other = id ∧ w ∈ vars) := by
  induction vars generalizing index with
  | nil => simp
  | cons v vars ih =>
      rw [List.foldl_cons, ih, mem_record, List.mem_cons]
      grind

/-- The index finds the goals that can reach a variable. -/
theorem mem_indexByVar {id : Fin n} {v : Var} :
    id ∈ (indexByVar goals).getD v [] ↔ v ∈ (goals.get id).2.vars := by
  have fold (ids : List (Fin n)) (index : VarIndex n) :
      id ∈ (ids.foldl (fun index id => (goals.get id).2.vars.foldl (VarIndex.record id) index)
        index).getD v [] ↔ id ∈ index.getD v [] ∨ (id ∈ ids ∧ v ∈ (goals.get id).2.vars) := by
    induction ids generalizing index with
    | nil => simp
    | cons first ids ih =>
        rw [List.foldl_cons, ih, VarIndex.mem_foldl_record, List.mem_cons]
        grind
  rw [indexByVar, fold]
  simp

/-! ## What is staged -/

/-- The goals of a list of ids. -/
def goalsOf (goals : Vector (Ranked ρ) n) (ids : List (Fin n)) : List PlannedGoal :=
  ids.map fun id => (goals.get id).2

theorem goalsOf_eq_map (ids : List (Fin n)) :
    goalsOf goals ids = (ids.map goals.get).map (·.2) := by
  simp [goalsOf]

theorem goalsOf_concat (ids : List (Fin n)) (id : Fin n) :
    goalsOf goals (ids ++ [id]) = goalsOf goals ids ++ [(goals.get id).2] := List.map_append

namespace Chaining

variable {c : Chaining n} {settled : Nat}

/-- Every goal has a slot, and of those that do not stand in the first slots, the staged ones
are exactly those that share a variable with a goal that does. -/
structure Staged (goals : Vector (Ranked ρ) n) (settled : Nat) (c : Chaining n) : Prop where
  order : c.order.toList.Perm (List.finRange n)
  staged : ∀ id, id ∈ c.staged ↔ id ∈ c.order.toList.drop settled ∧
    (goals.get id).2.SharesWith (goalsOf goals (c.order.toList.take settled))

theorem staged_start : Staged goals 0 (start n) where
  order := by rw [start, Vector.toList_ofFn]; exact .refl _
  staged id := by simp [start, goalsOf, PlannedGoal.not_sharesWith_nil]

theorem mem_stage {index : VarIndex n} {slot : Fin n} {id : Fin n} :
    id ∈ (c.stage goals index slot).staged ↔ id ≠ c.order.get slot ∧ (id ∈ c.staged ∨
      id ∉ c.order.toList.take (slot + 1) ∧
        ∃ v ∈ (goals.get (c.order.get slot)).2.vars, id ∈ index.getD v []) := by
  have fold (placed sharing : List (Fin n)) (staged : Std.TreeSet (Fin n)) :
      id ∈ sharing.foldl (fun staged id => if id ∈ placed then staged else staged.insert id)
        staged ↔ id ∈ staged ∨ id ∉ placed ∧ id ∈ sharing := by
    induction sharing generalizing staged with
    | nil => simp
    | cons first sharing ih =>
        rw [List.foldl_cons, ih]
        split <;> grind
  simp only [stage, Std.TreeSet.mem_erase, fold, List.mem_flatMap, ne_eq,
    Std.LawfulEqOrd.compare_eq_iff_eq]
  grind

theorem Staged.nodup (holds : Staged goals settled c) : c.order.toList.Nodup :=
  holds.order.nodup_iff.mpr (List.nodup_finRange n)

/-- What does not stand in the first slots stands behind them. -/
theorem Staged.mem_drop_iff (holds : Staged goals settled c) (count : Nat) (id : Fin n) :
    id ∈ c.order.toList.drop count ↔ id ∉ c.order.toList.take count := by
  have distinct := holds.nodup
  have among : id ∈ c.order.toList := holds.order.mem_iff.mpr (List.mem_finRange id)
  rw [← List.take_append_drop count c.order.toList] at distinct among
  have apart := List.disjoint_of_nodup_append distinct
  constructor
  · exact fun behind before => apart before behind
  · exact fun outside => (List.mem_append.mp among).resolve_left outside

/-- Staging what shares a variable with the goal of the next slot accounts for that slot. -/
theorem Staged.stage (slot : Fin n) (holds : Staged goals slot c) :
    Staged goals (slot + 1) (c.stage goals (indexByVar goals) slot) where
  order := holds.order
  staged id := by
    have taken : c.order.toList.take (slot + 1) =
        c.order.toList.take slot ++ [c.order.get slot] := by
      simp [List.take_add_one, Vector.get]
    have sameOrder : (c.stage goals (indexByVar goals) slot).order = c.order := rfl
    have sharing : (goals.get id).2.SharesWith (goalsOf goals (c.order.toList.take (slot + 1))) ↔
        (goals.get id).2.SharesWith (goalsOf goals (c.order.toList.take slot)) ∨
          ∃ v ∈ (goals.get (c.order.get slot)).2.vars, v ∈ (goals.get id).2.vars := by
      rw [taken, goalsOf_concat, PlannedGoal.sharesWith_concat]
    rw [mem_stage, sameOrder, sharing, holds.staged, holds.mem_drop_iff, holds.mem_drop_iff, taken]
    simp only [mem_indexByVar, List.mem_append, List.mem_singleton]
    grind

/-- Swapping slots that are not settled changes nothing. -/
theorem Staged.swap (holds : Staged goals settled c) {position : Nat}
    (inside : settled + position < n) :
    Staged goals settled
      { c with order := c.order.swapIfInBounds settled (settled + position) } := by
  have before : settled ≤ c.order.toList.length := by simp; omega
  have swapped := toList_swapIfInBounds c.order settled position inside
  have parts : ((c.order.toList.take settled).length = settled) := by
    rw [List.length_take, Nat.min_eq_left before]
  have later := bringForward_perm position (c.order.toList.drop settled)
  constructor
  · calc (c.order.swapIfInBounds settled (settled + position)).toList
      _ = c.order.toList.take settled ++ bringForward position (c.order.toList.drop settled) :=
        swapped
      _ ~ c.order.toList.take settled ++ c.order.toList.drop settled := later.append_left _
      _ = c.order.toList := List.take_append_drop _ _
      _ ~ List.finRange n := holds.order
  · intro id
    dsimp only
    rw [swapped, List.take_left' parts, List.drop_left' parts, later.mem_iff]
    exact holds.staged id

theorem bestSlot_lt {slot best : Nat} (found : c.bestSlot le goals slot = some best) :
    ∃ position, best = slot + position ∧ slot + position < n := by
  obtain ⟨choice, chosen, rfl⟩ := Option.map_eq_some_iff.mp found
  have member := (List.mem_filter.mp (mem_of_firstLeast chosen)).1
  have bounds := List.mem_zipIdx member
  rw [List.length_drop, Vector.length_toList] at bounds
  exact ⟨choice.2 - slot, by omega, by omega⟩

theorem Staged.place (le : ρ → ρ → Bool) (holds : Staged goals settled c) :
    Staged goals settled (c.place le goals settled) := by
  rw [Chaining.place]
  split
  · rename_i best found
    obtain ⟨position, rfl, inside⟩ := bestSlot_lt found
    exact holds.swap inside
  · exact holds

/-- Before every slot, what the loop has staged is what the rule would look for. -/
theorem staged_settle (le : ρ → ρ → Bool) (goals : Vector (Ranked ρ) n) (count : Nat)
    (within : count ≤ n - 2) :
    Staged goals count (settle le goals (indexByVar goals) count within) := by
  induction count with
  | zero => exact staged_start
  | succ count ih => exact (Staged.stage ⟨count, by omega⟩ (ih (by omega))).place le

/-! ## The loop follows the rule -/

section Rule

variable {vars : List Var} (holds : Staged goals settled c)
  (reach : PlannedGoal.Reach (goalsOf goals (c.order.toList.take settled)) vars)

include holds reach

/-- A goal may be chosen if it is staged, or if none is. -/
theorem Staged.mayFollow_eq (id : Fin n) (waits : id ∈ c.order.toList.drop settled) :
    mayFollow vars ((c.order.toList.drop settled).map goals.get) (goals.get id).2 =
      (c.staged.isEmpty || c.staged.contains id) := by
  have some_iff : (∃ x ∈ (c.order.toList.drop settled).map goals.get,
      x.2.SharesWith (goalsOf goals (c.order.toList.take settled))) ↔
        c.staged.isEmpty = false := by
    simp only [Std.TreeSet.isEmpty_eq_false_iff_exists_mem, holds.staged, List.mem_map,
      exists_exists_and_eq_and]
  rw [Bool.eq_iff_iff, mayFollow_iff reach, some_iff, Bool.or_eq_true, Std.TreeSet.contains_iff_mem,
    holds.staged]
  cases c.staged.isEmpty <;> simp [waits]

/-- The best slot is that of the goal that the rule chooses. -/
theorem Staged.bestSlot_eq (le : ρ → ρ → Bool) :
    let remaining := (c.order.toList.drop settled).map goals.get
    c.bestSlot le goals settled =
      (firstLeast (fun a b => le a.1.1 b.1.1) (remaining.zipIdx.filter fun (x, _) =>
        mayFollow vars remaining x.2)).map fun choice => settled + choice.2 := by
  intro remaining
  rw [bestSlot, List.zipIdx_eq_map_add, List.filter_map, firstLeast_map, List.zipIdx_map,
    List.filter_map, firstLeast_map, Option.map_map, Option.map_map]
  have same : (c.order.toList.drop settled).zipIdx.filter
      (fun e => mayFollow vars remaining (goals.get e.1).2) =
        (c.order.toList.drop settled).zipIdx.filter
          fun e => c.staged.isEmpty || c.staged.contains e.1 := by
    refine List.filter_congr fun e member => ?_
    exact holds.mayFollow_eq reach e.1 (List.fst_mem_of_mem_zipIdx member)
  simp only [Function.comp_def, Prod.map, id]
  rw [same]

/-- Placing a goal keeps the settled slots and chooses among the others by the rule. -/
theorem Staged.place_order (le : ρ → ρ → Bool) :
    ∃ later, (c.place le goals settled).order.toList = c.order.toList.take settled ++ later ∧
      later.map goals.get =
        chooseNext le vars ((c.order.toList.drop settled).map goals.get) := by
  have best := holds.bestSlot_eq reach le
  rw [Chaining.place, chooseNext]
  dsimp only at best ⊢
  cases chosen : firstLeast (fun a b => le a.1.1 b.1.1)
      (((c.order.toList.drop settled).map goals.get).zipIdx.filter fun (x, _) =>
        mayFollow vars ((c.order.toList.drop settled).map goals.get) x.2) with
  | none =>
      rw [chosen, Option.map_none] at best
      rw [best]
      exact ⟨_, (List.take_append_drop settled _).symm, rfl⟩
  | some choice =>
      rw [chosen, Option.map_some] at best
      obtain ⟨position, same, inside⟩ := bestSlot_lt best
      rw [best]
      dsimp only
      rw [toList_swapIfInBounds _ _ _ (same ▸ inside)]
      exact ⟨_, rfl, (bringForward_map _ _ _).symm⟩

end Rule

/-- The order is that of the slots up to some slot, followed by the other goals as the rule
arranges them. -/
def Follows (le : ρ → ρ → Bool) (goals : Vector (Ranked ρ) n) (order : List (Ranked ρ))
    (slot : Nat) (c : Chaining n) : Prop :=
  ∃ vars, PlannedGoal.Reach (goalsOf goals (c.order.toList.take (slot + 1))) vars ∧
    order = (c.order.toList.take (slot + 1)).map goals.get ++
      arrange le (n - (slot + 1)) vars ((c.order.toList.drop (slot + 1)).map goals.get)

theorem follows_start (le : ρ → ρ → Bool) {first : Ranked ρ} {rest : List (Ranked ρ)}
    (parts : goals.toList = first :: rest) :
    Follows le goals (first :: arrange le rest.length first.2.vars rest) 0 (start n) := by
  have ordered : (start n).order.toList.map goals.get = first :: rest := by
    rw [← parts, start, Vector.toList_ofFn]
    exact List.ext_getElem (by simp) (by simp [Vector.get])
  have front : ((start n).order.toList.take 1).map goals.get = [first] := by
    rw [List.map_take, ordered, List.take_succ_cons, List.take_zero]
  have back : ((start n).order.toList.drop 1).map goals.get = rest := by
    rw [List.map_drop, ordered, List.drop_succ_cons, List.drop_zero]
  have length : n - 1 = rest.length := by
    have count : goals.toList.length = n := Vector.length_toList
    rw [← count, parts, List.length_cons, Nat.add_sub_cancel]
  refine ⟨first.2.vars, ?_, ?_⟩
  · rw [goalsOf_eq_map, front]
    exact PlannedGoal.reach_singleton
  · rw [front, back, length, List.singleton_append]

/-- Settling one more slot, the loop takes the goal that the rule takes. -/
theorem Follows.advance {le : ρ → ρ → Bool} {order : List (Ranked ρ)} (slot : Fin n)
    (follows : Follows le goals order slot c) (holds : Staged goals slot c)
    (more : slot + 1 < n) :
    Follows le goals order (slot + 1) (c.advance le goals (indexByVar goals) slot) := by
  obtain ⟨vars, reach, rfl⟩ := follows
  obtain ⟨later, placed, chosen⟩ := (holds.stage slot).place_order reach le
  have sameOrder : (c.stage goals (indexByVar goals) slot).order = c.order := rfl
  rw [sameOrder] at placed chosen
  have parts : (c.order.toList.take (slot + 1)).length = slot + 1 := by
    rw [List.length_take, Vector.length_toList, Nat.min_eq_left more.le]
  have lengths := congrArg List.length placed
  rw [Vector.length_toList, List.length_append, parts] at lengths
  obtain ⟨id, later, rfl⟩ := List.exists_cons_of_length_pos (l := later) (by omega)
  have front : (c.advance le goals (indexByVar goals) slot).order.toList.take (slot + 1 + 1) =
      c.order.toList.take (slot + 1) ++ [id] := by
    rw [Chaining.advance, placed, List.append_cons]
    exact List.take_left' (by rw [List.length_append, parts, List.length_singleton])
  have back : (c.advance le goals (indexByVar goals) slot).order.toList.drop (slot + 1 + 1) =
      later := by
    rw [Chaining.advance, placed, List.append_cons]
    exact List.drop_left' (by rw [List.length_append, parts, List.length_singleton])
  have left : n - (slot + 1) = n - (slot + 1 + 1) + 1 := by omega
  refine ⟨appendAllNew vars (goals.get id).2.vars, ?_, ?_⟩
  · rw [front, goalsOf_concat]
    exact reach.concat _
  · rw [front, back, left, arrange, ← chosen, List.map_cons, List.map_append, List.append_assoc]
    rfl

theorem follows_settle (le : ρ → ρ → Bool) {first : Ranked ρ} {rest : List (Ranked ρ)}
    (parts : goals.toList = first :: rest) (count : Nat) (within : count ≤ n - 2) :
    Follows le goals (first :: arrange le rest.length first.2.vars rest) count
      (settle le goals (indexByVar goals) count within) := by
  induction count with
  | zero => exact follows_start le parts
  | succ count ih =>
      exact Follows.advance ⟨count, by omega⟩ (ih (by omega))
        (staged_settle le goals count (by omega)) (by dsimp only; omega)

/-- In the end all goals stand in the order that the rule gives; the last one is not moved. -/
theorem settle_order (le : ρ → ρ → Bool) {first : Ranked ρ} {rest : List (Ranked ρ)}
    (parts : goals.toList = first :: rest) :
    (settle le goals (indexByVar goals) (n - 2) (Nat.le_refl _)).order.toList.map goals.get =
      first :: arrange le rest.length first.2.vars rest := by
  obtain ⟨vars, _, follows⟩ := follows_settle le parts (n - 2) (Nat.le_refl _)
  generalize (settle le goals (indexByVar goals) (n - 2) (Nat.le_refl _)).order = order at *
  have short : ((order.toList.drop (n - 2 + 1)).map goals.get).length ≤ 1 := by simp; omega
  rw [follows, arrange_of_short le short, ← List.map_append, List.take_append_drop]

end Chaining

/-- The loop settles the order that the rule gives. -/
theorem chainOrder_eq_greedyOrder (le : ρ → ρ → Bool) (goals : List (Ranked ρ)) :
    chainOrder le goals = greedyOrder le goals := by
  have settled (sorted : List (Ranked ρ)) :
      (Chaining.settle le sorted.toArray.toVector (indexByVar sorted.toArray.toVector) _
        (Nat.le_refl _)).order.toList.map sorted.toArray.toVector.get =
      match sorted with
      | [] => []
      | first :: rest => first :: arrange le rest.length first.2.vars rest := by
    cases sorted with
    | nil => rfl
    | cons first rest => exact Chaining.settle_order le rfl
  rw [chainOrder, greedyOrder]
  exact settled _

end Planning

end RelationalSolver
