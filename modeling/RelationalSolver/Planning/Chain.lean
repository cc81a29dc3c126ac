import RelationalSolver.Planning.Plan

/-!
# Chaining goals by shared variables

Goals that report their variables and are sized are put into a greedy order: the
one of least rank first, then again and again the one of least rank among those
that share a variable with a goal already placed, or among all that are left if
none does.  The other goals follow in their own order.

The goals are sorted by their ranks, and the place of a goal there is its id.
The order of the ids is settled slot by slot from the front.  Whenever a goal is
placed, the goals that share one of its variables and are still to be placed are
staged, and an index by variables says which they are.
-/

namespace RelationalSolver.Planning

variable {ρ : Type} {n : Nat}

/-- A goal and its rank. -/
abbrev Ranked (ρ : Type) := ρ × PlannedGoal

/-- The first of the least items. -/
def firstLeast {α : Type} (le : α → α → Bool) : List α → Option α
  | [] => none
  | item :: rest =>
      match firstLeast le rest with
      | none => some item
      | some best => some (if le item best then item else best)

/-- For every variable the ids of the goals that can reach it. -/
abbrev VarIndex (n : Nat) := Std.TreeMap Var (List (Fin n))

/-- Note that a goal can reach a variable. -/
def VarIndex.record (id : Fin n) (index : VarIndex n) (v : Var) : VarIndex n :=
  index.alter v fun ids => some (ids.getD [] ++ [id])

/-- The ids of the goals by variables. -/
def indexByVar (goals : Vector (Ranked ρ) n) : VarIndex n :=
  (List.finRange n).foldl (fun index id => (goals.get id).2.vars.foldl (VarIndex.record id) index) ∅

/-- How far goals are chained. -/
structure Chaining (n : Nat) where
  /-- The id of the goal in each slot. -/
  order : Vector (Fin n) n
  /-- The ids from which the next goal is taken, if there are any. -/
  staged : Std.TreeSet (Fin n)

namespace Chaining

/-- Every goal stands in the slot of its id. -/
def start (n : Nat) : Chaining n := ⟨.ofFn id, ∅⟩

/-- Stage the goals that share a variable with the goal in a slot and do not stand
in a slot up to that one. -/
def stage (goals : Vector (Ranked ρ) n) (index : VarIndex n) (slot : Fin n) (c : Chaining n) :
    Chaining n :=
  let current := c.order.get slot
  let placed := c.order.toList.take (slot + 1)
  let sharing := (goals.get current).2.vars.flatMap fun v => index.getD v []
  let staged := sharing.foldl (fun staged id => if id ∈ placed then staged else staged.insert id)
    c.staged
  { c with staged := staged.erase current }

/-- The slot of the goal to take, from some slot on: the first one of least rank
among the staged ones, or among all if none is staged. -/
def bestSlot (le : ρ → ρ → Bool) (goals : Vector (Ranked ρ) n) (slot : Nat) (c : Chaining n) :
    Option Nat :=
  let candidates := ((c.order.toList.drop slot).zipIdx slot).filter fun (id, _) =>
    c.staged.isEmpty || c.staged.contains id
  (firstLeast (fun a b => le (goals.get a.1).1 (goals.get b.1).1) candidates).map (·.2)

/-- Swap the goal to take into a slot. -/
def place (le : ρ → ρ → Bool) (goals : Vector (Ranked ρ) n) (slot : Nat) (c : Chaining n) :
    Chaining n :=
  match c.bestSlot le goals slot with
  | some best => { c with order := c.order.swapIfInBounds slot best }
  | none => c

/-- Settle which goal stands behind a slot. -/
def advance (le : ρ → ρ → Bool) (goals : Vector (Ranked ρ) n) (index : VarIndex n)
    (slot : Fin n) (c : Chaining n) : Chaining n :=
  (c.stage goals index slot).place le goals (slot + 1)

/-- So many slots behind the first are settled.  One goal that is left over has its
place already. -/
def settle (le : ρ → ρ → Bool) (goals : Vector (Ranked ρ) n) (index : VarIndex n) :
    (count : Nat) → count ≤ n - 2 → Chaining n
  | 0, _ => start n
  | count + 1, within =>
      (settle le goals index count (by omega)).advance le goals index ⟨count, by omega⟩

end Chaining

/-- The order of ranked goals, the one of least rank first. -/
def chainOrder (le : ρ → ρ → Bool) (goals : List (Ranked ρ)) : List (Ranked ρ) :=
  let sorted := (goals.mergeSort fun a b => le a.1 b.1).toArray.toVector
  let chained := Chaining.settle le sorted (indexByVar sorted) _ (Nat.le_refl _)
  chained.order.toList.map sorted.get

/-- Number of goals that can reach a variable. -/
def mentionCount (goals : List PlannedGoal) (v : Var) : Nat :=
  (goals.filter fun p => v ∈ p.vars).length

/-- The size of a goal divided by its entanglement: the product, over its
variables, of the numbers of goals that can reach them. -/
def entangledRank (goals : List PlannedGoal) (p : PlannedGoal) : Float :=
  let entanglement := p.vars.foldl
    (fun product v => product * (mentionCount goals v).toUInt64.toFloat) 1.0
  p.sizeFloat / (if entanglement < 1.0 then 1.0 else entanglement)

/-- Order the goals that report variables and are sized by their entangled
sizes, before the others. -/
def chainSharedVars (goals : List PlannedGoal) : List PlannedGoal :=
  let (ranked, others) := goals.partition (·.isRanked)
  let order := chainOrder rankLE (ranked.map fun p => (entangledRank ranked p, p))
  order.map (·.2) ++ others

end RelationalSolver.Planning
