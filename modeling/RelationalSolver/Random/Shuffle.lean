import RelationalSolver.Random.Generator

/-!
# Seeded permutations

Item after item is swapped with one at or before its place.  Several choices of
places are drawn at once, as one number below the product of their bounds.
-/

namespace RelationalSolver.Random

/-- Widen a product of successive factors as far as it fits into a word, and
return it with the first factor left out. -/
def widen (product factor : Nat) : Nat × Nat :=
  if product < product * factor ∧ product * factor < 0x100000000 then
    widen (product * factor) (factor + 1)
  else (product, factor)
termination_by 0x100000000 - product

/-- Places still to be read off a drawn number. -/
structure Places where
  /-- Number of items placed so far. -/
  placed : Nat
  chunk : Nat
  /-- How many places `chunk` still determines. -/
  remaining : Nat

/-- The first item has only one place, so nothing is drawn for it. -/
def Places.start : Places := ⟨0, 0, 1⟩

/-- The place of the next item, at most the number of items placed before. -/
def Places.next (places : Places) (gen : Generator) : Nat × Places × Generator :=
  let bound := places.placed + 1
  let (chunk, remaining, gen) :=
    if places.remaining = 0 then
      let (product, factor) := widen bound (bound + 1)
      let (drawn, gen) := gen.below product.toUInt32
      (drawn.toNat, factor - bound, gen)
    else (places.chunk, places.remaining, gen)
  let remaining := remaining - 1
  if remaining = 0 then (chunk, ⟨bound, chunk, remaining⟩, gen)
  else (chunk % bound, ⟨bound, chunk / bound, remaining⟩, gen)

/-- Swap the items from place `i` on, `count` of them, with drawn places. -/
def swapFrom {α : Type} (items : Array α) (places : Places) (gen : Generator) (i : Nat) :
    Nat → Array α
  | 0 => items
  | count + 1 =>
      let (j, places, gen) := places.next gen
      swapFrom (items.swapIfInBounds i j) places gen (i + 1) count

/-- The permutation of a list that belongs to a seed. -/
def shuffle {α : Type} (seed : UInt64) (items : List α) : List α :=
  if items.length ≤ 1 then items
  else (swapFrom items.toArray .start (.ofSeed seed) 0 items.length).toList

end RelationalSolver.Random
