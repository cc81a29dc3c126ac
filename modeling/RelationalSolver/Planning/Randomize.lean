import RelationalSolver.Planning.Plan
import RelationalSolver.Random.Shuffle

/-!
# Random row orders

Every relation goal gets a row order of its own.  The seeds of one planning run
are drawn from a generator seeded with the seed of the pass and the number of
bindings made so far, so a query that is run again visits the same orders.
-/

namespace RelationalSolver.Planning

/-- The seed of one planning run. -/
def planningSeed (seed : UInt64) (bindings : Nat) : UInt64 :=
  let count := bindings.toUInt64
  seed ^^^ ((count <<< 32) ||| (count >>> 32))

/-- Draw a row order for every relation goal, in order. -/
def shuffleRows : Random.Generator → List PlannedGoal → List PlannedGoal
  | _, [] => []
  | gen, p :: ps =>
      match p.goal.asApplication? with
      | none => p :: shuffleRows gen ps
      | some a =>
          let (seed, gen) := gen.doubleWord
          p.replaced (.relation (a.withOrder (.shuffled seed))) :: shuffleRows gen ps

/-- Visit the rows of every relation goal in a seeded random order. -/
def randomizeOrder (seed : UInt64) (bindings : Nat) (goals : List PlannedGoal) :
    List PlannedGoal :=
  shuffleRows (.ofSeed (planningSeed seed bindings)) goals

end RelationalSolver.Planning
