import RelationalSolver.Query.Run

/-!
# Pulling runs by hand

The consumer of a run decides when to pull and when to give the run up.  A run
that is given up ends then, unless it has ended before.  Several runs of one
query can be under way at the same time: each has a stream and a scope of its
own, and what they share is the session.
-/

namespace RelationalSolver

namespace Run

/-- A computation during which a run is under way.  The run is given up if the
computation stops short. -/
def during {α : Type} (q : Query) (run : Run) (computation : Engine α) : Engine α := do
  try computation
  catch halt => do
    discard (run.finish q)
    throw halt

/-- What a pull gave, and how many suspensions were forced up to then. -/
structure Pull where
  pulled : Pulled
  steps : Nat

/-- Pull at most so many times, each with at most so many moves, until two pulls
in a row give nothing: a run that has ended gives nothing for ever. -/
def iterate (program : Program) (q : Query) (moves : Nat) :
    Nat → Bool → Run → Engine (List Pull × Run)
  | 0, _, run => pure ([], run)
  | count + 1, ended, run => do
      let (run, pulled) ← run.next program q moves
      let pull : Pull := ⟨pulled, run.scope.steps⟩
      if ended && pulled.isNone then pure ([pull], run)
      else
        let (later, final) ← iterate program q moves count pulled.isNone run
        pure (pull :: later, final)

/-- Pull two runs in turns, so many times each, with at most so many moves for
each pull. -/
def alternate (program : Program) (q : Query) (moves : Nat) :
    Nat → Run → Run → Engine (List (Pulled × Pulled) × Run × Run)
  | 0, a, b => pure ([], a, b)
  | count + 1, a, b => do
      let (a, fromA) ← b.during q (a.next program q moves)
      let (b, fromB) ← a.during q (b.next program q moves)
      let (later, ends) ← alternate program q moves count a b
      pure ((fromA, fromB) :: later, ends)

end Run

namespace Query

/-- Pull a new run until it has shown twice that it has ended, or so many times,
and give it up. -/
def iterate (program : Program) (q : Query) (moves count : Nat) :
    Engine (List Run.Pull × Run) := do
  let (pulls, run) ← (← Run.start q).iterate program q moves count false
  pure (pulls, ← run.finish q)

/-- Pull two new runs in turns, and give up the second and then the first. -/
def alternate (program : Program) (q : Query) (moves count : Nat) :
    Engine (List (Run.Pulled × Run.Pulled) × Run × Run) := do
  let a ← Run.start q
  let b ← a.during q (Run.start q)
  let (pulls, a, b) ← Run.alternate program q moves count a b
  let b ← b.finish q
  pure (pulls, ← a.finish q, b)

end Query

end RelationalSolver
