import RelationalSolver.Proofs.Context.Detached
import RelationalSolver.Proofs.Context.Unobstructed
import RelationalSolver.Proofs.Query.Turns
import RelationalSolver.Proofs.Session.Engine
import RelationalSolver.Proofs.Stream.Strictness
import RelationalSolver.Proofs.Stream.Upkeep
import RelationalSolver.Query.Run

/-!
# Collisions in runs of a query

If the root of a query is unobstructed, no pull stops on a collision.  What goes wrong
in a run is an error that names the violated invariant, and with it the run ends.
-/

namespace RelationalSolver

open Engine

/-- What the move leaves of the stream carries unobstructed contexts only. -/
def Move.Unobstructed : Move → Prop
  | .yield _ rest => Discipline.Hands Context.Unobstructed rest
  | .forced next => Discipline.Hands Context.Unobstructed next
  | .done => True
  | .fault _ => True

namespace Run

variable {program : Program} {q : Query} {run : Run}

/-- What is left to search carries unobstructed contexts only. -/
def Unobstructed (run : Run) : Prop :=
  ∀ s, run.stream = some s → Discipline.Hands Context.Unobstructed s

/-- What a pull may give: nothing from a run that has ended, and an error only with the
end of the run, and only for a violated invariant. -/
structure Sound (run : Run) (result : Run × Pulled) : Prop where
  left : result.1.Unobstructed
  ended : run.stream = none → result.2 = none
  failed : ∀ e, result.2 = some (.error e) → result.1.stream = none ∧ ∃ fault, e = .invariant fault

end Run

/-! ## Collisions that are reported -/

namespace Run

variable {program : Program} {q : Query} {run later : Run} {pulled : Pulled} {moves count : Nat}

/-- What is left to search does not end without a fault. -/
def Doomed (run : Run) : Prop := ∃ s, run.stream = some s ∧ s.Doomed

/-- The run was terminated, or the last pull gave the error, if so many pulls were not given. -/
def CutShort (count : Nat) (result : Run × List (Except SolverError Solution)) : Prop :=
  result.2.length < count → result.1.terminatedEarly = true ∨
    ∃ fault, result.2.getLast? = some (.error (.invariant fault))

theorem CutShort.cons {rest : List (Except SolverError Solution)}
    (short : CutShort count (run, rest)) (item : Except SolverError Solution) :
    CutShort (count + 1) (run, item :: rest) := by
  intro few
  refine (short (Nat.lt_of_succ_lt_succ few)).imp_right fun ⟨fault, last⟩ => ⟨fault, ?_⟩
  rw [List.getLast?_cons, last, Option.getD_some]

/-- What is given by a pull and by those after it. -/
def goOn (program : Program) (q : Query) (moves count : Nat) :
    Run × Pulled → Engine (Run × List (Except SolverError Solution))
  | (run, none) => pure (run, [])
  | (run, some pulled) => do
      let (run, later) ← run.pulls program q moves count
      pure (run, pulled :: later)

end Run

/-! ## The roots of queries -/

/-- A context in which a name is taken. -/
def Context.taken (name : String) : Context := ⟨[⟨.custom ⟨name, "Other"⟩, (0 : Int)⟩]⟩

end RelationalSolver
