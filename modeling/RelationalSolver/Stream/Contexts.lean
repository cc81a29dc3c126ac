import RelationalSolver.Constraint.Text
import RelationalSolver.Context.Text
import RelationalSolver.Stream.Run

/-!
# Pulling contexts from a stream

Suspensions are forced until a context appears.  A fault is reported once and
ends the stream.
-/

namespace RelationalSolver

/-- A stream that contexts are pulled from. -/
structure Contexts where
  /-- What is left; nothing after the end or a fault. -/
  stream : Option Stream
  /-- Suspensions forced so far. -/
  steps : Nat

namespace Contexts

/-- Begin to pull from a stream. -/
def ofStream (s : Stream) : Contexts := ⟨some s, 0⟩

/-- Pull the next context with at most so many moves. -/
def next (program : Program) : Nat → Contexts →
    Engine (Contexts × Option (Except Fault Context))
  | 0, _ => throw .unending
  | moves + 1, pulled =>
      match pulled.stream with
      | none => pure (pulled, none)
      | some stream => do
          match ← stream.step program with
          | .done => pure ({ pulled with stream := none }, none)
          | .yield ctx rest => pure ({ pulled with stream := some rest }, some (.ok ctx))
          | .forced rest => next program moves ⟨some rest, pulled.steps + 1⟩
          | .fault fault => pure ({ pulled with stream := none }, some (.error fault))

/-- What a pull gave, and how many suspensions were forced up to then. -/
structure Pull where
  item : Option (Except Fault Context)
  steps : Nat

/-- Pull so many times, or until the end, with at most so many moves for each
pull.  The end is part of the list. -/
def pulls (program : Program) (moves : Nat) : Nat → Contexts → Engine (List Pull × Contexts)
  | 0, pulled => pure ([], pulled)
  | count + 1, pulled => do
      let (pulled, item) ← pulled.next program moves
      let pull : Pull := ⟨item, pulled.steps⟩
      if item.isNone then pure ([pull], pulled)
      else
        let (later, final) ← pulls program moves count pulled
        pure (pull :: later, final)

/-- How many steps were taken, and whether there is more. -/
def text (pulled : Contexts) : String :=
  recordText "Contexts" [("steps", toString pulled.steps),
    ("exhausted", toString pulled.stream.isNone)]

end Contexts

/-- What a stream shows without being forced. -/
def Stream.text (label : FacetKey → String) : Stream → String
  | .empty => "Empty"
  | .ready ctx rest => "Cons(" ++ ctx.text ++ ", " ++ rest.text label ++ ")"
  | .suspended _ => "Suspended(..)"
  | .aborted fault => "Abort(" ++ recordText "Fault"
      [("subject", Text.quotedString fault.subject),
        ("message", Text.quotedString (fault.message label))] ++ ")"

end RelationalSolver
