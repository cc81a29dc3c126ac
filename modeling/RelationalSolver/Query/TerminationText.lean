import RelationalSolver.Query.Termination
import RelationalSolver.Constraint.Text

/-!
# Written form of terminations
-/

namespace RelationalSolver

/-- Decimal places without zeros at their end. -/
def trimmedPlaces (millis : Nat) : String :=
  let digits := (toString (1000 + millis)).toList.drop 1
  String.ofList (digits.reverse.dropWhile (· = '0')).reverse

/-- A time in the largest unit that is not below one. -/
def millisText (millis : Nat) : String :=
  if millis = 0 then "0ns"
  else if millis < 1000 then toString millis ++ "ms"
  else
    let places := trimmedPlaces (millis % 1000)
    toString (millis / 1000) ++ (if places.isEmpty then "" else "." ++ places) ++ "s"

namespace Termination

mutual

/-- The kind of a termination and its limit. -/
def text : Termination → String
  | .solutionCount limit => recordText "SolutionCountTermination" [("limit", toString limit)]
  | .stepCount limit => recordText "StepCountTermination" [("limit", toString limit)]
  | .time millis => recordText "TimeTermination" [("limit", millisText millis)]
  | .any terminations =>
      recordText "OrTermination" [("terminations", listText (texts terminations))]

/-- The written forms of several terminations. -/
def texts : List Termination → List String
  | [] => []
  | t :: ts => t.text :: texts ts

end

end Termination

end RelationalSolver
