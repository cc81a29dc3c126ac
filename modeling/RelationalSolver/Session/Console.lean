import RelationalSolver.Rounding
import RelationalSolver.Session.Notice

/-!
# Lines for a terminal

The notices about the start and the end of a run are shown as coloured lines.
Other notices are not shown.  A line is put together from the fields of its
notice, whichever of them are there.  The time in front of it is not part of the
line.
-/

namespace RelationalSolver.Console

/-! ## Colours -/

/-- Foreground colours. -/
inductive Colour where
  | yellow
  | white
  | brightGreen
  | brightYellow
  | brightMagenta
  | brightCyan
deriving DecidableEq

/-- The number that selects a colour. -/
def Colour.code : Colour → Nat
  | .yellow => 33
  | .white => 37
  | .brightGreen => 92
  | .brightYellow => 93
  | .brightMagenta => 95
  | .brightCyan => 96

/-- A text in a colour, and then in the usual one again. -/
def coloured (colour : Colour) (text : String) : String :=
  "\x1b[" ++ toString colour.code ++ "m" ++ text ++ "\x1b[39m"

/-- A text in heavy type, and then nothing special any more. -/
def heavy (text : String) : String := "\x1b[1m" ++ text ++ "\x1b[0m"

/-! ## Numbers -/

/-- Digits from the last to the first, with a comma after every three. -/
def grouped : List Char → List Char
  | a :: b :: c :: d :: rest => a :: b :: c :: ',' :: grouped (d :: rest)
  | digits => digits

/-- A count in groups of three digits. -/
def countText (count : Nat) : String :=
  String.ofList (grouped (toString count).toList.reverse).reverse

/-- Seconds with two decimal places, rounded from a float. -/
def secondsText (millis : Nat) : String :=
  let (numerator, denominator) := Rounding.fraction (millis.toUInt64.toFloat / 1000)
  let hundredths := Rounding.quotient (numerator * 100) denominator
  let places := (toString (100 + hundredths % 100)).drop 1
  toString (hundredths / 100) ++ "." ++ places ++ "s"

/-- A time in milliseconds, in seconds, or in minutes and seconds. -/
def timeText (millis : Nat) : String :=
  if millis < 1000 then toString millis ++ "ms"
  else if millis < 60000 then secondsText millis
  else toString (millis / 60000) ++ "m " ++ toString (millis % 60000 / 1000) ++ "s"

/-! ## Lines -/

/-- A text that was recorded in its quoted form, without quotes at its ends. -/
def unquoted (text : String) : String :=
  let isQuote (c : Char) : Bool := c = '"'
  let chars := (Text.quotedString text).toList.dropWhile isQuote
  String.ofList (chars.reverse.dropWhile isQuote).reverse

/-- The fields that lines show. -/
structure Report where
  event : Option String
  goal : Option String
  projected : Option Nat
  steps : Option Nat
  solutions : Option Nat
  millis : Option Nat
  terminatedEarly : Bool
deriving Inhabited

namespace Report

/-- No field at all. -/
def empty : Report := ⟨none, none, none, none, none, none, false⟩

/-- Take note of a field.  Fields that are not shown are passed over, and so are
values of another kind. -/
def record (report : Report) : String × FieldValue → Report
  | ("event", .text value) => { report with event := some value }
  | ("goal", .text value) => { report with goal := some value }
  | ("projected", .count value) => { report with projected := some value }
  | ("steps", .count value) => { report with steps := some value }
  | ("solutions", .count value) => { report with solutions := some value }
  | ("duration_ms", .count value) => { report with millis := some value }
  | ("terminated_early", .flag value) => { report with terminatedEarly := value }
  | _ => report

/-- The same report, if its texts were recorded in their quoted form. -/
def unquote (report : Report) : Report :=
  { report with event := report.event.map unquoted, goal := report.goal.map unquoted }

/-- The fields of a notice that lines show. -/
def ofFields (fields : List (String × FieldValue)) : Report := fields.foldl record empty

/-- What every line begins with. -/
def opening : String := coloured .brightGreen "INFO" ++ " " ++ coloured .brightCyan "[Query]" ++ " "

/-- The line about the start of a run. -/
def startLine (report : Report) : String :=
  opening ++ "goal (" ++ heavy (coloured .white (report.goal.getD "?")) ++
    "), projected variables (" ++ coloured .yellow (toString (report.projected.getD 0)) ++ ")"

/-- How a run ended. -/
def status (report : Report) : String :=
  if report.terminatedEarly then coloured .brightYellow "terminated early"
  else coloured .brightGreen "exhausted"

/-- The line about the end of a run. -/
def endLine (report : Report) : String :=
  opening ++ "Query ended (" ++ report.status ++
    "): time spent (" ++ coloured .yellow (timeText (report.millis.getD 0)) ++
    "), solutions (" ++
      heavy (coloured .brightMagenta (countText (report.solutions.getD 0))) ++
    "), steps (" ++ coloured .white (countText (report.steps.getD 0)) ++ ")"

/-- The line of a report, if it is about the start or the end of a run. -/
def line? (report : Report) : Option String :=
  match report.event with
  | some "query_start" => some report.startLine
  | some "query_end" => some report.endLine
  | _ => none

end Report

/-- The line that shows a notice, if there is one. -/
def line? (notice : Notice) : Option String := (Report.ofFields notice.fields).line?

end RelationalSolver.Console
