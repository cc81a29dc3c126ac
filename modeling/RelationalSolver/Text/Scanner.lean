/-!
# Scanning text

A scanner reads a text from the front.  It fails, without saying why, if the text
is not what it expects.
-/

namespace RelationalSolver.Text

/-- Computations that read a text, of which they keep the part that is still to be
read, and may fail. -/
abbrev Scanner := StateT (List Char) Option

namespace Scanner

/-- What is still to be read. -/
def rest : Scanner (List Char) := get

/-- The next character, which stays. -/
def peek : Scanner (Option Char) := do pure (← rest).head?

/-- Move past several characters. -/
def skip (count : Nat) : Scanner Unit := modify (·.drop count)

/-- Move past the characters that satisfy a condition, and return them. -/
def takeWhile (keep : Char → Bool) : Scanner (List Char) := do
  let taken := (← rest).takeWhile keep
  skip taken.length
  pure taken

/-- Move past the expected characters, if the text goes on with them. -/
def accept (expected : String) : Scanner Bool := do
  if expected.toList.isPrefixOf (← rest) then
    skip expected.length
    pure true
  else pure false

/-- Move past the expected characters, which must come next. -/
def expect (expected : String) : Scanner Unit := do
  unless ← accept expected do failure

/-- Read with a function on the characters that returns what it leaves. -/
def reading {α : Type} (read : List Char → Option (α × List Char)) : Scanner α := read

/-- Read the whole of a text. -/
def run? {α : Type} (scanner : Scanner α) (chars : List Char) : Option α :=
  match scanner.run chars with
  | some (value, []) => some value
  | _ => none

end Scanner

end RelationalSolver.Text
