/-!
# Numbers in text
-/

namespace RelationalSolver.Text

/-- The value of a digit; letters of both cases follow the ten digits. -/
def digitValue? (c : Char) : Option Nat :=
  if '0' ≤ c && c ≤ '9' then some (c.toNat - '0'.toNat)
  else if 'a' ≤ c && c ≤ 'z' then some (c.toNat - 'a'.toNat + 10)
  else if 'A' ≤ c && c ≤ 'Z' then some (c.toNat - 'A'.toNat + 10)
  else none

/-- The character is a digit of numbers to the base. -/
def isDigitOf (base : Nat) (c : Char) : Bool :=
  match digitValue? c with
  | some value => value < base
  | none => false

/-- The number that digits stand for.  There has to be at least one digit, and
nothing but digits. -/
def number? (base : Nat) (digits : List Char) : Option Nat :=
  if digits.isEmpty || digits.any (!isDigitOf base ·) then none
  else some (digits.foldl (fun value c => value * base + (digitValue? c).getD 0) 0)

/-- The character with the code point that hexadecimal digits stand for. -/
def charOfHex? (digits : List Char) : Option Char := do
  let code ← number? 16 digits
  if code.isValidChar then some (Char.ofNat code) else none

end RelationalSolver.Text
