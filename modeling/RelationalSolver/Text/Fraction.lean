import RelationalSolver.Text.Digits

/-!
# Decimal fractions

Numbers with decimal places or an exponent.  No setting takes one, but a text is
only a number if it lies in the range of the numbers with 64 bits.
-/

namespace RelationalSolver.Text

/-- A number without a sign as it is written. -/
structure Fraction where
  /-- The digits before the point. -/
  whole : List Char
  /-- The digits after the point. -/
  places : List Char
  /-- The power of ten that both are multiplied with. -/
  exponent : Int
deriving DecidableEq

namespace Fraction

/-- An exponent after its letter. -/
def exponent? (chars : List Char) : Option Int :=
  match chars with
  | '-' :: digits => (-Int.ofNat ·) <$> number? 10 digits
  | '+' :: digits => Int.ofNat <$> number? 10 digits
  | digits => Int.ofNat <$> number? 10 digits

/-- Read a fraction.  The digits on one side of the point may be missing, and so
may the point and the exponent. -/
def read? (chars : List Char) : Option Fraction := do
  let whole := chars.takeWhile (isDigitOf 10)
  let rest := chars.drop whole.length
  let (places, rest) := match rest with
    | '.' :: rest =>
        let places := rest.takeWhile (isDigitOf 10)
        (places, rest.drop places.length)
    | _ => ([], rest)
  if whole.isEmpty && places.isEmpty then none
  match rest with
  | [] => pure ⟨whole, places, 0⟩
  | letter :: digits =>
      if letter = 'e' || letter = 'E' then pure ⟨whole, places, ← exponent? digits⟩ else none

/-- The least number that is rounded to infinity, half a step above the largest
number of 64 bits. -/
def limit : Nat := Nat.pow 2 1024 - Nat.pow 2 970

/-- Number of digits of the limit. -/
def limitDigits : Nat := 309

/-- The number is not below the limit.  The digits are only compared if the point
stands where it does in the limit. -/
def overflows (fraction : Fraction) : Bool :=
  let written := fraction.whole ++ fraction.places
  let digits := written.dropWhile (· = '0')
  let zeros := written.length - digits.length
  let point : Int := Int.ofNat fraction.whole.length - Int.ofNat zeros + fraction.exponent
  match number? 10 digits with
  | none => false
  | some value =>
      if point = limitDigits then
        limit * Nat.pow 10 (digits.length - limitDigits) ≤
          value * Nat.pow 10 (limitDigits - digits.length)
      else Int.ofNat limitDigits < point

end Fraction

end RelationalSolver.Text
