/-!
# Rounding

Floats are rounded by way of the fraction that they are exactly.
-/

namespace RelationalSolver.Rounding

/-- A quotient rounded to the nearest whole number, ties to the even one. -/
def quotient (numerator denominator : Nat) : Nat :=
  let whole := numerator / denominator
  let twice := 2 * (numerator % denominator)
  if twice < denominator then whole
  else if twice > denominator then whole + 1
  else whole + whole % 2

/-- The worth of the leading digit of a float, which its bits leave out. -/
def leading : Nat := 0x10000000000000

/-- A nonnegative finite float as a fraction of whole numbers. -/
def fraction (x : Float) : Nat × Nat :=
  let bits := x.toBits.toNat
  let exponent := bits / leading % 0x800
  let digits := bits % leading
  let (digits, exponent) := if exponent = 0 then (digits, 1) else (digits + leading, exponent)
  if exponent ≥ 1075 then (digits <<< (exponent - 1075), 1) else (digits, 1 <<< (1075 - exponent))

end RelationalSolver.Rounding
