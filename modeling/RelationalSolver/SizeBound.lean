/-!
# Bounds on numbers of answers

A bound is an exact count, an upper limit, or no limit at all.  Counts saturate
at the largest value of a 64-bit word.
-/

namespace RelationalSolver

/-- How many answers a goal may have. -/
inductive SizeBound where
  | exact (count : Nat)
  | atMost (count : Nat)
  | unbounded
deriving DecidableEq, Inhabited

namespace SizeBound

/-- The largest count. -/
def ceiling : Nat := 0xffffffffffffffff

/-- Counts above the ceiling are kept as the ceiling. -/
def saturate (count : Nat) : Nat := min count ceiling

/-- The limit, if there is one. -/
def upper : SizeBound → Option Nat
  | .exact count => some count
  | .atMost count => some count
  | .unbounded => none

/-- There can be no answer. -/
def isZero (bound : SizeBound) : Bool := bound.upper = some 0

/-- The count is known, not only limited. -/
def isExact : SizeBound → Bool
  | .exact _ => true
  | _ => false

/-- The limit as a float, infinite if there is none. -/
def toFloat (bound : SizeBound) : Float :=
  match bound.upper with
  | some count => count.toUInt64.toFloat
  | none => 1.0 / 0.0

/-- Answers of a conjunction of two goals.  Zero wins over everything. -/
def times (a b : SizeBound) : SizeBound :=
  if a.isZero || b.isZero then .exact 0
  else
    match a, b with
    | .exact m, .exact n => .exact (saturate (m * n))
    | .unbounded, _ => .unbounded
    | _, .unbounded => .unbounded
    | .exact m, .atMost n => .atMost (saturate (m * n))
    | .atMost m, .exact n => .atMost (saturate (m * n))
    | .atMost m, .atMost n => .atMost (saturate (m * n))

/-- Answers of a disjunction of two goals. -/
def plus (a b : SizeBound) : SizeBound :=
  match a, b with
  | .exact m, .exact n => .exact (saturate (m + n))
  | .unbounded, _ => .unbounded
  | _, .unbounded => .unbounded
  | .exact m, .atMost n => .atMost (saturate (m + n))
  | .atMost m, .exact n => .atMost (saturate (m + n))
  | .atMost m, .atMost n => .atMost (saturate (m + n))

/-- Answers of a conjunction of any number of goals. -/
def product (bounds : List SizeBound) : SizeBound := bounds.foldl times (.exact 1)

/-- Answers of a disjunction of any number of goals. -/
def sum (bounds : List SizeBound) : SizeBound := bounds.foldl plus (.exact 0)

end SizeBound

end RelationalSolver
