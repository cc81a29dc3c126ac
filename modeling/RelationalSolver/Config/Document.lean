/-!
# Documents

What is left of the text of a configuration once its format no longer matters.
-/

namespace RelationalSolver

/-- What the text of a configuration can hold. -/
inductive Document where
  | null
  | bool (value : Bool)
  /-- An integer that has no sign. -/
  | natural (value : Nat)
  /-- An integer that may have a sign. -/
  | int (value : Int)
  /-- A number that is no integer. -/
  | fraction
  /-- A date or a time.  It has parts, but none that a setting could be. -/
  | moment
  | text (value : String)
  | list (items : List Document)
  /-- Entries in the order of the text.  A key may come up more than once. -/
  | table (entries : List (Document × Document))
deriving Inhabited

namespace Document

/-- A count of 64 bits. -/
def count? : Document → Option Nat
  | .natural value => if value < 0x10000000000000000 then some value else none
  | .int value => if 0 ≤ value && value < 0x10000000000000000 then some value.toNat else none
  | _ => none

/-- A truth value. -/
def flag? : Document → Option Bool
  | .bool value => some value
  | _ => none

/-- A text. -/
def text? : Document → Option String
  | .text value => some value
  | _ => none

end Document

/-- What a field has, if it has something.  Two values are an error. -/
def onlyValue? {α κ : Type} [DecidableEq κ] (field : κ) (entries : List (κ × α)) :
    Option (Option α) :=
  match entries.filter (·.1 = field) with
  | [] => some none
  | [(_, value)] => some (some value)
  | _ => none

end RelationalSolver
