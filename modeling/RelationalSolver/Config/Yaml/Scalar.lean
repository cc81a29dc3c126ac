import RelationalSolver.Config.Document
import RelationalSolver.Config.Yaml.Token
import RelationalSolver.Text.Fraction

/-!
# YAML: what scalars stand for

A plain scalar stands for nothing, a truth value or a number if it looks like one;
any other scalar is a text, unless its tag says that it is something else.
-/

namespace RelationalSolver.Yaml

open Text

/-! ## Values of plain scalars -/

/-- A word for nothing. -/
def isNull (text : String) : Bool := text ∈ ["null", "Null", "NULL", "~"]

/-- A word for a truth value. -/
def flag? (text : String) : Option Bool :=
  if text ∈ ["true", "True", "TRUE"] then some true
  else if text ∈ ["false", "False", "FALSE"] then some false
  else none

/-- A number without its sign. -/
def unsigned (chars : List Char) : List Char :=
  match chars with
  | '-' :: rest => rest
  | '+' :: rest => rest
  | _ => chars

/-- Several digits with a zero at their front are not a number. -/
def isPadded (chars : List Char) : Bool :=
  match unsigned chars with
  | '0' :: rest => !rest.isEmpty && rest.all (isDigitOf 10)
  | _ => false

/-- An integer. -/
structure Integer where
  negative : Bool
  magnitude : Nat
deriving DecidableEq

/-- Read an integer: with a base, or decimal. -/
def integer? (text : String) : Option Integer := do
  let chars := text.toList
  let magnitude ← match unsigned chars with
    | '0' :: 'x' :: digits => number? 16 digits
    | '0' :: 'o' :: digits => number? 8 digits
    | '0' :: 'b' :: digits => number? 2 digits
    | digits => if isPadded chars then none else number? 10 digits
  pure ⟨chars.head? = some '-', magnitude⟩

/-- The integer has so many bits, of which one is for the sign of a negative
one. -/
def Integer.fits (bits : Nat) (value : Integer) : Bool :=
  if value.negative then value.magnitude ≤ Nat.pow 2 (bits - 1)
  else value.magnitude < Nat.pow 2 bits

/-- The integer as part of a document. -/
def Integer.document (value : Integer) : Document :=
  if value.negative then .int (-Int.ofNat value.magnitude) else .natural value.magnitude

/-- A count of 64 bits. -/
def count? (text : String) : Option Nat :=
  match integer? text with
  | some value => if !value.negative && value.fits 64 then some value.magnitude else none
  | none => none

/-- A number in the range of 64 bits, an infinity, or no number. -/
def isFraction (text : String) : Bool :=
  let chars := text.toList
  let isNumber := (Fraction.read? (unsigned chars)).any (!·.overflows)
  isNumber || String.ofList (unsigned chars) ∈ [".inf", ".Inf", ".INF"] ||
    text ∈ [".nan", ".NaN", ".NAN"]

/-! ## Tags -/

/-- The tag of a truth value. -/
def boolTag : Tag := .ofString "tag:yaml.org,2002:bool"

/-- The tag of an integer. -/
def intTag : Tag := .ofString "tag:yaml.org,2002:int"

/-- The tag of a number that need not be an integer. -/
def floatTag : Tag := .ofString "tag:yaml.org,2002:float"

/-- The tag of nothing. -/
def nullTag : Tag := .ofString "tag:yaml.org,2002:null"

/-- The tag has an exclamation mark at its front: its meaning is left to the
document. -/
def Tag.isLocal (tag : Tag) : Bool := (Tag.ofString "!").isPrefixOf tag

/-- The name of an alternative that a tag selects, if it is a text. -/
def Tag.alternative? (tag : Tag) : Option String :=
  if tag.isLocal then String.fromUTF8? ⟨tag.tail.toArray⟩ else none

/-! ## Documents of scalars -/

/-- What a plain scalar stands for.  Integers of more than 64 bits are an error,
up to a size from which on they are taken for fractions. -/
def plainDocument? (text : String) : Option Document :=
  if text.isEmpty || isNull text then some .null
  else
    match flag? text, integer? text with
    | some value, _ => some (.bool value)
    | none, some value =>
        if value.fits 64 then some value.document
        else if value.fits 128 then none
        else if isFraction text then some .fraction
        else some (.text text)
    | none, none =>
        if !isPadded text.toList && isFraction text then some .fraction else some (.text text)

/-- What a scalar stands for.  A tag that selects an alternative is an error, and
so is one that the text does not agree with. -/
def scalarDocument? (tag : Option Tag) (style : ScalarStyle) (text : String) : Option Document :=
  match tag with
  | none => if style = .plain then plainDocument? text else some (.text text)
  | some tag =>
      if tag.alternative?.isSome then none
      else if tag = boolTag then .bool <$> flag? text
      else if tag = intTag then do
        let value ← integer? text
        if value.fits 64 then some value.document else none
      else if tag = floatTag then if isFraction text then some .fraction else none
      else if tag = nullTag then if isNull text then some .null else none
      else if tag.isLocal && style = .plain then plainDocument? text
      else some (.text text)

end RelationalSolver.Yaml
