import RelationalSolver.Config.Yaml.Cursor
import RelationalSolver.Text.Digits

/-!
# YAML: block scalars

A block scalar stands on lines of its own, which are all indented.  Its header
says how far, if that cannot be seen from its first line, and what becomes of the
line breaks at its end.
-/

namespace RelationalSolver.Yaml

open Text

/-- What becomes of the line breaks at the end of a block scalar. -/
inductive Chomping where
  | strip
  /-- The first one stays. -/
  | clip
  | keep
deriving DecidableEq

/-- What the header of a block scalar says. -/
structure BlockHeader where
  chomping : Chomping
  /-- How much further than its surroundings the scalar is indented. -/
  extraIndent : Option Nat

/-- A sign for the line breaks at the end, if one comes next. -/
def chomping? : Reader (Option Chomping) := do
  match ← Reader.acceptAny ['+', '-'] with
  | some c => pure (some (if c = '+' then .keep else .strip))
  | none => pure none

/-- One digit for the indentation, if one comes next.  It is not zero. -/
def extraIndent? : Reader (Option Nat) := do
  match (← Reader.peek).filter (isDigitOf 10) with
  | some c => do
      if c = '0' then failure
      Reader.skip 1
      pure (digitValue? c)
  | none => pure none

/-- The header up to the end of its line.  Sign and digit come in any order. -/
def blockHeader : Reader BlockHeader := do
  let sign ← chomping?
  let extra ← extraIndent?
  let sign ← if sign.isNone && extra.isSome then chomping? else pure sign
  Reader.restOfLine
  pure ⟨sign.getD .clip, extra⟩

/-- Move past spaces and empty lines, at most so many of both together.  The answer
has what the line breaks stand for, and the column furthest right that spaces led
to.  Spaces count only up to the indentation, if it is known, and no tab may take
their place. -/
def emptyLines (indent : Option Nat) : Nat → Reader (List Char × Nat)
  | 0 => pure ([], 0)
  | limit + 1 => do
      let here ← get
      let inMargin := indent.all (here.column < ·)
      match here.rest with
      | c :: _ =>
          if inMargin && c = ' ' then
            Reader.skip 1
            emptyLines indent limit
          else if inMargin && c = '\t' then failure
          else if isBreak c then
            let line ← Reader.lineBreak
            let (breaks, furthest) ← emptyLines indent limit
            pure (line :: breaks, max here.column furthest)
          else pure ([], here.column)
      | [] => pure ([], here.column)

/-- What stands between the lines of a block scalar. -/
structure BlockGap where
  /-- What the line break after the line before stands for. -/
  lineBreak : List Char
  /-- What the line breaks of the empty lines after it stand for. -/
  moreBreaks : List Char
  /-- The line before begins with a blank. -/
  afterBlank : Bool

/-- What a gap contributes to the text of the scalar, before a line of which is
known whether it begins with a blank.  Between two folded lines without a blank at
their front one line break becomes a space, or is dropped before empty lines. -/
def BlockGap.text (folds : Bool) (gap : BlockGap) (beforeBlank : Bool) : List Char :=
  let first :=
    if folds && gap.lineBreak = ['\n'] && !gap.afterBlank && !beforeBlank then
      if gap.moreBreaks.isEmpty then [' '] else []
    else gap.lineBreak
  first ++ gap.moreBreaks

/-- The text of the lines of a block scalar that are indented to the column, at
most so many, after a gap that belongs to it only if a line follows; and the gap
after the last line. -/
def blockLines (folds : Bool) (indent : Nat) (gap : BlockGap) :
    Nat → Reader (List Char × BlockGap)
  | 0 => pure ([], gap)
  | limit + 1 => do
      let here ← get
      if here.column ≠ indent || here.rest.isEmpty then return ([], gap)
      let blank := here.rest.head?.any isBlank
      let line ← Reader.takeWhile (!isBreak ·)
      let lineBreak ← if (← Reader.rest).isEmpty then pure [] else do pure [← Reader.lineBreak]
      let (moreBreaks, _) ← emptyLines (some indent) (← Reader.limit)
      let (later, last) ← blockLines folds indent ⟨lineBreak, moreBreaks, blank⟩ limit
      pure (gap.text folds blank ++ line ++ later, last)

/-- A block scalar inside of an indentation, after its mark.  If its header does
not say how far it is indented, its first line does. -/
def block (folds : Bool) (indent : Int) : Reader String := do
  let header ← blockHeader
  let known := header.extraIndent.map fun extra =>
    if 0 ≤ indent then indent.toNat + extra else extra
  let limit ← Reader.limit
  let (breaks, furthest) ← emptyLines known limit
  let column := known.getD (max furthest (max (indent + 1).toNat 1))
  let (text, last) ← blockLines folds column ⟨[], breaks, false⟩ limit
  let ending := match header.chomping with
    | .strip => []
    | .clip => last.lineBreak
    | .keep => last.lineBreak ++ last.moreBreaks
  pure (String.ofList (text ++ ending))

end RelationalSolver.Yaml
