import RelationalSolver.Config.Yaml.Folding
import RelationalSolver.Text.Digits

/-!
# YAML: quoted scalars

Between single quotes a quote is written twice.  Between double quotes there are
escapes, and a line break after a backslash does not count.
-/

namespace RelationalSolver.Yaml

open Text

/-- The character that a short escape stands for. -/
def shortEscape? : Char → Option Char
  | '0' => some '\x00'
  | 'a' => some '\x07'
  | 'b' => some '\x08'
  | 't' | '\t' => some '\t'
  | 'n' => some '\n'
  | 'v' => some '\x0b'
  | 'f' => some '\x0c'
  | 'r' => some '\r'
  | 'e' => some '\x1b'
  | ' ' => some ' '
  | '"' => some '"'
  | '/' => some '/'
  | '\\' => some '\\'
  | 'N' => some '\u0085'
  | '_' => some '\u00a0'
  | 'L' => some '\u2028'
  | 'P' => some '\u2029'
  | _ => none

/-- Number of hexadecimal digits after the letter of an escape. -/
def hexLength? : Char → Option Nat
  | 'x' => some 2
  | 'u' => some 4
  | 'U' => some 8
  | _ => none

/-- An escape after its backslash. -/
def escape : Reader Char := do
  match ← Reader.rest with
  | [] => failure
  | c :: rest =>
      match hexLength? c with
      | some length => do
          let digits := rest.take length
          if digits.length < length then failure
          let char ← charOfHex? digits
          Reader.skip (length + 1)
          pure char
      | none => do
          let char ← shortEscape? c
          Reader.skip 1
          pure char

/-- What ends a part of a quoted scalar. -/
inductive PartEnd where
  | closing
  /-- A line break after a backslash. -/
  | escapedBreak
  | gap
deriving DecidableEq

/-- The characters of a quoted scalar up to a gap or the closing quote, at most so
many.  The quote itself is left. -/
def quotedPart (quote : Char) : Nat → Reader (List Char × PartEnd)
  | 0 => failure
  | limit + 1 => do
      let more (c : Char) := do
        let (part, ending) ← quotedPart quote limit
        pure (c :: part, ending)
      match ← Reader.rest with
      | [] => pure ([], .gap)
      | c :: rest =>
          if isGap (some c) then pure ([], .gap)
          else if c = quote then
            if quote = '\'' && rest.head? = some quote then
              Reader.skip 2
              more quote
            else pure ([], .closing)
          else if c = '\\' && quote = '"' then
            Reader.skip 1
            if rest.head?.any isBreak then
              discard Reader.lineBreak
              pure ([], .escapedBreak)
            else more (← escape)
          else
            Reader.skip 1
            more c

/-- A quoted scalar up to its closing quote, read in at most so many parts. -/
def quotedFrom (quote : Char) : Nat → Reader (List Char)
  | 0 => failure
  | limit + 1 => do
      let here ← get
      if here.isAtBoundary || here.rest.isEmpty then failure
      let (part, ending) ← quotedPart quote (← Reader.limit)
      if ← Reader.accept quote then return part
      let gap ← Gap.read 0 (ending = .escapedBreak) (← Reader.limit)
      let between := if ending = .escapedBreak then gap.breaks else gap.folded
      pure (part ++ between ++ (← quotedFrom quote limit))

/-- A quoted scalar, which begins with the quote. -/
def quoted (quote : Char) : Reader String := do
  Reader.expect quote
  String.ofList <$> quotedFrom quote (← Reader.limit)

end RelationalSolver.Yaml
