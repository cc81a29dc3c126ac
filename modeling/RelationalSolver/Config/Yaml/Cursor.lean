/-!
# YAML: reading characters

A reader knows on which line it is and how far it has come on it, because the
indentation of a YAML text has a meaning.  It fails, without saying why, if the
text is not what it expects.
-/

namespace RelationalSolver.Yaml

/-! ## Characters -/

/-- A space or a tab. -/
def isBlank (c : Char) : Bool := c = ' ' || c = '\t'

/-- A character that ends a line. -/
def isBreak (c : Char) : Bool := c ∈ ['\n', '\r', '\u0085', '\u2028', '\u2029']

/-- A blank, a line break, or the end of the text. -/
def isGap (next : Option Char) : Bool := next.all fun c => isBlank c || isBreak c

/-- A character of names: of anchors, of directives and of tag handles. -/
def isNameChar (c : Char) : Bool := c.isAlphanum || c = '_' || c = '-'

/-- A character that has a meaning inside of brackets and braces. -/
def isFlowMark (c : Char) : Bool := c ∈ [',', '[', ']', '\x7b', '\x7d']

/-- A text may hold every character but controls. -/
def isAllowed (c : Char) : Bool :=
  c ∈ ['\t', '\n', '\r', '\u0085'] || (0x20 ≤ c.toNat && !(0x7f ≤ c.toNat && c.toNat ≤ 0x9f) &&
    c ≠ '\ufffe' && c ≠ '\uffff')

/-! ## The position in a text -/

/-- The part of a text that is still to be read, and where it begins. -/
structure Cursor where
  rest : List Char
  /-- Number of characters that are left. -/
  left : Nat
  /-- Number of bytes before it. -/
  offset : Nat
  line : Nat
  /-- Number of characters before it on its line. -/
  column : Nat
deriving Inhabited

namespace Cursor

/-- The beginning of a text. -/
def ofChars (chars : List Char) : Cursor := ⟨chars, chars.length, 0, 0, 0⟩

/-- Move on along the line. -/
def advance (count : Nat) (cursor : Cursor) : Cursor :=
  { cursor with
    rest := cursor.rest.drop count
    left := cursor.left - count
    offset := (cursor.rest.take count).foldl (fun bytes c => bytes + c.utf8Size) cursor.offset
    column := cursor.column + count }

/-- Move to the next line, past a line break of some length. -/
def nextLine (length : Nat) (cursor : Cursor) : Cursor :=
  { cursor.advance length with line := cursor.line + 1, column := 0 }

/-- A mark of three characters that separates documents stands here. -/
def isAtMark (mark : String) (cursor : Cursor) : Bool :=
  cursor.column = 0 && mark.toList.isPrefixOf cursor.rest && isGap cursor.rest[mark.length]?

/-- A document ends here at the latest. -/
def isAtBoundary (cursor : Cursor) : Bool := cursor.isAtMark "---" || cursor.isAtMark "..."

end Cursor

/-- Computations that read a text and may fail. -/
abbrev Reader := StateT Cursor Option

namespace Reader

/-- What is still to be read. -/
def rest : Reader (List Char) := do pure (← get).rest

/-- A number of rounds in which everything can be read that is left. -/
def limit : Reader Nat := do pure ((← get).left + 1)

/-- The next character, which stays. -/
def peek : Reader (Option Char) := do pure (← rest).head?

/-- Move past several characters of the line. -/
def skip (count : Nat) : Reader Unit := modify (·.advance count)

/-- Move past the characters of the line that satisfy a condition, and return
them. -/
def takeWhile (keep : Char → Bool) : Reader (List Char) := do
  let taken := (← rest).takeWhile keep
  skip taken.length
  pure taken

/-- Move past a character, if it comes next. -/
def accept (expected : Char) : Reader Bool := do
  if (← peek) = some expected then
    skip 1
    pure true
  else pure false

/-- Move past a character, which must come next. -/
def expect (expected : Char) : Reader Unit := do
  unless ← accept expected do failure

/-- Move past one of several characters, if one of them comes next. -/
def acceptAny (expected : List Char) : Reader (Option Char) := do
  match ← peek with
  | some c =>
      if c ∈ expected then
        skip 1
        pure (some c)
      else pure none
  | none => pure none

/-- Move past a line break, which must come next, and return the character that
it stands for.  The separators of lines and of paragraphs stand for themselves. -/
def lineBreak : Reader Char := do
  match ← rest with
  | '\r' :: '\n' :: _ => do
      modify (·.nextLine 2)
      pure '\n'
  | c :: _ => do
      unless isBreak c do failure
      modify (·.nextLine 1)
      pure (if c = '\u2028' || c = '\u2029' then c else '\n')
  | [] => failure

/-- Move past blanks and a comment up to the end of the line, and past its line
break.  Nothing else may stand there. -/
def restOfLine : Reader Unit := do
  discard (takeWhile isBlank)
  if (← peek) = some '#' then discard (takeWhile (!isBreak ·))
  if (← peek).isSome then discard lineBreak

end Reader

end RelationalSolver.Yaml
