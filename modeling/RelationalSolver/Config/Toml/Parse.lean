import RelationalSolver.Config.Toml.Scalar
import RelationalSolver.Config.Toml.Tree

/-!
# TOML: values, lines and documents

A document is a list of lines: settings, and headers that say where the settings
after them belong.
-/

namespace RelationalSolver.Toml

open Text

/-- How deep values may be nested, and how many names a key may have. -/
def nesting : Nat := 79

/-- Move past a comment up to the end of its line. -/
def skipComment : Scanner Unit := do
  if ← Scanner.accept "#" then discard (Scanner.takeWhile isTextChar)

/-- Move past blanks, comments and line breaks, at most so many lines. -/
def skipLines : Nat → Scanner Unit
  | 0 => pure ()
  | limit + 1 => do
      skipBlanks
      skipComment
      if ← acceptNewline then skipLines limit

/-- The items of a list up to its closing bracket, at most so many. -/
def listItems (item : Scanner Document) (lines : Nat) : Nat → Scanner (List Document)
  | 0 => failure
  | limit + 1 => do
      skipLines lines
      if ← Scanner.accept "]" then return []
      let first ← item
      skipLines lines
      if ← Scanner.accept "," then (first :: ·) <$> listItems item lines limit
      else
        Scanner.expect "]"
        pure [first]

/-- A setting: a key and its value. -/
def setting (value : Scanner Document) : Scanner (List String × Document) := do
  let path ← dottedKey nesting
  skipBlanks
  Scanner.expect "="
  skipBlanks
  pure (path, ← value)

/-- The settings of a table between braces up to its end, at most so many.  There
is at least one. -/
def tableSettings (value : Scanner Document) : Nat → Scanner (List (List String × Document))
  | 0 => failure
  | limit + 1 => do
      skipBlanks
      let first ← setting value
      skipBlanks
      if ← Scanner.accept "," then (first :: ·) <$> tableSettings value limit
      else
        Scanner.expect "\x7d"
        pure [first]

/-- A value in which lists and tables are nested at most so deep. -/
def value : Nat → Scanner Document
  | 0 => scalar
  | depth + 1 => do
      if ← Scanner.accept "[" then
        let limit := (← Scanner.rest).length + 1
        .list <$> listItems (value depth) limit limit
      else if ← Scanner.accept "\x7b" then
        skipBlanks
        if ← Scanner.accept "\x7d" then return .table []
        let limit := (← Scanner.rest).length + 1
        match Entries.ofSettings (← tableSettings (value depth) limit) with
        | some entries => pure (.table (documents entries))
        | none => failure
      else scalar

/-- One line. -/
inductive Line where
  | blank
  | setting (path : List String) (value : Document)
  /-- Settings after it belong to the table. -/
  | header (path : List String)
  /-- Settings after it belong to a new element of the list. -/
  | element (path : List String)

/-- The path of a header up to its closing brackets. -/
def headerPath (closing : String) : Scanner (List String) := do
  skipBlanks
  let path ← dottedKey nesting
  skipBlanks
  Scanner.expect closing
  pure path

/-- What a line says, up to its comment. -/
def lineContent : Scanner Line := do
  if ← Scanner.accept "[[" then .element <$> headerPath "]]"
  else if ← Scanner.accept "[" then .header <$> headerPath "]"
  else
    match ← Scanner.peek with
    | none | some '#' | some '\n' | some '\r' => pure .blank
    | some _ => do
        let (path, value) ← setting (value nesting)
        pure (.setting path value)

/-- The lines of a text, at most so many. -/
def lines : Nat → Scanner (List Line)
  | 0 => failure
  | limit + 1 => do
      skipBlanks
      let line ← lineContent
      skipBlanks
      skipComment
      if ← acceptNewline then (line :: ·) <$> lines limit
      else pure [line]

/-- A document after some of its lines. -/
structure Progress where
  entries : Entries
  /-- The table that settings belong to. -/
  current : List String

/-- Add what a line says. -/
def Progress.add (progress : Progress) : Line → Option Progress
  | .blank => some progress
  | .header path => do pure ⟨← progress.entries.openTable path, path⟩
  | .element path => do pure ⟨← progress.entries.openElement path, path⟩
  | .setting path value => do
      let entries ← progress.entries.within .way (fun _ => Entries.set path value)
        progress.current .header
      pure { progress with entries := entries }

/-- Parse a text.  A mark of the byte order at its front is passed over. -/
def parse? (text : String) : Option Document := do
  let chars := match text.toList with
    | '\ufeff' :: rest => rest
    | chars => chars
  let lines ← (lines (chars.length + 1)).run? chars
  let final ← lines.foldlM Progress.add ⟨[], []⟩
  pure (.table (documents final.entries))

end RelationalSolver.Toml
