import RelationalSolver.Config.Yaml.Cursor
import RelationalSolver.Config.Yaml.Token
import RelationalSolver.Text.Digits

/-!
# YAML: tags, anchors and directives

Tags say what kind of data a node is, and anchors give it a name to refer to.
Directives stand before a document and say what its tags are short for.
-/

namespace RelationalSolver.Yaml

open Text

/-! ## Tags -/

/-- A character that a tag may be written with.  In a tag that is written out, and
in what a handle stands for, some marks of lists are allowed as well. -/
def isTagChar (full : Bool) (c : Char) : Bool :=
  isNameChar c || c ∈ [';', '/', '?', ':', '@', '&', '=', '+', '$', '.', '%', '!', '~', '*',
    '\'', '(', ')'] || (full && c ∈ [',', '[', ']'])

/-- One byte, as a percent sign and two hexadecimal digits. -/
def escapedByte : Reader UInt8 := do
  Reader.expect '%'
  let chars ← Reader.rest
  if chars.length < 2 then failure
  let value ← number? 16 (chars.take 2)
  Reader.skip 2
  pure value.toUInt8

/-- How many bytes a character has that begins with this one. -/
def charWidth? (first : UInt8) : Option Nat :=
  if first < 0x80 then some 1
  else if first &&& 0xe0 = 0xc0 then some 2
  else if first &&& 0xf0 = 0xe0 then some 3
  else if first &&& 0xf8 = 0xf0 then some 4
  else none

/-- More bytes of a character. -/
def trailingBytes : Nat → Reader (List UInt8)
  | 0 => pure []
  | count + 1 => do
      let byte ← escapedByte
      if byte &&& 0xc0 ≠ 0x80 then failure
      pure (byte :: (← trailingBytes count))

/-- One character that is written as its bytes.  Whether they make up a character
is only known by their number. -/
def escapedChar : Reader (List UInt8) := do
  let first ← escapedByte
  let width ← charWidth? first
  pure (first :: (← trailingBytes (width - 1)))

/-- The rest of a tag, read in at most so many pieces. -/
def tagBytes (full : Bool) : Nat → Reader Tag
  | 0 => pure []
  | limit + 1 => do
      match ← Reader.peek with
      | some '%' => do
          let bytes ← escapedChar
          pure (bytes ++ (← tagBytes full limit))
      | some c =>
          if isTagChar full c then
            Reader.skip 1
            pure (Tag.ofString c.toString ++ (← tagBytes full limit))
          else pure []
      | none => pure []

/-- The rest of a tag up to the first zero byte, with which it ends. -/
def tagText (full : Bool) : Reader Tag := do
  pure ((← tagBytes full (← Reader.limit)).takeWhile (· ≠ 0))

/-- A handle: an exclamation mark, perhaps a name, and then perhaps another one. -/
def tagHandle : Reader String := do
  Reader.expect '!'
  let name ← Reader.takeWhile isNameChar
  let closed ← Reader.accept '!'
  pure (String.ofList ('!' :: name ++ if closed then ['!'] else []))

/-- The rest of a tag, of which there has to be something. -/
def someTagText (full : Bool) : Reader Tag := do
  let before ← get
  let text ← tagText full
  if (← get).offset = before.offset then failure
  pure text

/-- A tag.  It is written out between angle brackets, or is short for another: then
its handle is two exclamation marks with a name or nothing between them, or a
single one. -/
def tag (flow : Bool) : Reader Token := do
  let token ←
    if "!<".toList.isPrefixOf (← Reader.rest) then
      Reader.skip 2
      let text ← someTagText true
      Reader.expect '>'
      pure (Token.tag [] text)
    else
      let handle ← tagHandle
      if 1 < handle.length && handle.endsWith "!" then
        pure (Token.tag (.ofString handle) (← someTagText false))
      else
        let suffix := Tag.ofString (handle.drop 1).toString ++ (← tagText false)
        pure (if suffix.isEmpty then .tag [] (.ofString "!") else .tag (.ofString "!") suffix)
  let next ← Reader.peek
  unless isGap next || (flow && next = some ',') do failure
  pure token

/-! ## Anchors -/

/-- The name of an anchor, after its mark. -/
def anchorName : Reader String := do
  let name ← Reader.takeWhile isNameChar
  let next ← Reader.peek
  let ends := isGap next || next.any fun c => c ∈ ['?', ':', ',', ']', '\x7d', '%', '@', '\x60']
  if name.isEmpty || !ends then failure
  pure (String.ofList name)

/-! ## Directives -/

/-- A number of at most nine digits. -/
def shortNumber : Reader Nat := do
  let digits ← Reader.takeWhile (isDigitOf 10)
  if 9 < digits.length then failure
  number? 10 digits

/-- The version of the language. -/
def versionDirective : Reader Token := do
  discard (Reader.takeWhile isBlank)
  let major ← shortNumber
  Reader.expect '.'
  pure (.version major (← shortNumber))

/-- A handle and what it stands for. -/
def tagDirective : Reader Token := do
  discard (Reader.takeWhile isBlank)
  let handle ← tagHandle
  unless handle.endsWith "!" do failure
  unless (← Reader.peek).any isBlank do failure
  discard (Reader.takeWhile isBlank)
  let full ← someTagText true
  unless isGap (← Reader.peek) do failure
  pure (.abbreviation (.ofString handle) full)

/-- A directive with its line, after its mark.  There are two kinds. -/
def directive : Reader Token := do
  let name ← Reader.takeWhile isNameChar
  unless isGap (← Reader.peek) do failure
  let token ← match String.ofList name with
    | "YAML" => versionDirective
    | "TAG" => tagDirective
    | _ => failure
  Reader.restOfLine
  pure token

end RelationalSolver.Yaml
