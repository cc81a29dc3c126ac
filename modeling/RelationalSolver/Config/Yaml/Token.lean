/-!
# YAML: tokens

What a text consists of before it is known how its parts hang together.  The
tokens say already where collections that go on line by line begin and end.
-/

namespace RelationalSolver.Yaml

/-- How a scalar is written. -/
inductive ScalarStyle where
  | plain
  | quoted
  /-- On lines of its own, as it is. -/
  | literal
  /-- On lines of its own, with lines put together. -/
  | folded
deriving DecidableEq

/-- The name of a kind of data, as bytes: the escapes that it is written with may
stand for anything. -/
abbrev Tag := List UInt8

/-- The tag with the characters of a text. -/
def Tag.ofString (text : String) : Tag := text.toUTF8.toList

/-- The tokens of a text. -/
inductive Token where
  /-- The version of the language. -/
  | version (major minor : Nat)
  /-- What the handle stands for in the tags of the document. -/
  | abbreviation (handle : Tag) (full : Tag)
  | documentStart
  | documentEnd
  | blockListStart
  | blockTableStart
  | blockEnd
  | flowListStart
  | flowListEnd
  | flowTableStart
  | flowTableEnd
  /-- A comma between items or entries. -/
  | comma
  /-- A dash before an item. -/
  | dash
  | key
  | value
  /-- What the anchor of the name marks stands here again. -/
  | reference (name : String)
  | anchor (name : String)
  /-- A tag, of which the handle may be short for more. -/
  | tag (handle : Tag) (suffix : Tag)
  | scalar (style : ScalarStyle) (text : String)
deriving DecidableEq

end RelationalSolver.Yaml
