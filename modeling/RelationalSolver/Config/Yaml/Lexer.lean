import RelationalSolver.Config.Yaml.Block
import RelationalSolver.Config.Yaml.Plain
import RelationalSolver.Config.Yaml.Property
import RelationalSolver.Config.Yaml.Quoted

/-!
# YAML: from a text to its tokens

That something is a key is only known when the colon after it is met.  The lexer
therefore remembers where a key may have begun, one place for each pair of
brackets that is open, and puts the token for a key in there afterwards.  Outside
of brackets, the columns where keys and dashes stand say where collections begin
and end.
-/

namespace RelationalSolver.Yaml

/-- Where a key may have begun. -/
structure Candidate where
  /-- Number of tokens before it. -/
  place : Nat
  start : Cursor
  /-- Nothing but a key can stand here. -/
  required : Bool

/-- The key is too long to be one: it has to be on one line, and a colon has to
follow within 1024 bytes. -/
def Candidate.isStale (candidate : Candidate) (here : Cursor) : Bool :=
  candidate.start.line < here.line || candidate.start.offset + 1024 < here.offset

/-- Nothing takes the place of a candidate that is given up, unless it was
required. -/
def Candidate.giveUp? (candidate : Candidate) : Option (Option Candidate) :=
  if candidate.required then none else some none

/-- A text of which the tokens up to some point are known. -/
structure Lexer where
  cursor : Cursor
  tokens : Array Token
  /-- The column of the collection that goes on line by line, or -1. -/
  indent : Int
  /-- The columns of the collections around it. -/
  outerIndents : List Int
  /-- A key may begin here. -/
  keyAllowed : Bool
  /-- Where a key may have begun since the last bracket that is open. -/
  candidate : Option Candidate
  /-- The same for each bracket that is open, as it was before the bracket. -/
  outerCandidates : List (Option Candidate)

namespace Lexer

/-- The beginning of a text. -/
def ofChars (chars : List Char) : Lexer := ⟨.ofChars chars, #[], -1, [], true, none, []⟩

/-- Some bracket is open. -/
def inFlow (lexer : Lexer) : Bool := !lexer.outerCandidates.isEmpty

/-- Add a token. -/
def push (lexer : Lexer) (token : Token) : Lexer :=
  { lexer with tokens := lexer.tokens.push token }

/-- Put a token in before others. -/
def insert (lexer : Lexer) (place : Nat) (token : Token) : Lexer :=
  { lexer with tokens := lexer.tokens.insertIdxIfInBounds place token }

/-- Close the collections that stand further right than the column. -/
def closeTo (column : Int) (lexer : Lexer) : Lexer :=
  if lexer.inFlow then lexer else close lexer lexer.outerIndents
where
  close (lexer : Lexer) : List Int → Lexer
    | [] => lexer
    | outer :: outers =>
        if column < lexer.indent then
          close { lexer.push .blockEnd with indent := outer, outerIndents := outers } outers
        else lexer

/-- Open a collection, if none that goes on line by line stands at the column. -/
def openAt (lexer : Lexer) (column place : Nat) (token : Token) : Lexer :=
  if !lexer.inFlow && lexer.indent < column then
    { lexer.insert place token with
      indent := column, outerIndents := lexer.indent :: lexer.outerIndents }
  else lexer

/-- No key has begun, after all. -/
def giveUpKey? (lexer : Lexer) : Option Lexer := do
  let candidate ← lexer.candidate.elim (some none) Candidate.giveUp?
  pure { lexer with candidate := candidate }

/-- Give up the keys that have become too long. -/
def giveUpStaleKeys? (lexer : Lexer) : Option Lexer := do
  let check (candidate : Option Candidate) : Option (Option Candidate) :=
    match candidate.filter (·.isStale lexer.cursor) with
    | some stale => stale.giveUp?
    | none => some candidate
  pure { lexer with
    candidate := ← check lexer.candidate
    outerCandidates := ← lexer.outerCandidates.mapM check }

/-- A key may begin here, if one is allowed. -/
def rememberKey? (lexer : Lexer) : Option Lexer :=
  if lexer.keyAllowed then do
    let required := !lexer.inFlow && lexer.indent = lexer.cursor.column
    let lexer ← lexer.giveUpKey?
    pure { lexer with candidate := some ⟨lexer.tokens.size, lexer.cursor, required⟩ }
  else some lexer

end Lexer

/-- Computations that find tokens and may fail. -/
abbrev Lexing := StateT Lexer Option

namespace Lexing

/-- Read at the place where the lexer is. -/
def reading {α : Type} (reader : Reader α) : Lexing α := do
  let lexer ← get
  let (value, cursor) ← reader.run lexer.cursor
  set { lexer with cursor := cursor }
  pure value

/-- Change the lexer, if that is possible. -/
def change (step : Lexer → Option Lexer) : Lexing Unit := do set (← step (← get))

/-- Say whether a key may begin next. -/
def allowKey (allowed : Bool) : Lexing Unit := modify ({ · with keyAllowed := allowed })

/-- Add a token that has so many characters. -/
def mark (length : Nat) (token : Token) : Lexing Unit := do
  reading (Reader.skip length)
  modify (·.push token)

/-! ## Between tokens -/

/-- Move past blanks, comments and line breaks, at most so many lines.  On a new
line a key may begin, and then tabs do not count as blanks before it.  A mark of
the byte order may stand at the front of each line. -/
def toNextToken : Nat → Lexing Unit
  | 0 => pure ()
  | limit + 1 => do
      let lexer ← get
      let isSkipped (c : Char) : Bool :=
        c = ' ' || (c = '\t' && (lexer.inFlow || !lexer.keyAllowed))
      let onNewLine ← reading (do
        if (← get).column = 0 then discard (Reader.accept '\ufeff')
        discard (Reader.takeWhile isSkipped)
        if (← Reader.peek) = some '#' then discard (Reader.takeWhile (!isBreak ·))
        if (← Reader.peek).any isBreak then
          discard Reader.lineBreak
          pure true
        else pure false)
      if onNewLine then
        unless lexer.inFlow do allowKey true
        toNextToken limit

/-! ## Tokens -/

/-- The mark of a document, or the end of the text, ends everything that goes on
line by line. -/
def endBlocks : Lexing Unit := do
  modify (Lexer.closeTo (-1))
  change Lexer.giveUpKey?
  allowKey false

/-- A bracket that opens. -/
def opening (token : Token) : Lexing Unit := do
  change Lexer.rememberKey?
  modify fun lexer =>
    { lexer with candidate := none, outerCandidates := lexer.candidate :: lexer.outerCandidates }
  allowKey true
  mark 1 token

/-- A bracket that closes. -/
def closing (token : Token) : Lexing Unit := do
  change Lexer.giveUpKey?
  modify fun lexer =>
    match lexer.outerCandidates with
    | candidate :: outer => { lexer with candidate := candidate, outerCandidates := outer }
    | [] => lexer
  allowKey false
  mark 1 token

/-- A dash or a question mark that may begin a collection. -/
def leading (collection : Token) : Lexing Unit := do
  let lexer ← get
  unless lexer.inFlow || lexer.keyAllowed do failure
  set (lexer.openAt lexer.cursor.column lexer.tokens.size collection)
  change Lexer.giveUpKey?

/-- A dash before an item. -/
def dash : Lexing Unit := do
  leading .blockListStart
  allowKey true
  mark 1 .dash

/-- A question mark before a key. -/
def key : Lexing Unit := do
  leading .blockTableStart
  allowKey (!(← get).inFlow)
  mark 1 .key

/-- A colon before a value.  If a key may have begun, now it has. -/
def value : Lexing Unit := do
  let lexer ← get
  match lexer.candidate with
  | some candidate => do
      let lexer := lexer.insert candidate.place .key
      set (lexer.openAt candidate.start.column candidate.place .blockTableStart)
      modify ({ · with candidate := none })
      allowKey false
  | none => do
      leading .blockTableStart
      allowKey (!lexer.inFlow)
  mark 1 .value

/-- A token that can be a key, or begin one. -/
def keyLike (reader : Reader Token) : Lexing Unit := do
  change Lexer.rememberKey?
  allowKey false
  let token ← reading reader
  modify (·.push token)

/-- A block scalar, after which a key may begin. -/
def blockScalar (style : ScalarStyle) : Lexing Unit := do
  change Lexer.giveUpKey?
  allowKey true
  let indent := (← get).indent
  let text ← reading (do
    Reader.skip 1
    block (style = .folded) indent)
  modify (·.push (.scalar style text))

/-- A plain scalar.  If the reader has gone on to another line after it, a key may
begin. -/
def plainScalar : Lexing Unit := do
  change Lexer.rememberKey?
  let lexer ← get
  let (text, newLine) ← reading (plain lexer.inFlow lexer.indent)
  allowKey newLine
  modify (·.push (.scalar .plain text))

/-- The next token; none is left at the end of the text. -/
def next : Lexing Bool := do
  toNextToken (← reading Reader.limit)
  change Lexer.giveUpStaleKeys?
  modify fun lexer => lexer.closeTo lexer.cursor.column
  let lexer ← get
  let flow := lexer.inFlow
  match lexer.cursor.rest with
  | [] => do
      endBlocks
      return false
  | c :: rest =>
      let beforeGap := isGap rest.head?
      if lexer.cursor.column = 0 && c = '%' then
        endBlocks
        let token ← reading (do
          Reader.skip 1
          directive)
        modify (·.push token)
      else if lexer.cursor.isAtMark "---" then
        endBlocks
        mark 3 .documentStart
      else if lexer.cursor.isAtMark "..." then
        endBlocks
        mark 3 .documentEnd
      else if c = '[' then opening .flowListStart
      else if c = '\x7b' then opening .flowTableStart
      else if c = ']' then closing .flowListEnd
      else if c = '\x7d' then closing .flowTableEnd
      else if c = ',' then
        change Lexer.giveUpKey?
        allowKey true
        mark 1 .comma
      else if c = '-' && beforeGap then dash
      else if c = '?' && (flow || beforeGap) then key
      else if c = ':' && (flow || beforeGap) then value
      else if c = '*' then keyLike (do
        Reader.skip 1
        .reference <$> anchorName)
      else if c = '&' then keyLike (do
        Reader.skip 1
        .anchor <$> anchorName)
      else if c = '!' then keyLike (tag flow)
      else if c = '|' && !flow then blockScalar .literal
      else if c = '>' && !flow then blockScalar .folded
      else if c = '\'' || c = '"' then keyLike (.scalar .quoted <$> quoted c)
      else if beginsPlain flow lexer.cursor.rest then plainScalar
      else failure
      return true

/-- All tokens that are left, if there are not more than so many. -/
def all : Nat → Lexing Unit
  | 0 => failure
  | limit + 1 => do
      if ← next then all limit

end Lexing

/-- The tokens of a text. -/
def tokens? (text : String) : Option (List Token) := do
  let chars := text.toList
  if !chars.all isAllowed then none
  let (_, lexer) ← (Lexing.all (chars.length + 1)).run (.ofChars chars)
  pure lexer.tokens.toList

end RelationalSolver.Yaml
