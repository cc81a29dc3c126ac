import RelationalSolver.Config.Yaml.Lexer
import RelationalSolver.Config.Yaml.Node

/-!
# YAML: from tokens to a document

The tokens of a text are put together to the one document that it holds.
-/

namespace RelationalSolver.Yaml

/-- Tokens that are still to be put together, and what the ones before them have
introduced. -/
structure Supply where
  tokens : List Token
  /-- What handles of tags stand for. -/
  handles : List (Tag × Tag)
  /-- The numbers of anchors.  Of a name that comes up twice the first entry
  counts. -/
  anchors : List (String × Nat)

/-- Computations that put tokens together and may fail. -/
abbrev Assembly := StateT Supply Option

namespace Assembly

/-- The next token, which stays. -/
def peek : Assembly (Option Token) := do pure (← get).tokens.head?

/-- Move past one token. -/
def skip : Assembly Unit := modify fun supply => { supply with tokens := supply.tokens.tail }

/-- The next token is one of these. -/
def looksAt (expected : List Token) : Assembly Bool := do
  pure ((← peek).any (· ∈ expected))

/-- Move past a token, if it comes next. -/
def accept (expected : Token) : Assembly Bool := do
  if ← looksAt [expected] then
    skip
    pure true
  else pure false

/-- Move past a token, which must come next. -/
def expect (expected : Token) : Assembly Unit := do
  unless ← accept expected do failure

/-- Number of tokens that are left, and one more. -/
def limit : Assembly Nat := do pure ((← get).tokens.length + 1)

/-! ## What is said of a node -/

/-- Give a number to an anchor.  It is the number of names that were known
before, so that a name that comes up again does not add to it. -/
def introduce (name : String) : Assembly Nat := do
  let supply ← get
  let number := supply.anchors.length
  let others := supply.anchors.filter (·.1 ≠ name)
  set { supply with anchors := (name, number) :: others }
  pure number

/-- The name of an anchor, if one comes next. -/
def anchor? : Assembly (Option String) := do
  match ← peek with
  | some (.anchor name) => do
      skip
      pure (some name)
  | _ => pure none

/-- A tag, if one comes next. -/
def tag? : Assembly (Option Tag) := do
  match ← peek with
  | some (.tag [] text) => do
      skip
      pure (some text)
  | some (.tag handle suffix) => do
      skip
      let full ← (← get).handles.lookup handle
      pure (some (full ++ suffix))
  | _ => pure none

/-- What is said of the node that comes next: an anchor and a tag, in any
order. -/
def properties : Assembly Properties := do
  let first ← anchor?
  let tag ← tag?
  let name ← if first.isNone && tag.isSome then anchor? else pure first
  pure ⟨← name.mapM introduce, tag⟩

/-! ## Collections -/

/-- A node, or one that is not written if one of these tokens comes next. -/
def nodeUnless (node : Assembly Node) (stops : List Token) : Assembly Node := do
  if ← looksAt stops then pure (.unwritten .none) else node

/-- The value of an entry, which is not written if there is no mark of a value, or
if one of these tokens follows it. -/
def valueUnless (node : Assembly Node) (stops : List Token) : Assembly Node := do
  if ← accept .value then nodeUnless node stops else pure (.unwritten .none)

/-- Items that each have a dash, at most so many. -/
def dashedItems (node : Assembly Node) (stops : List Token) : Nat → Assembly (List Node)
  | 0 => failure
  | limit + 1 => do
      if ← accept .dash then
        let item ← nodeUnless node stops
        (item :: ·) <$> dashedItems node stops limit
      else pure []

/-- The entries of a table that goes on line by line, at most so many. -/
def blockEntries (node : Assembly Node) : Nat → Assembly (List (Node × Node))
  | 0 => failure
  | limit + 1 => do
      if ← accept .blockEnd then return []
      expect .key
      let key ← nodeUnless node [.key, .value, .blockEnd]
      let value ← valueUnless node [.key, .value, .blockEnd]
      ((key, value) :: ·) <$> blockEntries node limit

/-- The only entry of a table that is an item of a list between brackets and has
no braces.  If there is no key, the token in its place is passed over. -/
def bareEntry (node : Assembly Node) : Assembly (Node × Node) := do
  let hasKey := !(← looksAt [.value, .comma, .flowListEnd])
  let key ← if hasKey then node else do
    skip
    pure (.unwritten .none)
  pure (key, ← valueUnless node [.comma, .flowListEnd])

/-- The items of a list up to its closing bracket, at most so many. -/
def flowItems (node : Assembly Node) : Nat → Assembly (List Node)
  | 0 => failure
  | limit + 1 => do
      if ← accept .flowListEnd then return []
      let item ←
        if ← accept .key then do pure (.table .none [← bareEntry node]) else node
      if ← accept .comma then (item :: ·) <$> flowItems node limit
      else
        expect .flowListEnd
        pure [item]

/-- The entries of a table up to its closing brace, at most so many. -/
def flowEntries (node : Assembly Node) : Nat → Assembly (List (Node × Node))
  | 0 => failure
  | limit + 1 => do
      if ← accept .flowTableEnd then return []
      let entry ←
        if ← accept .key then do
          let key ← nodeUnless node [.value, .comma, .flowTableEnd]
          pure (key, ← valueUnless node [.comma, .flowTableEnd])
        else do pure (← node, .unwritten .none)
      if ← accept .comma then (entry :: ·) <$> flowEntries node limit
      else
        expect .flowTableEnd
        pure [entry]

/-! ## Nodes -/

/-- Where a node stands. -/
inductive Position where
  /-- Inside of brackets or braces. -/
  | flow
  /-- Where a collection may go on line by line. -/
  | block
  /-- In an entry of a table, where the dashes of a list need not stand further
  right than the keys. -/
  | entry
deriving DecidableEq

/-- A node in which others are nested at most so deep, and none has more parts
than the limit. -/
def node (limit : Nat) : Nat → Position → Assembly Node
  | 0, _ => failure
  | depth + 1, position => do
      if let some (.reference name) ← peek then
        skip
        return .reference (← (← get).anchors.lookup name)
      let properties ← properties
      match ← peek with
      | some (.scalar style text) => do
          skip
          pure (.scalar properties style text)
      | some .flowListStart => do
          skip
          .list properties <$> flowItems (node limit depth .flow) limit
      | some .flowTableStart => do
          skip
          .table properties <$> flowEntries (node limit depth .flow) limit
      | token =>
          if token = some .dash && position = .entry then
            .list properties <$>
              dashedItems (node limit depth .block) [.dash, .key, .value, .blockEnd] limit
          else if token = some .blockListStart && position ≠ .flow then
            skip
            let items ← dashedItems (node limit depth .block) [.dash, .blockEnd] limit
            expect .blockEnd
            pure (.list properties items)
          else if token = some .blockTableStart && position ≠ .flow then
            skip
            .table properties <$> blockEntries (node limit depth .entry) limit
          else if properties.anchor.isSome || properties.tag.isSome then
            pure (.unwritten properties)
          else failure

/-! ## Documents -/

/-- The directives of a document, at most so many.  The version comes up at most
once and has to be a known one, and so has every handle. -/
def directives (versionSeen : Bool) : Nat → Assembly Unit
  | 0 => failure
  | limit + 1 => do
      match ← peek with
      | some (.version major minor) => do
          if versionSeen || major ≠ 1 || (minor ≠ 1 && minor ≠ 2) then failure
          skip
          directives true limit
      | some (.abbreviation handle full) => do
          let supply ← get
          if (supply.handles.lookup handle).isSome then failure
          set { supply with handles := supply.handles ++ [(handle, full)] }
          skip
          directives versionSeen limit
      | _ => pure ()

/-- Handles that need not be introduced. -/
def commonHandles : List (Tag × Tag) :=
  [(.ofString "!", .ofString "!"), (.ofString "!!", .ofString "tag:yaml.org,2002:")]

/-- The content of a document up to its end.  With directives or a mark at its
front it may have none. -/
def document : Assembly Node := do
  let isBare := match ← peek with
    | some (.version _ _) | some (.abbreviation _ _) | some .documentStart => false
    | _ => true
  directives false (← limit)
  modify fun supply => { supply with handles := supply.handles ++ commonHandles }
  unless isBare do expect .documentStart
  let token ← peek
  if !isBare && (token.isNone || token = some .documentStart || token = some .documentEnd) then
    pure (.unwritten .none)
  else
    let limit ← limit
    node limit limit .block

/-- Move past marks of the end of a document, at most so many. -/
def documentEnds : Nat → Assembly Unit
  | 0 => pure ()
  | limit + 1 => do
      if ← accept .documentEnd then documentEnds limit

/-- The content of a text that holds at most one document. -/
def only : Assembly (Option Node) := do
  if (← peek).isNone then return none
  let node ← document
  documentEnds (← limit)
  if (← peek).isSome then failure
  pure (some node)

end Assembly

/-- Parse a text that holds at most one document. -/
def parse? (text : String) : Option (Option Node) := do
  let (node, _) ← Assembly.only.run ⟨← tokens? text, [], []⟩
  pure node

end RelationalSolver.Yaml
