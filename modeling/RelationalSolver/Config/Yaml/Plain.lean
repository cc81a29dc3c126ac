import RelationalSolver.Config.Yaml.Folding

/-!
# YAML: plain scalars

A plain scalar has no quotes.  What ends it depends on whether it stands inside of
brackets, which is called flow.
-/

namespace RelationalSolver.Yaml

/-- Characters that no plain scalar begins with. -/
def isReserved (c : Char) : Bool :=
  isFlowMark c || c ∈ ['#', '&', '*', '!', '|', '>', '\'', '"', '%', '@', '\x60']

/-- A plain scalar begins here.  Some marks only have a meaning before a gap, or
inside of brackets. -/
def beginsPlain (flow : Bool) : List Char → Bool
  | [] => false
  | c :: rest =>
      if isBlank c || isBreak c || isReserved c then false
      else if c = '-' then !rest.head?.any isBlank
      else if c = '?' || c = ':' then !flow && !isGap rest.head?
      else true

/-- The characters of a plain scalar up to a gap or a mark.  Inside of brackets a
colon right before another mark is an error. -/
def plainPart? (flow : Bool) : List Char → Option (List Char)
  | [] => some []
  | c :: rest =>
      if isGap (some c) then some []
      else if flow && c = ':' && rest.head?.any fun next => isFlowMark next || next = '?' then none
      else if (c = ':' && isGap rest.head?) || (flow && isFlowMark c) then some []
      else (c :: ·) <$> plainPart? flow rest

/-- A plain scalar from here on, read in at most so many parts, after a gap that
belongs to it only if a part follows.  Outside of brackets its lines begin at the
column or further right.  The answer also says whether the reader has gone on to
another line after the scalar. -/
def plainFrom (flow : Bool) (column : Int) (gap : Gap) : Nat → Reader (List Char × Bool)
  | 0 => failure
  | limit + 1 => do
      let here ← get
      if here.isAtBoundary || here.rest.head? = some '#' then return ([], gap.endsLine)
      let part ← plainPart? flow here.rest
      if part.isEmpty then return ([], gap.endsLine)
      Reader.skip part.length
      let text := gap.folded ++ part
      let rest ← Reader.rest
      if rest.isEmpty || !isGap rest.head? then return (text, false)
      let next ← Gap.read column false (← Reader.limit)
      if !flow && (← get).column < column then return (text, next.endsLine)
      let (more, ended) ← plainFrom flow column next limit
      pure (text ++ more, ended)

/-- A plain scalar inside of an indentation, and whether the reader has gone on to
another line after it. -/
def plain (flow : Bool) (indent : Int) : Reader (String × Bool) := do
  let (text, ended) ← plainFrom flow (indent + 1) .empty (← Reader.limit)
  pure (String.ofList text, ended)

end RelationalSolver.Yaml
