import RelationalSolver.Config.Yaml.Cursor

/-!
# YAML: scalars over several lines

A scalar that is plain or stands between quotes may go on on the next line.  One
line break inside of it becomes a space, and of several the first is dropped.
-/

namespace RelationalSolver.Yaml

/-- Blanks and line breaks inside a scalar. -/
structure Gap where
  /-- The blanks before the first line break. -/
  blanks : List Char
  /-- What the line breaks stand for. -/
  breaks : List Char

namespace Gap

/-- There is nothing between the parts. -/
def empty : Gap := ⟨[], []⟩

/-- The scalar goes on on another line. -/
def endsLine (gap : Gap) : Bool := !gap.breaks.isEmpty

/-- What a gap contributes to the text of the scalar. -/
def folded (gap : Gap) : List Char :=
  match gap.breaks with
  | [] => gap.blanks
  | ['\n'] => [' ']
  | '\n' :: breaks => breaks
  | breaks => breaks

/-- Read a gap of at most so many characters.  On a new line no tab may stand
before the column. -/
def read (column : Int) (newLine : Bool) : Nat → Reader Gap
  | 0 => pure empty
  | limit + 1 => do
      let here ← get
      match here.rest with
      | c :: _ =>
          if isBlank c then
            if newLine && c = '\t' && here.column < column then failure
            Reader.skip 1
            let gap ← read column newLine limit
            pure (if newLine then gap else { gap with blanks := c :: gap.blanks })
          else if isBreak c then
            let line ← Reader.lineBreak
            let gap ← read column true limit
            pure { gap with breaks := line :: gap.breaks }
          else pure empty
      | [] => pure empty

end Gap

end RelationalSolver.Yaml
