import RelationalSolver.Term.Basic
import RelationalSolver.Text.Quoted

/-!
# Written form of terms
-/

namespace RelationalSolver

/-- A numbered variable is an underscore and its ordinal, the wildcard two
underscores, and a named variable its name. -/
def Var.text : Var → String
  | .wildcard => "__"
  | .numbered ordinal => "_" ++ toString ordinal
  | .named name => name

/-- Characters and strings are quoted, other atoms are written plainly. -/
def Atom.text : Atom → String
  | .bool true => "true"
  | .bool false => "false"
  | .int value => toString value
  | .char value => Text.quotedChar value
  | .str value => Text.quotedString value

namespace Term

mutual

/-- Functor and arguments in parentheses.  A tuple of one argument has a comma
after it. -/
def text : Term → String
  | .var v => v.text
  | .atom a => a.text
  | .compound functor args =>
      functor ++ "(" ++ ", ".intercalate (texts args) ++
        (if args.length = 1 && functor = "" then ",)" else ")")

/-- The written forms of several terms. -/
def texts : List Term → List String
  | [] => []
  | t :: ts => t.text :: texts ts

end

/-- Nesting of a term: nothing for variables and atoms, one more than the
deepest argument for compounds. -/
def depth : Term → Nat
  | .var _ => 0
  | .atom _ => 0
  | .compound _ args => 1 + depths args
where
  /-- Nesting of the deepest term of a list. -/
  depths : List Term → Nat
    | [] => 0
    | t :: ts => max t.depth (depths ts)

end Term

end RelationalSolver
