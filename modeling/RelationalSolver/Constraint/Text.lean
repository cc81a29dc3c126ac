import RelationalSolver.Goal.Basic
import RelationalSolver.Substitution.Text

/-!
# Written form of constraints
-/

namespace RelationalSolver

/-- The members between braces. -/
def TermSet.text (set : TermSet) : String := sortedText (Term.texts set.toList)

/-- A name and its fields between braces. -/
def recordText (name : String) (fields : List (String × String)) : String :=
  name ++ " \x7b " ++ ", ".intercalate (fields.map fun (field, value) => field ++ ": " ++ value)
    ++ " \x7d"

/-- Constraints on terms show their fields; one on goals has no written form. -/
def Constraint.text? : Constraint → Option String
  | .neq a b => some (recordText "Neq" [("left", a.text), ("right", b.text)])
  | .distinct items => some (recordText "Distinct" [("items", listText (Term.texts items))])
  | .notIn e => some (recordText "NotIn"
      [("subject", e.subject.text), ("members", listText (Term.texts e.members))])
  | .inDomain v domain => some (recordText "InDomain"
      [("var", v.text), ("domain", domain.text)])
  | .cardinality _ => none

/-- A goal that is a constraint with a written form shows it. -/
def Goal.text? : Goal → Option String
  | .constrain c => c.text?.map fun text => recordText "Constrain" [("constraint", text)]
  | _ => none

/-- Name and number of columns. -/
def Relation.text (relation : Relation) : String :=
  recordText "Relation" [("name", Text.quotedString relation.name),
    ("arity", toString relation.arity)]

end RelationalSolver
