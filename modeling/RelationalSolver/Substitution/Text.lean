import RelationalSolver.Substitution.Basic
import RelationalSolver.Term.Text

/-!
# Written form of substitutions
-/

namespace RelationalSolver

/-- Entries between braces. -/
def bracedText (entries : List String) : String :=
  "\x7b" ++ ", ".intercalate entries ++ "\x7d"

/-- Entries between braces, in the order of their texts. -/
def sortedText (entries : List String) : String :=
  bracedText (entries.mergeSort fun a b => (compare a b).isLE)

/-- Items between brackets. -/
def listText (items : List String) : String :=
  "[" ++ ", ".intercalate items ++ "]"

/-- The direct bindings. -/
def Substitution.text (s : Substitution) : String :=
  sortedText (s.toList.map fun (v, t) => v.text ++ ": " ++ t.text)

end RelationalSolver
