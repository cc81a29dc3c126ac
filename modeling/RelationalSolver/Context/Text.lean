import RelationalSolver.Context.Facet
import RelationalSolver.Substitution.Text

/-!
# Written form of contexts
-/

namespace RelationalSolver

/-- What is observed, and how many hooks there are. -/
def Registry.text (r : Registry) : String :=
  let keys := (r.observers.map fun (key, _) => key.dotted).mergeSort
    fun a b => (compare a b).isLE
  "HookRegistry \x7b observed_keys: " ++ listText (keys.map Text.quotedString) ++
    ", observers: " ++ toString r.observerCount ++
    ", bind_hooks: " ++ toString r.bindHooks.length ++
    ", walk_hooks: " ++ toString r.walkHooks.length ++ " \x7d"

/-- The value of a facet. -/
def FacetKey.valueText : (key : FacetKey) → key.Value → String
  | .substitutions, s => Substitution.text s
  | .unification, .disabled => "Disabled"
  | .unification, .enabled => "Enabled"
  | .hooks, registry => Registry.text registry
  | .counters, table => sortedText
      ((Std.TreeMap.toList table).map fun (name, count) =>
        Text.quotedString name ++ ": " ++ toString count)
  | .constraints, store => listText ((ConstraintStore.names store).map Text.quotedString)
  | .planner, passes => listText ((passes : List Pass).map Pass.name)
  | .custom _, value => toString (value : Int)

/-- The facets with their names. -/
def Context.text (ctx : Context) : String :=
  sortedText (ctx.facets.map fun facet =>
    Text.quotedString facet.key.name ++ ": " ++ facet.key.valueText facet.value)

end RelationalSolver
