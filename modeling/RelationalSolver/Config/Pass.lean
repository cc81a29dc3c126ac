import RelationalSolver.Config.Basic
import RelationalSolver.Config.Document

/-!
# Reading planning passes

A pass is written as its kind and, beside it, what only this kind can have.
-/

namespace RelationalSolver

/-- The mode by its name. -/
def EnvironmentMode.ofName? : String → Option EnvironmentMode
  | "reproducible" => some .reproducible
  | "non_reproducible" => some .nonReproducible
  | _ => none

namespace PassConfig

/-- The only field that a pass can have beside its kind. -/
inductive Field where
  | seed
  | other
deriving DecidableEq

/-- The field that a key stands for, by its name or by its number.  Other values
cannot be keys. -/
def Field.ofKey? : Document → Option Field
  | .text name => some (if name = "seed" then .seed else .other)
  | .natural number => some (if number = 0 then .seed else .other)
  | _ => none

/-- The seed of a pass, which may be nothing. -/
def seed? : Document → Option (Option Nat)
  | .null => some none
  | document => some <$> document.count?

/-- The kinds that are nothing but their name. -/
def plainKind? : String → Option PassConfig
  | "chain_shared_vars" => some .chainSharedVars
  | "relevance" => some .relevance
  | "cardinality" => some .cardinality
  | _ => none

/-- A pass of a kind with what stands beside the kind in a table.  If the kind has
no fields, everything is passed over. -/
def ofEntries? (kind : String) (entries : List (Document × Document)) : Option PassConfig :=
  match plainKind? kind with
  | some pass => some pass
  | none =>
      if kind = "randomize_order" then do
        let fields ← entries.mapM fun (key, value) => do pure (← Field.ofKey? key, value)
        match ← onlyValue? .seed fields with
        | some document => .randomizeOrder <$> seed? document
        | none => pure (.randomizeOrder none)
      else none

/-- A pass of a kind with what stands after the kind in a list.  No field may be
missing, and there may be nothing else. -/
def ofItems? (kind : String) (items : List Document) : Option PassConfig :=
  match plainKind? kind with
  | some pass => if items.isEmpty then some pass else none
  | none =>
      match items with
      | [seed] => if kind = "randomize_order" then .randomizeOrder <$> seed? seed else none
      | _ => none

end PassConfig

/-- Limits from what they are set to, in the order of their names. -/
def Limits.ofList? : List (Option Nat) → Option Limits
  | [solutions, steps, seconds, millis] => some ⟨solutions, steps, seconds, millis⟩
  | _ => .none

/-- The names of the settings of a query. -/
def QueryConfig.names : List String :=
  ["environment_mode", "random_seed", "occurs_check", "termination", "heuristics"]

end RelationalSolver
