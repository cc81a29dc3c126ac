import RelationalSolver.Config.Pass
import RelationalSolver.Config.Toml.Parse

/-!
# TOML: the settings of a query

The settings are looked up in the table that a document is.  A structure may also
be written as the list of its fields, an alternative also as a table with one
entry.
-/

namespace RelationalSolver.Toml

/-- What the fields of a structure are set to, each at most once.  In a list there
may be more, but none may be missing.  A date or a time has no such field. -/
def fields? (names : List String) : Document → Option (List (Option Document))
  | .table entries =>
      let settings := entries.map fun (key, value) => (key.text?, value)
      names.mapM fun name => onlyValue? (some name) settings
  | .list items =>
      if items.length < names.length then none else some ((items.take names.length).map some)
  | .moment => some (names.map fun _ => none)
  | _ => none

/-- A collection without any content. -/
def isHollow : Document → Bool
  | .table [] => true
  | .list [] => true
  | _ => false

/-- The name of an alternative.  It may also be the only key of a table, with a
collection without any content. -/
def alternative? : Document → Option String
  | .text name => some name
  | .table [(.text name, content)] => if isHollow content then some name else none
  | _ => none

/-- A setting that may be left out. -/
def optional? {α : Type} (read : Document → Option α) : Option Document → Option (Option α)
  | none => some none
  | some document => some <$> read document

/-- A setting that has a default. -/
def settingOr {α : Type} (default : α) (read : Document → Option α) (setting : Option Document) :
    Option α := do
  pure ((← optional? read setting).getD default)

/-- A planning pass: its kind is the entry `type` of a table or the first item of
a list. -/
def pass? : Document → Option PassConfig
  | .table entries => do
      let isKind (entry : Document × Document) : Bool := entry.1.text? = some "type"
      match entries.filter isKind with
      | [(_, kind)] => PassConfig.ofEntries? (← kind.text?) (entries.filter (!isKind ·))
      | _ => none
  | .list (kind :: items) => do PassConfig.ofItems? (← kind.text?) items
  | _ => none

/-- Limits of a query. -/
def limits? (document : Document) : Option Limits := do
  Limits.ofList? (← (← fields? Limits.names document).mapM (optional? Document.count?))

/-- The mode of a query. -/
def mode? (document : Document) : Option EnvironmentMode := do
  EnvironmentMode.ofName? (← alternative? document)

/-- The planning passes of a query. -/
def passes? : Document → Option (List PassConfig)
  | .list items => items.mapM pass?
  | _ => none

/-- The configuration of a document. -/
def settings? (document : Document) : Option QueryConfig := do
  match ← fields? QueryConfig.names document with
  | [environmentMode, seed, occursCheck, termination, heuristics] =>
      pure {
        environmentMode := ← settingOr .nonReproducible mode? environmentMode
        randomSeed := ← optional? Document.count? seed
        occursCheck := ← settingOr false Document.flag? occursCheck
        termination := ← optional? limits? termination
        heuristics := ← optional? passes? heuristics }
  | _ => none

/-- Read a configuration. -/
def config? (text : String) : Option QueryConfig := do settings? (← parse? text)

end RelationalSolver.Toml
