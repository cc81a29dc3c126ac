import RelationalSolver.Config.Pass
import RelationalSolver.Config.Yaml.Assembly
import RelationalSolver.Config.Yaml.Scalar

/-!
# YAML: the settings of a query

The settings are looked up in the one node of a document.  Values that are not
settings are passed over, whatever they are.  References are followed where a
setting is read, and only so often that a short text cannot stand for an endless
one.
-/

namespace RelationalSolver.Yaml

/-- Computations that look up settings.  They know the nodes that have anchors and
how many references may still be followed. -/
abbrev Settling := ReaderT (List (Nat × Node)) (StateT Nat Option)

namespace Settling

/-- The node that is meant, if what is written is a reference. -/
def follow : Node → Settling Node
  | .reference anchor => do
      match ← get with
      | 0 => failure
      | left + 1 => do
          set left
          (← read).lookup anchor
  | node => pure node

/-! ## Settings of a known kind -/

/-- A scalar of this style stands for a value of the kind: it is plain, or it is
written as it is and has the tag of the kind. -/
def isOfKind (kind : Tag) (tag : Option Tag) (style : ScalarStyle) : Bool :=
  style = .plain || (style = .literal && tag = some kind)

/-- A count of 64 bits. -/
def count (node : Node) : Settling Nat := do
  match ← follow node with
  | .scalar properties style text =>
      if isOfKind intTag properties.tag style then count? text else failure
  | _ => failure

/-- A truth value. -/
def flag (node : Node) : Settling Bool := do
  match ← follow node with
  | .scalar properties style text =>
      if isOfKind boolTag properties.tag style then flag? text else failure
  | _ => failure

/-- A name, however it is written. -/
def name (node : Node) : Settling String := do
  match ← follow node with
  | .scalar _ _ text => pure text
  | _ => failure

/-- The name of an alternative, as a text or as the tag of nothing. -/
def alternative (node : Node) : Settling String := do
  match ← follow node with
  | .scalar properties style text => do
      match properties.tag.bind Tag.alternative? with
      | none => pure text
      | some name =>
          if style = .plain && (text.isEmpty || isNull text) then pure name else failure
  | _ => failure

/-- A plain scalar without any text can stand for an empty collection. -/
def isBlankScalar : Node → Bool
  | .scalar _ style text => style = .plain && text.isEmpty
  | _ => false

/-- The items of a list. -/
def items (node : Node) : Settling (List Node) := do
  match ← follow node with
  | .list _ items => pure items
  | node => if isBlankScalar node then pure [] else failure

/-- What the fields of a structure are set to, each at most once. -/
def fields (names : List String) (node : Node) : Settling (List (Option Node)) := do
  match ← follow node with
  | .table _ entries => do
      let entries ← entries.mapM fun (key, value) => do pure (← name key, value)
      names.mapM fun name => onlyValue? name entries
  | node => if isBlankScalar node then pure (names.map fun _ => none) else failure

/-- A node says that there is something.  A plain scalar says that there is nothing
if it is empty or a word for nothing, but not if it has a tag of its own. -/
def isPresent : Node → Settling Bool
  | .scalar properties .plain text =>
      match properties.tag with
      | none => pure (!text.isEmpty && !isNull text)
      | some tag =>
          if tag ≠ nullTag then pure true else if isNull text then pure false else failure
  | _ => pure true

/-- A setting that may be left out, or be nothing. -/
def optional {α : Type} (read : Node → Settling α) : Option Node → Settling (Option α)
  | none => pure none
  | some node => do
      let node ← follow node
      if ← isPresent node then some <$> read node else pure none

/-- A setting that may be left out, but not be nothing. -/
def settingOr {α : Type} (default : α) (read : Node → Settling α) : Option Node → Settling α
  | none => pure default
  | some node => read node

/-! ## Settings of any kind -/

/-- A collection has no tag that selects an alternative. -/
def expectNoAlternative (properties : Properties) : Settling Unit := do
  if (properties.tag.bind Tag.alternative?).isSome then failure

/-- What a node stands for, if collections in it are nested at most so deep. -/
def document (depth : Nat) (node : Node) : Settling Document := do
  match ← follow node with
  | .reference _ => failure
  | .scalar properties style text => scalarDocument? properties.tag style text
  | .list properties items => do
      expectNoAlternative properties
      match depth with
      | 0 => failure
      | depth + 1 => .list <$> items.mapM (document depth)
  | .table properties entries => do
      expectNoAlternative properties
      match depth with
      | 0 => failure
      | depth + 1 => .table <$> entries.mapM fun (key, value) => do
          pure (← document depth key, ← document depth value)

/-- How deep collections may be nested in a document. -/
def nesting : Nat := 128

/-- How deep collections may be nested in a planning pass: a pass stands in a list
in the table of all settings, and is a collection itself. -/
def passNesting : Nat := nesting - 3

/-- One part of a pass that is written as a table. -/
inductive PassEntry where
  | kind (name : String)
  | other (key value : Document)

/-- Read an entry of a pass. -/
def passEntry (key value : Node) : Settling PassEntry := do
  let key ← document passNesting key
  if key.text? = some "type" then .kind <$> name value
  else .other key <$> document passNesting value

/-- A planning pass: its kind is the entry `type` of a table or the first item of
a list. -/
def pass (node : Node) : Settling PassConfig := do
  match ← follow node with
  | .table properties entries => do
      expectNoAlternative properties
      let parts ← entries.mapM fun (key, value) => passEntry key value
      let others := parts.filterMap fun
        | .kind _ => none
        | .other key value => some (key, value)
      match parts.filterMap fun | .kind name => some name | .other _ _ => none with
      | [kind] => PassConfig.ofEntries? kind others
      | _ => failure
  | .list properties (kind :: items) => do
      expectNoAlternative properties
      let kind ← name kind
      PassConfig.ofItems? kind (← items.mapM (document passNesting))
  | _ => failure

/-! ## All settings -/

/-- Limits of a query. -/
def limits (node : Node) : Settling Limits := do
  Limits.ofList? (← (← fields Limits.names node).mapM (optional count))

/-- The mode of a query. -/
def mode (node : Node) : Settling EnvironmentMode := do
  EnvironmentMode.ofName? (← alternative node)

/-- The planning passes of a query. -/
def passes (node : Node) : Settling (List PassConfig) := do (← items node).mapM pass

/-- The configuration of a query. -/
def config (node : Node) : Settling QueryConfig := do
  match ← fields QueryConfig.names node with
  | [environmentMode, seed, occursCheck, termination, heuristics] =>
      pure {
        environmentMode := ← settingOr .nonReproducible mode environmentMode
        randomSeed := ← optional count seed
        occursCheck := ← settingOr false flag occursCheck
        termination := ← optional limits termination
        heuristics := ← optional passes heuristics }
  | _ => failure

end Settling

/-- How often references may be followed, for each part of a document. -/
def repetition : Nat := 100

/-- The configuration of a document. -/
def Node.config? (node : Node) : Option QueryConfig := do
  let (config, _) ← (Settling.config node).run node.anchored.reverse (node.length * repetition)
  pure config

/-- Read a configuration.  A text without any content sets nothing. -/
def config? (text : String) : Option QueryConfig := do
  match ← parse? text with
  | some node => node.config?
  | none => pure .default

end RelationalSolver.Yaml
