import RelationalSolver.Config.Yaml.Token

/-!
# YAML: nodes

What a document consists of.  A node that has an anchor may be referred to from
other places, also from inside of itself, so that references are kept as such.
-/

namespace RelationalSolver.Yaml

/-- What is said of a node besides its content. -/
structure Properties where
  /-- The number of its anchor. -/
  anchor : Option Nat
  tag : Option Tag

/-- Nothing is said of the node. -/
def Properties.none : Properties := ⟨.none, .none⟩

/-- Parts of a document. -/
inductive Node where
  /-- What the anchor marks stands here again. -/
  | reference (anchor : Nat)
  | scalar (properties : Properties) (style : ScalarStyle) (text : String)
  | list (properties : Properties) (items : List Node)
  /-- Entries in the order of the text.  A key may come up more than once. -/
  | table (properties : Properties) (entries : List (Node × Node))

namespace Node

/-- A scalar that is not written at all. -/
def unwritten (properties : Properties) : Node := .scalar properties .plain ""

instance : Inhabited Node := ⟨unwritten .none⟩

mutual

/-- How long the document is: collections count twice, because they have a
beginning and an end. -/
def length : Node → Nat
  | .reference _ => 1
  | .scalar _ _ _ => 1
  | .list _ items => 2 + lengths items
  | .table _ entries => 2 + entryLengths entries

/-- The lengths of several nodes together. -/
def lengths : List Node → Nat
  | [] => 0
  | node :: nodes => node.length + lengths nodes

/-- The lengths of keys and values together. -/
def entryLengths : List (Node × Node) → Nat
  | [] => 0
  | (key, value) :: entries => key.length + value.length + entryLengths entries

end

/-- The node with its number, if it has an anchor. -/
def marked (properties : Properties) (node : Node) : List (Nat × Node) :=
  (properties.anchor.map fun anchor => (anchor, node)).toList

mutual

/-- The nodes that have anchors, in the order of their beginnings. -/
def anchored : Node → List (Nat × Node)
  | .reference _ => []
  | .scalar properties style text => marked properties (.scalar properties style text)
  | .list properties items => marked properties (.list properties items) ++ anchoredIn items
  | .table properties entries =>
      marked properties (.table properties entries) ++ anchoredInEntries entries

/-- The nodes in a list that have anchors. -/
def anchoredIn : List Node → List (Nat × Node)
  | [] => []
  | node :: nodes => node.anchored ++ anchoredIn nodes

/-- The nodes in keys and values that have anchors. -/
def anchoredInEntries : List (Node × Node) → List (Nat × Node)
  | [] => []
  | (key, value) :: entries => key.anchored ++ value.anchored ++ anchoredInEntries entries

end

end Node

end RelationalSolver.Yaml
