import RelationalSolver.Config.Document

/-!
# TOML: building tables

The settings of a document come line by line, and a table can be extended as
long as nobody has written it down as a whole.  What may still be added to a
table depends on how it came about.
-/

namespace RelationalSolver.Toml

/-- How a table came about. -/
inductive Origin where
  /-- A header names it. -/
  | header
  /-- It stands on the way to a header. -/
  | way
  /-- It stands on the way of a dotted key. -/
  | dotted
deriving DecidableEq

/-- A document that is still being built. -/
inductive Tree where
  /-- A value is complete. -/
  | value (document : Document)
  | table (origin : Origin) (entries : List (String × Tree))
  /-- The elements of a list that have headers of their own. -/
  | elements (tables : List (List (String × Tree)))

/-- The entries of a table that is still being built. -/
abbrev Entries := List (String × Tree)

mutual

/-- The document as it is. -/
def Tree.document : Tree → Document
  | .value document => document
  | .table _ entries => .table (documents entries)
  | .elements tables => .list (tableDocuments tables)

/-- The entries as they are. -/
def documents : Entries → List (Document × Document)
  | [] => []
  | (key, tree) :: entries => (.text key, tree.document) :: documents entries

/-- The elements as they are. -/
def tableDocuments : List Entries → List Document
  | [] => []
  | entries :: tables => .table (documents entries) :: tableDocuments tables

end

namespace Entries

/-- Put something in the place of what a key has, or at the end if it has
nothing. -/
def alter (key : String) (change : Option Tree → Option Tree) : Entries → Option Entries
  | [] => do pure [(key, ← change none)]
  | (other, tree) :: entries =>
      if other = key then do pure ((key, ← change (some tree)) :: entries)
      else do pure ((other, tree) :: (← alter key change entries))

/-- Change the last of several tables. -/
def changeLast (change : Entries → Option Entries) : List Entries → Option (List Entries)
  | [] => none
  | [entries] => do pure [← change entries]
  | entries :: tables => do pure (entries :: (← changeLast change tables))

/-- Change the table that a path leads to.  Tables that are missing are made, as
the way to a header or of a dotted key; of a list of tables the last is meant.  A
dotted key does not lead into a table that has a header. -/
def within (made : Origin) (change : Origin → Entries → Option Entries) :
    List String → Origin → Entries → Option Entries
  | [], origin, entries => change origin entries
  | key :: path, _, entries =>
      alter key (fun
        | none => .table made <$> within made change path made []
        | some (.value _) => none
        | some (.elements tables) =>
            .elements <$> changeLast (within made change path .header) tables
        | some (.table origin inner) =>
            if made = .dotted && origin = .header then none
            else .table origin <$> within made change path origin inner) entries

/-- Set a key for the first time. -/
def setNew (key : String) (document : Document) : Entries → Option Entries :=
  alter key fun
    | none => some (.value document)
    | some _ => none

/-- Set a dotted key for the first time.  The table that holds it must be one of
dotted keys, unless the key has only one name. -/
def set (path : List String) (document : Document) (entries : Entries) : Option Entries :=
  match path.getLast? with
  | none => none
  | some key =>
      within .dotted
        (fun origin entries =>
          if origin = .dotted ↔ 1 < path.length then setNew key document entries else none)
        path.dropLast .header entries

/-- Open the table of a header, which may so far only have stood on the way to
others. -/
def openTable (path : List String) (entries : Entries) : Option Entries :=
  match path.getLast? with
  | none => none
  | some key =>
      within .way
        (fun _ => alter key fun
          | none => some (.table .header [])
          | some (.table .way inner) => some (.table .header inner)
          | some _ => none)
        path.dropLast .header entries

/-- Add an element to the list of tables of a header. -/
def openElement (path : List String) (entries : Entries) : Option Entries :=
  match path.getLast? with
  | none => none
  | some key =>
      within .way
        (fun _ => alter key fun
          | none => some (.elements [[]])
          | some (.elements tables) => some (.elements (tables ++ [[]]))
          | some _ => none)
        path.dropLast .header entries

/-- The entries of a table that holds the settings. -/
def ofSettings (settings : List (List String × Document)) : Option Entries :=
  settings.foldlM (fun entries (path, document) => set path document entries) []

end Entries

end RelationalSolver.Toml
