import Std.Data.TreeSet
import RelationalSolver.Term.Order

/-!
# Finite sets of terms

Domains of variables and values of columns are sets: they hold no term twice,
and a term is looked up without going through all of them.
-/

namespace RelationalSolver

/-- A finite set of terms. -/
structure TermSet where
  items : Std.TreeSet Term

namespace TermSet

/-- The set without members. -/
def empty : TermSet := ⟨∅⟩

instance : Inhabited TermSet := ⟨empty⟩

/-- The set of the listed terms. -/
def ofList (terms : List Term) : TermSet := ⟨.ofList terms⟩

/-- The members from smallest to largest. -/
def toList (set : TermSet) : List Term := set.items.toList

/-- The term is a member. -/
def contains (set : TermSet) (t : Term) : Bool := set.items.contains t

/-- Keep the members that satisfy a condition. -/
def filter (set : TermSet) (keep : Term → Bool) : TermSet := ⟨set.items.filter keep⟩

/-- What the members become; members that become the same are one. -/
def map (set : TermSet) (f : Term → Term) : TermSet := ofList (set.toList.map f)

/-- The members of both sets. -/
def inter (set other : TermSet) : TermSet := set.filter other.contains

/-- Number of members. -/
def size (set : TermSet) : Nat := set.items.size

/-- The set has no members. -/
def isEmpty (set : TermSet) : Bool := set.items.isEmpty

@[simp] theorem mem_toList {set : TermSet} {t : Term} :
    t ∈ set.toList ↔ set.contains t = true := by
  simp [toList, contains]

@[simp] theorem contains_ofList {terms : List Term} {t : Term} :
    (ofList terms).contains t = true ↔ t ∈ terms := by
  simp [contains, ofList]

@[simp] theorem contains_filter {set : TermSet} {keep : Term → Bool} {t : Term} :
    (set.filter keep).contains t = true ↔ set.contains t = true ∧ keep t = true := by
  rw [← mem_toList, ← mem_toList]
  simp [toList, filter, Std.TreeSet.toList_filter]

@[simp] theorem contains_map {set : TermSet} {f : Term → Term} {t : Term} :
    (set.map f).contains t = true ↔ ∃ u, set.contains u = true ∧ f u = t := by
  simp [map]

@[simp] theorem contains_inter {set other : TermSet} {t : Term} :
    (set.inter other).contains t = true ↔
      set.contains t = true ∧ other.contains t = true := by
  simp [inter]

theorem length_toList (set : TermSet) : set.toList.length = set.size := by
  simp [toList, size]

theorem nodup_toList (set : TermSet) : set.toList.Nodup :=
  set.items.distinct_toList.imp fun {_ _} different same => different (by simp [same])

end TermSet

end RelationalSolver
