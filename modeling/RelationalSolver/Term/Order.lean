import Std.Data.TreeMap
import RelationalSolver.Term.Basic

/-!
# The standard order of terms

Variables come before atoms and atoms before compounds.  Numbered variables are
ordered by ordinal, after the wildcard.  The orders are lawful, so variables and
terms can be the keys of a search tree.
-/

namespace RelationalSolver

namespace Var

/-- Which kind of variable: the most significant part of the order. -/
def rank : Var → Nat
  | .wildcard => 0
  | .numbered _ => 1
  | .named _ => 2

/-- The ordinal of a numbered variable, zero for the others. -/
def ordinal : Var → Nat
  | .numbered ordinal => ordinal
  | _ => 0

/-- The name of a named variable, empty for the others. -/
def name : Var → String
  | .named name => name
  | _ => ""

/-- The wildcard first, then the numbered variables, then the named ones. -/
def compare : Var → Var → Ordering :=
  compareLex (compareOn rank) (compareLex (compareOn ordinal) (compareOn name))

instance : Ord Var := ⟨compare⟩

instance : Std.TransOrd Var :=
  inferInstanceAs (Std.TransCmp
    (compareLex (compareOn rank) (compareLex (compareOn ordinal) (compareOn name))))

instance : Std.LawfulEqOrd Var where
  eq_of_compare {a b} h := by
    change compareLex _ _ a b = .eq at h
    simp only [compareLex, compareOn, Ordering.then_eq_eq, Std.LawfulEqOrd.compare_eq_iff_eq] at h
    obtain ⟨sameRank, sameOrdinal, sameName⟩ := h
    cases a <;> cases b <;> simp_all [rank, ordinal, name]

end Var

namespace Atom

/-- Which kind of atom: the most significant part of the order. -/
def rank : Atom → Nat
  | .bool _ => 0
  | .int _ => 1
  | .char _ => 2
  | .str _ => 3

/-- The truth value of an atom, false for other kinds. -/
def flag : Atom → Bool
  | .bool value => value
  | _ => false

/-- The value of an integer, zero for other kinds. -/
def integer : Atom → Int
  | .int value => value
  | _ => 0

/-- The value of a character, a space for other kinds. -/
def character : Atom → Char
  | .char value => value
  | _ => ' '

/-- The value of a string, empty for other kinds. -/
def string : Atom → String
  | .str value => value
  | _ => ""

/-- Truth values, then integers, characters and strings, each kind by value. -/
def compare : Atom → Atom → Ordering :=
  compareLex (compareOn rank) (compareLex (compareOn flag) (compareLex (compareOn integer)
    (compareLex (compareOn character) (compareOn string))))

instance : Ord Atom := ⟨compare⟩

instance : Std.TransOrd Atom :=
  inferInstanceAs (Std.TransCmp
    (compareLex (compareOn rank) (compareLex (compareOn flag) (compareLex (compareOn integer)
      (compareLex (compareOn character) (compareOn string))))))

instance : Std.LawfulEqOrd Atom where
  eq_of_compare {a b} h := by
    change compareLex _ _ a b = .eq at h
    simp only [compareLex, compareOn, Ordering.then_eq_eq, Std.LawfulEqOrd.compare_eq_iff_eq] at h
    obtain ⟨sameRank, sameFlag, sameInteger, sameCharacter, sameString⟩ := h
    cases a <;> cases b <;> simp_all [rank, flag, integer, character, string]

end Atom

namespace Term

mutual

/-- Variables, then atoms, then compounds; compounds by functor and then by
their arguments. -/
def compare : Term → Term → Ordering
  | .var v, .var w => Ord.compare v w
  | .var _, _ => .lt
  | .atom _, .var _ => .gt
  | .atom a, .atom b => Ord.compare a b
  | .atom _, .compound _ _ => .lt
  | .compound f args, .compound g others =>
      (Ord.compare f g).then (compareAll args others)
  | .compound _ _, _ => .gt

/-- Argument lists lexicographically: a shorter list that agrees comes first. -/
def compareAll : List Term → List Term → Ordering
  | [], [] => .eq
  | [], _ :: _ => .lt
  | _ :: _, [] => .gt
  | a :: as, b :: bs => (a.compare b).then (compareAll as bs)

end

mutual

theorem compare_self : ∀ a : Term, a.compare a = .eq
  | .var _ => by simp [compare]
  | .atom _ => by simp [compare]
  | .compound _ args => by simp [compare, compareAll_self args]

theorem compareAll_self : ∀ as : List Term, compareAll as as = .eq
  | [] => rfl
  | a :: as => by simp [compareAll, compare_self a, compareAll_self as]

end

mutual

theorem eq_of_compare : ∀ {a b : Term}, a.compare b = .eq → a = b
  | .var _, .var _, h => by simpa [compare] using h
  | .atom _, .atom _, h => by simpa [compare] using h
  | .compound _ _, .compound _ _, h => by
      simp only [compare, Ordering.then_eq_eq, Std.LawfulEqOrd.compare_eq_iff_eq] at h
      rw [h.1, eq_of_compareAll h.2]
  | .var _, .atom _, h => by simp [compare] at h
  | .var _, .compound _ _, h => by simp [compare] at h
  | .atom _, .var _, h => by simp [compare] at h
  | .atom _, .compound _ _, h => by simp [compare] at h
  | .compound _ _, .var _, h => by simp [compare] at h
  | .compound _ _, .atom _, h => by simp [compare] at h

theorem eq_of_compareAll : ∀ {as bs : List Term}, compareAll as bs = .eq → as = bs
  | [], [], _ => rfl
  | a :: as, b :: bs, h => by
      rw [compareAll, Ordering.then_eq_eq] at h
      rw [eq_of_compare h.1, eq_of_compareAll h.2]
  | [], _ :: _, h => by simp [compareAll] at h
  | _ :: _, [], h => by simp [compareAll] at h

end

mutual

theorem compare_swap : ∀ a b : Term, a.compare b = (b.compare a).swap
  | .var v, .var w => by simpa [compare] using Std.OrientedOrd.eq_swap (a := v) (b := w)
  | .atom a, .atom b => by simpa [compare] using Std.OrientedOrd.eq_swap (a := a) (b := b)
  | .compound f as, .compound g bs => by
      rw [compare, compare, Ordering.swap_then, compareAll_swap as bs,
        Std.OrientedOrd.eq_swap (a := f) (b := g)]
  | .var _, .atom _ => by simp [compare]
  | .var _, .compound _ _ => by simp [compare]
  | .atom _, .var _ => by simp [compare]
  | .atom _, .compound _ _ => by simp [compare]
  | .compound _ _, .var _ => by simp [compare]
  | .compound _ _, .atom _ => by simp [compare]

theorem compareAll_swap : ∀ as bs : List Term, compareAll as bs = (compareAll bs as).swap
  | [], [] => rfl
  | [], _ :: _ => rfl
  | _ :: _, [] => rfl
  | a :: as, b :: bs => by
      rw [compareAll, compareAll, Ordering.swap_then, compare_swap a b, compareAll_swap as bs]

end

/-- What comes of two comparisons in a row that do not go down. -/
def Chains (first second both : Ordering) : Prop :=
  first.isLE → second.isLE → both = first.then second

theorem Chains.of_trans {α : Type} [Ord α] [Std.TransOrd α] (a b c : α) :
    Chains (Ord.compare a b) (Ord.compare b c) (Ord.compare a c) := by
  intro ab bc
  cases first : Ord.compare a b with
  | lt => exact Std.TransCmp.lt_of_lt_of_isLE first bc
  | eq => exact Std.TransCmp.congr_left first
  | gt => simp [first] at ab

theorem Chains.then {x y z p q r : Ordering} (heads : Chains x y z) (tails : Chains p q r) :
    Chains (x.then p) (y.then q) (z.then r) := by
  unfold Chains at *
  cases x <;> cases y <;> cases p <;> cases q <;> simp_all

theorem Chains.up (first : Ordering) : Chains first .lt .lt := by
  cases first <;> simp [Chains]

theorem chains_var (v : Var) (b c : Term) :
    Chains ((var v).compare b) (b.compare c) ((var v).compare c) := by
  cases b <;> cases c <;> simp only [compare] <;>
    first | exact .of_trans _ _ _ | exact .up _ | simp [Chains]

theorem chains_atom (a : Atom) (b c : Term) :
    Chains ((atom a).compare b) (b.compare c) ((atom a).compare c) := by
  cases b <;> cases c <;> simp only [compare] <;>
    first | exact .of_trans _ _ _ | exact .up _ | simp [Chains]

theorem chains_compound (f : String) {as : List Term}
    (tails : ∀ bs cs, Chains (compareAll as bs) (compareAll bs cs) (compareAll as cs))
    (b c : Term) :
    Chains ((compound f as).compare b) (b.compare c) ((compound f as).compare c) := by
  cases b <;> cases c <;> simp only [compare] <;>
    first | exact (Chains.of_trans _ _ _).then (tails _ _) | simp [Chains]

theorem chains_nil (bs cs : List Term) :
    Chains (compareAll [] bs) (compareAll bs cs) (compareAll [] cs) := by
  cases bs <;> cases cs <;> simp [compareAll, Chains]

theorem chains_cons {a : Term} {as : List Term}
    (heads : ∀ b c, Chains (a.compare b) (b.compare c) (a.compare c))
    (tails : ∀ bs cs, Chains (compareAll as bs) (compareAll bs cs) (compareAll as cs))
    (bs cs : List Term) :
    Chains (compareAll (a :: as) bs) (compareAll bs cs) (compareAll (a :: as) cs) := by
  cases bs <;> cases cs <;> simp only [compareAll] <;>
    first | exact (heads _ _).then (tails _ _) | simp [Chains]

mutual

theorem chains_compare : ∀ a b c : Term, Chains (a.compare b) (b.compare c) (a.compare c)
  | .var v => chains_var v
  | .atom a => chains_atom a
  | .compound f as => chains_compound f (chains_compareAll as)

theorem chains_compareAll : ∀ as bs cs : List Term,
    Chains (compareAll as bs) (compareAll bs cs) (compareAll as cs)
  | [] => chains_nil
  | a :: as => chains_cons (chains_compare a) (chains_compareAll as)

end

instance : Ord Term := ⟨compare⟩

instance : Std.TransOrd Term where
  eq_swap := compare_swap _ _
  isLE_trans {a b c} ab bc := by
    change (a.compare c).isLE
    rw [chains_compare a b c ab bc]
    exact Ordering.isLE_then_iff_and.mpr ⟨ab, .inr bc⟩

instance : Std.LawfulEqOrd Term where
  compare_self := compare_self _
  eq_of_compare := eq_of_compare

/-- The terms from smallest to largest; equal terms are all kept. -/
def sorted (terms : List Term) : List Term :=
  terms.mergeSort fun a b => (a.compare b).isLE

end Term

end RelationalSolver
