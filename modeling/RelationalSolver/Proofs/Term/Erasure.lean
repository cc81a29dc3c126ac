import RelationalSolver.Proofs.Term.Equations

/-!
# Wildcards in the place of variables

Some variables are new and stand in one place each.  Erasing puts the wildcard in the
place of these variables and leaves the others alone.  Terms that differ only in such
places are equal for some choice of the new variables.
-/

namespace RelationalSolver

open Equation

/-- Put the wildcard in the place of some variables. -/
def Term.erase (fresh : Finset Var) (t : Term) : Term :=
  t.mapVars fun v => if v ∈ fresh then .var .wildcard else .var v

namespace Term

variable {fresh : Finset Var} {t u : Term} {v : Var} {f : String} {args : List Term}

theorem erase_of_mem (member : v ∈ fresh) : (var v).erase fresh = .var .wildcard := if_pos member

theorem erase_of_notMem (absent : v ∉ fresh) : (var v).erase fresh = .var v := if_neg absent

@[simp] theorem erase_atom {a : Atom} : (atom a).erase fresh = .atom a := rfl

@[simp] theorem erase_compound :
    (compound f args).erase fresh = .compound f (args.map (erase fresh)) := mapVars_compound ..

theorem WildcardFree.named (free : (var v).WildcardFree) : v ≠ .wildcard := by
  rintro rfl
  simp [WildcardFree, mentions] at free

theorem exists_of_erase_eq_wildcard (free : t.WildcardFree)
    (erased : t.erase fresh = .var .wildcard) : ∃ n ∈ fresh, t = .var n := by
  cases t with
  | var n =>
      refine ⟨n, ?_, rfl⟩
      by_contra absent
      rw [erase_of_notMem absent] at erased
      cases erased
      exact free.named rfl
  | atom a => cases erased
  | compound f args => simp at erased

theorem eq_of_erase_eq_var (named : v ≠ .wildcard) (erased : t.erase fresh = .var v) :
    t = .var v ∧ v ∉ fresh := by
  cases t with
  | var w =>
      by_cases member : w ∈ fresh
      · rw [erase_of_mem member] at erased
        cases erased
        exact absurd rfl named
      · rw [erase_of_notMem member] at erased
        cases erased
        exact ⟨rfl, member⟩
  | atom a => cases erased
  | compound f args => simp at erased

theorem exists_of_erase_eq_compound (erased : t.erase fresh = .compound f args) :
    ∃ others, t = .compound f others ∧ args = others.map (erase fresh) := by
  cases t with
  | var v =>
      by_cases member : v ∈ fresh
      · rw [erase_of_mem member] at erased
        cases erased
      · rw [erase_of_notMem member] at erased
        cases erased
  | atom a => cases erased
  | compound g others =>
      rw [erase_compound] at erased
      injection erased with same sameArgs
      subst same
      exact ⟨others, rfl, sameArgs.symm⟩

theorem mentions_erase (absent : v ∉ fresh) (named : v ≠ .wildcard) :
    (t.erase fresh).mentions v = t.mentions v := by
  rw [Bool.eq_iff_iff, erase, mentions_mapVars]
  constructor
  · rintro ⟨w, inside, found⟩
    split at found
    · rw [mentions_var] at found
      exact absurd found.symm named
    · rw [mentions_var] at found
      exact found ▸ inside
  · exact fun inside => ⟨v, inside, by simp [absent]⟩

theorem mentions_wildcard_erase (member : v ∈ fresh) (inside : t.mentions v = true) :
    (t.erase fresh).mentions .wildcard = true :=
  mentions_mapVars.mpr ⟨v, inside, by simp [member]⟩

theorem occurrences_erase (absent : v ∉ fresh) (named : v ≠ .wildcard) :
    (t.erase fresh).occurrences v = t.occurrences v := by
  induction t using rec_args with
  | var w =>
      by_cases member : w ∈ fresh
      · have different : w ≠ v := by
          rintro rfl
          exact absent member
        simp [erase_of_mem member, occurrences_var, Ne.symm named, different]
      · rw [erase_of_notMem member]
  | atom a => rfl
  | compound f args ih =>
      rw [erase_compound, occurrences_compound, occurrences_compound, List.map_map]
      exact congrArg List.sum (List.map_congr_left ih)

end Term

/-- Equations with wildcards, and the same with a variable of its own for each. -/
structure Refreshes (fresh : Finset Var) (es full : List Equation) : Prop where
  erased : es = full.map fun e => (e.1.erase fresh, e.2.erase fresh)
  plain : ∀ e ∈ full, e.1.WildcardFree ∧ e.2.WildcardFree
  own : ∀ v ∈ fresh, occurrencesIn v full ≤ 1

namespace Equation.Solvable

variable {fresh : Finset Var} {t u : Term} {ds es : List Equation}

/-- Equations are added one by one to solvable ones. -/
theorem append (solvable : Solvable es) (own : ∀ v ∈ fresh, occurrencesIn v (ds ++ es) ≤ 1)
    (each : ∀ e ∈ ds, ∀ {rest}, Solvable rest →
      (∀ v ∈ fresh, occurrencesIn v (e :: rest) ≤ 1) → Solvable (e :: rest)) :
    Solvable (ds ++ es) := by
  induction ds with
  | nil => exact solvable
  | cons e ds ih =>
      rw [List.forall_mem_cons] at each
      refine each.1 (ih ?_ each.2) own
      intro v member
      have := own v member
      rw [List.cons_append, occurrencesIn_cons] at this
      omega

/-- Terms that differ in places of their own are equal for some choice in these places. -/
theorem of_erase_eq (solvable : Solvable es) (same : t.erase fresh = u.erase fresh)
    (left : t.WildcardFree) (right : u.WildcardFree)
    (own : ∀ v ∈ fresh, occurrencesIn v ((t, u) :: es) ≤ 1) : Solvable ((t, u) :: es) := by
  induction t using Term.rec_args generalizing u es with
  | var v =>
      by_cases member : v ∈ fresh
      · exact solvable.once (own v member)
      · rw [Term.erase_of_notMem member] at same
        obtain ⟨rfl, _⟩ := Term.eq_of_erase_eq_var left.named same.symm
        exact solvable.self _
  | atom a =>
      cases u with
      | var v =>
          by_cases member : v ∈ fresh
          · rw [Term.erase_of_mem member] at same
            cases same
          · rw [Term.erase_of_notMem member] at same
            cases same
      | atom b =>
          cases same
          exact solvable.self _
      | compound f args => simp at same
  | compound f args ih =>
      rw [Term.erase_compound] at same
      obtain ⟨others, rfl, sameArgs⟩ := Term.exists_of_erase_eq_compound same.symm
      have lengths : args.length = others.length := by
        simpa using congrArg List.length sameArgs
      rw [← List.forall₂_eq_eq_eq, List.forall₂_map_left_iff, List.forall₂_map_right_iff]
        at sameArgs
      simp only [occurrencesIn_cons, Term.occurrences_compound, ← occurrencesIn_zip lengths,
        ← occurrencesIn_append] at own
      apply Solvable.compound lengths
      apply solvable.append own
      rintro ⟨x, y⟩ among rest solvableRest few
      obtain ⟨inLeft, inRight⟩ := List.of_mem_zip among
      exact ih x inLeft solvableRest (List.forall₂_zip sameArgs among) (left.arg inLeft)
        (right.arg inRight) few

end Equation.Solvable

end RelationalSolver
