import Mathlib.Algebra.BigOperators.Ring.List
import Mathlib.Tactic.Ring
import RelationalSolver.Proofs.Substitution.Descent

/-!
# Equations and the variables in them

How often a variable occurs in terms and in lists of equations, and what becomes of the
count when one variable is replaced.  Lists of equations are solved by replacing a
variable by the other side of its equation.
-/

namespace RelationalSolver

namespace Term

variable {t u : Term} {v w : Var}

/-- How often a variable occurs in a term. -/
def occurrences (v : Var) (t : Term) : Nat := t.subterms.count (.var v)

theorem occurrences_var : (var w).occurrences v = if w = v then 1 else 0 := by
  simp [occurrences, subterms, List.count_singleton]

@[simp] theorem occurrences_atom {a : Atom} : (atom a).occurrences v = 0 := by
  simp [occurrences, subterms]

@[simp] theorem occurrences_compound {f : String} {args : List Term} :
    (compound f args).occurrences v = (args.map (·.occurrences v)).sum := by
  have among : (allSubterms args).count (.var v) = (args.map (·.occurrences v)).sum := by
    induction args with
    | nil => rfl
    | cons t ts ih => simp [allSubterms, ih, occurrences]
  simp [occurrences, subterms, among]

theorem occurrences_eq_zero : t.occurrences v = 0 ↔ t.mentions v = false := by
  induction t using rec_args with
  | var w => simp [occurrences_var, mentions]
  | atom a => simp
  | compound f args ih =>
      simp only [occurrences_compound, List.sum_eq_zero_iff, List.mem_map,
        forall_exists_index, and_imp, forall_apply_eq_imp_iff₂, ← Bool.not_eq_true,
        mentions_compound, not_exists, not_and]
      exact forall₂_congr fun t member => by rw [ih t member, Bool.not_eq_true]

/-- The map that replaces one variable. -/
def only (v : Var) (u : Term) : Assignment := Function.update .var v u

@[simp] theorem only_self : only v u v = u := Function.update_self ..

theorem only_of_ne (different : w ≠ v) : only v u w = .var w := Function.update_of_ne different ..

theorem mapVars_only_of_not_mentions (absent : t.mentions v = false) :
    t.mapVars (only v u) = t := by
  refine (mapVars_congr ?_).trans (mapVars_id t)
  rintro w inside
  apply only_of_ne
  rintro rfl
  rw [absent] at inside
  cases inside

/-- Every place of the replaced variable brings the occurrences of its term. -/
theorem occurrences_mapVars_only (different : w ≠ v) :
    (t.mapVars (only v u)).occurrences w =
      t.occurrences w + t.occurrences v * u.occurrences w := by
  induction t using rec_args with
  | var x =>
      by_cases same : x = v
      · subst same
        simp [occurrences_var, Ne.symm different]
      · simp [only_of_ne same, occurrences_var, same]
  | atom a => simp
  | compound f args ih =>
      simp only [mapVars_compound, occurrences_compound, List.map_map]
      rw [← List.sum_map_mul_right, ← List.sum_map_add]
      exact congrArg List.sum (List.map_congr_left ih)

theorem occurrences_mapVars_only_self (absent : u.mentions v = false) :
    (t.mapVars (only v u)).occurrences v = 0 := by
  rw [occurrences_eq_zero, ← Bool.not_eq_true, mentions_mapVars]
  rintro ⟨w, _, inside⟩
  by_cases same : w = v
  · subst same
    rw [only_self, absent] at inside
    cases inside
  · rw [only_of_ne same, mentions_var] at inside
    exact same inside

end Term

/-- Two terms that are to be made equal. -/
abbrev Equation := Term × Term

namespace Equation

open Term

variable {t u : Term} {v w : Var} {e : Equation} {es : List Equation} {θ : Assignment}

/-- Put a term in the place of every variable. -/
def mapVars (image : Assignment) (e : Equation) : Equation :=
  (e.1.mapVars image, e.2.mapVars image)

/-- How often a variable occurs in an equation. -/
def occurrences (v : Var) (e : Equation) : Nat := e.1.occurrences v + e.2.occurrences v

/-- How often a variable occurs in a list of equations. -/
def occurrencesIn (v : Var) (es : List Equation) : Nat := (es.map (occurrences v)).sum

@[simp] theorem occurrencesIn_nil : occurrencesIn v [] = 0 := rfl

@[simp] theorem occurrencesIn_cons :
    occurrencesIn v (e :: es) = e.1.occurrences v + e.2.occurrences v + occurrencesIn v es := rfl

@[simp] theorem occurrencesIn_append {others : List Equation} :
    occurrencesIn v (es ++ others) = occurrencesIn v es + occurrencesIn v others := by
  simp [occurrencesIn]

/-- The arguments of two compounds are equated one by one. -/
theorem occurrencesIn_zip {as bs : List Term} (lengths : as.length = bs.length) :
    occurrencesIn v (as.zip bs) =
      (as.map (Term.occurrences v)).sum + (bs.map (Term.occurrences v)).sum := by
  induction as generalizing bs with
  | nil =>
      cases bs with
      | nil => rfl
      | cons b bs => cases lengths
  | cons a as ih =>
      cases bs with
      | nil => cases lengths
      | cons b bs =>
          simp only [List.zip_cons_cons, occurrencesIn_cons, List.map_cons, List.sum_cons]
          rw [ih (by simpa using lengths)]
          omega

theorem occurrencesIn_mapVars_only (different : w ≠ v) :
    occurrencesIn w (es.map (mapVars (only v u))) =
      occurrencesIn w es + occurrencesIn v es * u.occurrences w := by
  induction es with
  | nil => simp
  | cons e es ih =>
      simp only [List.map_cons, occurrencesIn_cons, ih, mapVars,
        occurrences_mapVars_only different]
      ring

theorem occurrencesIn_mapVars_only_self (absent : u.mentions v = false) :
    occurrencesIn v (es.map (mapVars (only v u))) = 0 := by
  induction es with
  | nil => rfl
  | cons e es ih =>
      simp [ih, mapVars, occurrences_mapVars_only_self absent]

theorem map_mapVars_only_of_absent (absent : occurrencesIn v es = 0) :
    es.map (mapVars (only v u)) = es := by
  induction es with
  | nil => rfl
  | cons e es ih =>
      rw [occurrencesIn_cons] at absent
      have left : e.1.mentions v = false := occurrences_eq_zero.mp (by omega)
      have right : e.2.mentions v = false := occurrences_eq_zero.mp (by omega)
      rw [List.map_cons, ih (by omega), mapVars, mapVars_only_of_not_mentions left,
        mapVars_only_of_not_mentions right]

/-! ## Solutions of equations -/

/-- The assignment makes both sides of every equation equal. -/
def Solves (θ : Assignment) (es : List Equation) : Prop :=
  ∀ e ∈ es, e.1.mapVars θ = e.2.mapVars θ

/-- Some assignment solves all the equations. -/
def Solvable (es : List Equation) : Prop := ∃ θ, Solves θ es

theorem solves_cons :
    Solves θ ((t, u) :: es) ↔ t.mapVars θ = u.mapVars θ ∧ Solves θ es := by
  simp [Solves]

theorem solvable_nil : Solvable [] := ⟨.var, by simp [Solves]⟩

theorem Solvable.swap (solvable : Solvable ((t, u) :: es)) : Solvable ((u, t) :: es) := by
  obtain ⟨θ, solves⟩ := solvable
  rw [solves_cons] at solves
  exact ⟨θ, solves_cons.mpr ⟨solves.1.symm, solves.2⟩⟩

/-- An equation of a term with itself says nothing. -/
theorem Solvable.self (solvable : Solvable es) (t : Term) : Solvable ((t, t) :: es) := by
  obtain ⟨θ, solves⟩ := solvable
  exact ⟨θ, solves_cons.mpr ⟨rfl, solves⟩⟩

/-- A variable is replaced by the other side of its equation. -/
theorem Solvable.eliminate (absent : u.mentions v = false)
    (solvable : Solvable (es.map (mapVars (only v u)))) : Solvable ((.var v, u) :: es) := by
  obtain ⟨θ, solves⟩ := solvable
  refine ⟨fun x => (only v u x).mapVars θ, solves_cons.mpr ⟨?_, ?_⟩⟩
  · rw [← mapVars_mapVars, ← mapVars_mapVars, mapVars_only_of_not_mentions absent,
      mapVars_var, only_self]
  · intro e member
    rw [← mapVars_mapVars, ← mapVars_mapVars]
    exact solves _ (List.mem_map_of_mem member)

/-- A variable that occurs nowhere else takes what it is equated with. -/
theorem Solvable.once (solvable : Solvable es)
    (few : occurrencesIn v ((.var v, u) :: es) ≤ 1) : Solvable ((.var v, u) :: es) := by
  simp only [occurrencesIn_cons, occurrences_var, if_true] at few
  apply Solvable.eliminate (occurrences_eq_zero.mp (by omega))
  rwa [map_mapVars_only_of_absent (by omega)]

/-- Compounds are equal if their arguments are. -/
theorem Solvable.compound {f : String} {as bs : List Term} (lengths : as.length = bs.length)
    (solvable : Solvable (as.zip bs ++ es)) :
    Solvable ((.compound f as, .compound f bs) :: es) := by
  obtain ⟨θ, solves⟩ := solvable
  refine ⟨θ, solves_cons.mpr ⟨?_, fun e member => solves e (List.mem_append_right _ member)⟩⟩
  rw [mapVars_compound, mapVars_compound]
  congr 1
  apply List.ext_getElem (by simpa using lengths)
  intro i inLeft inRight
  simp only [List.length_map] at inLeft inRight
  rw [List.getElem_map, List.getElem_map]
  apply solves (as[i], bs[i])
  apply List.mem_append_left
  rw [← List.getElem_zip (h := by simp; omega)]
  exact List.getElem_mem _

end Equation

end RelationalSolver
