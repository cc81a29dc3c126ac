import RelationalSolver.Proofs.Term.Variables
import RelationalSolver.Goal.Basic

/-!
# What constraints mean

A constraint on terms is a condition on assignments, and depends only on the
variables that it reports.  A cardinality constraint asks that no sized factor
excludes the assignment; it is a guard, which prunes branches and decides
nothing about those that are left.
-/

namespace RelationalSolver

/-- The row that the arguments become is among those that the source lists, if it
lists them. -/
def Application.Admits (a : Application) (θ : Assignment) : Prop :=
  match a.relation.source.listing with
  | some rows => a.args.map (·.mapVars θ) ∈ rows
  | none => True

theorem Application.admits_iff {a : Application} {facts : FactTable} {θ : Assignment}
    (source : a.relation.source = .table facts) :
    a.Admits θ ↔ a.args.map (·.mapVars θ) ∈ facts.rows.toList := by
  rw [Admits, source, FactSource.listing_table]

namespace Goal

mutual

/-- The equations and tables of the goal do not exclude the assignment.  Nothing
is said about constraints and suspended bodies. -/
def Admits (θ : Assignment) : Goal → Prop
  | .fail => False
  | .equal a b => a.mapVars θ = b.mapVars θ
  | .conj goals _ => AllAdmit θ goals
  | .disj goals _ => SomeAdmits θ goals
  | .relation a => a.Admits θ
  | _ => True

/-- No goal of the list excludes the assignment. -/
def AllAdmit (θ : Assignment) : List Goal → Prop
  | [] => True
  | g :: gs => g.Admits θ ∧ AllAdmit θ gs

/-- Some goal of the list does not exclude the assignment. -/
def SomeAdmits (θ : Assignment) : List Goal → Prop
  | [] => False
  | g :: gs => g.Admits θ ∨ SomeAdmits θ gs

end

@[simp] theorem allAdmit_iff {θ : Assignment} {goals : List Goal} :
    AllAdmit θ goals ↔ ∀ g ∈ goals, g.Admits θ := by
  induction goals with
  | nil => simp [AllAdmit]
  | cons g goals ih => simp [AllAdmit, ih]

@[simp] theorem someAdmits_iff {θ : Assignment} {goals : List Goal} :
    SomeAdmits θ goals ↔ ∃ g ∈ goals, g.Admits θ := by
  induction goals with
  | nil => simp [SomeAdmits]
  | cons g goals ih => simp [SomeAdmits, ih]

end Goal

namespace Constraint

variable {θ η : Assignment} {c : Constraint}

/-- The condition holds under the assignment. -/
def Holds (θ : Assignment) : Constraint → Prop
  | .neq a b => a.mapVars θ ≠ b.mapVars θ
  | .distinct items => (items.map (·.mapVars θ)).Nodup
  | .notIn e => ∀ t ∈ e.members, e.subject.mapVars θ ≠ t.mapVars θ
  | .inDomain v domain => domain.contains (θ v) = true
  | .cardinality factors => ∀ g ∈ factors, g.isSized = true → g.Admits θ

/-- The constraint only prunes. -/
def isGuard : Constraint → Bool
  | .cardinality _ => true
  | _ => false

/-- A constraint on wildcard-free terms; the members of a domain are ground. -/
def Proper : Constraint → Prop
  | .neq a b => a.WildcardFree ∧ b.WildcardFree
  | .distinct items => ∀ t ∈ items, t.WildcardFree
  | .notIn e => e.subject.WildcardFree ∧ ∀ t ∈ e.members, t.WildcardFree
  | .inDomain v domain => v ≠ .wildcard ∧ ∀ t, domain.contains t = true → t.isGround = true
  | .cardinality _ => False

theorem Proper.isGuard_eq (proper : c.Proper) : c.isGuard = false := by
  cases c with
  | cardinality factors => exact proper.elim
  | _ => rfl

/-- A guard must hold throughout a set of assignments, another constraint
somewhere in it. -/
def Permits (c : Constraint) (Θ : Set Assignment) : Prop :=
  if c.isGuard = true then ∀ θ ∈ Θ, c.Holds θ else ∃ θ ∈ Θ, c.Holds θ

theorem permits_of_not_guard {Θ : Set Assignment} (plain : c.isGuard = false) :
    c.Permits Θ ↔ ∃ θ ∈ Θ, c.Holds θ := by
  simp [Permits, plain]

theorem ne_wildcard_of_mem_vars (proper : c.Proper) {v : Var} (member : v ∈ c.vars) :
    v ≠ .wildcard := by
  cases c with
  | cardinality factors => exact proper.elim
  | inDomain w domain =>
      simp only [vars, Goal.constraintVars, List.mem_singleton] at member
      exact member ▸ proper.1
  | _ =>
      simp only [vars, Goal.constraintVars, mem_varsOf] at member
      exact member.2

theorem mapVars_congr_of_varsOf {ts : List Term} (agree : ∀ v ∈ varsOf ts, θ v = η v) {t : Term}
    (member : t ∈ ts) (free : t.WildcardFree) : t.mapVars θ = t.mapVars η := by
  apply Term.mapVars_congr
  intro v inside
  apply agree
  rw [mem_varsOf]
  refine ⟨⟨t, member, inside⟩, ?_⟩
  rintro rfl
  rw [Term.WildcardFree, inside] at free
  contradiction

/-- A constraint depends only on the variables that it reports. -/
theorem holds_congr (proper : c.Proper) (agree : ∀ v ∈ c.vars, θ v = η v) :
    c.Holds θ ↔ c.Holds η := by
  cases c with
  | neq a b =>
      have left := mapVars_congr_of_varsOf agree (t := a) (by simp) proper.1
      have right := mapVars_congr_of_varsOf agree (t := b) (by simp) proper.2
      simp only [Holds, left, right]
  | distinct items =>
      have each : items.map (·.mapVars θ) = items.map (·.mapVars η) :=
        List.map_congr_left fun t member => mapVars_congr_of_varsOf agree member (proper t member)
      simp only [Holds, each]
  | notIn e =>
      have subject := mapVars_congr_of_varsOf agree (t := e.subject) (by simp) proper.1
      have each : ∀ t ∈ e.members, t.mapVars θ = t.mapVars η := fun t member =>
        mapVars_congr_of_varsOf agree (List.mem_cons_of_mem _ member) (proper.2 t member)
      simp only [Holds, subject]
      constructor
      · intro holds t member
        rw [← each t member]
        exact holds t member
      · intro holds t member
        rw [each t member]
        exact holds t member
  | inDomain v domain =>
      have value : θ v = η v := agree v (by simp [vars, Goal.constraintVars])
      simp only [Holds, value]
  | cardinality factors => exact proper.elim

end Constraint

end RelationalSolver
