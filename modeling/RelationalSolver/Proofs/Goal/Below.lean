import RelationalSolver.Proofs.Goal.Renumbering
import RelationalSolver.Proofs.Relation.Table

/-!
# Goals over variables below a limit

What is written down before a run mentions variables that exist already.  Their numbers lie
below a limit, and a renumbering that leaves these alone leaves the text alone.
-/

namespace RelationalSolver

/-! ## Terms -/

/-- The variable exists if numbers below the limit are given away. -/
def Var.Below (limit : ℕ) : Var → Prop
  | .numbered ordinal => ordinal < limit
  | _ => True

instance (limit : ℕ) : DecidablePred (Var.Below limit)
  | .wildcard => .isTrue trivial
  | .numbered ordinal => inferInstanceAs (Decidable (ordinal < limit))
  | .named _ => .isTrue trivial

/-- The variables of the term exist if numbers below the limit are given away. -/
def Term.Below (limit : ℕ) (t : Term) : Prop := ∀ v ∈ t.vars, v.Below limit

instance (limit : ℕ) : DecidablePred (Term.Below limit) :=
  fun t => inferInstanceAs (Decidable (∀ v ∈ t.vars, v.Below limit))

/-- A ground term is below every limit. -/
theorem Term.below_of_isGround {t : Term} (ground : t.isGround = true) (limit : ℕ) :
    t.Below limit := by
  intro v member
  rw [mem_vars, isGround_iff.mp ground v] at member
  exact absurd member.1 Bool.false_ne_true

/-! ## Relations, goals and constraints -/

/-- The variables of all rows are below the limit. -/
def RowSupply.Below (limit : ℕ) : RowSupply → Prop
  | .listed rows => ∀ row ∈ rows, ∀ t ∈ row, t.Below limit
  | .endless row _ => ∀ number, ∀ t ∈ row number, t.Below limit

/-- The variables of all rows and of all known values of columns are below the limit. -/
structure FactSource.Below (limit : ℕ) (source : FactSource) : Prop where
  rows : ∀ pattern, (source.rows pattern).Below limit
  columns : ∀ column values, source.columnValues column = some values →
    ∀ t, values.contains t = true → t.Below limit

/-- A table has no variables. -/
theorem FactTable.WellFormed.below {facts : FactTable} (wellFormed : facts.WellFormed)
    (limit : ℕ) : (FactSource.table facts).Below limit where
  rows pattern row member t inside := by
    rw [wellFormed.matching_eq] at member
    exact Term.below_of_isGround
      (wellFormed.ground row (List.mem_of_mem_filter member) t inside) limit
  columns column values known t contained := by
    obtain ⟨index, found, rfl⟩ := Option.map_eq_some_iff.mp known
    obtain ⟨row, member, stands⟩ := (wellFormed.valued column index t found).mp contained
    exact Term.below_of_isGround
      (wellFormed.ground row member t (List.mem_of_getElem? stands)) limit

mutual

/-- The variables of the goal are below the limit, also in parts that only run later. -/
def Goal.Below (limit : ℕ) : Goal → Prop
  | .succeed | .fail | .abort _ | .yieldThenAbort _ => True
  | .equal a b => a.Below limit ∧ b.Below limit
  | .constrain c => c.Below limit
  | .conj goals constraints => Goal.AllBelow limit goals ∧ Constraint.AllBelow limit constraints
  | .disj goals constraints => Goal.AllBelow limit goals ∧ Constraint.AllBelow limit constraints
  | .fresh _ body => body.Below limit
  | .delay body => body.Below limit
  | .call _ args => ∀ t ∈ args, t.Below limit
  | .relation a => (∀ t ∈ a.args, t.Below limit) ∧ a.relation.source.Below limit

/-- The variables of all goals are below the limit. -/
def Goal.AllBelow (limit : ℕ) : List Goal → Prop
  | [] => True
  | g :: goals => g.Below limit ∧ Goal.AllBelow limit goals

/-- The variables of the constraint are below the limit. -/
def Constraint.Below (limit : ℕ) : Constraint → Prop
  | .neq a b => a.Below limit ∧ b.Below limit
  | .distinct items => ∀ t ∈ items, t.Below limit
  | .notIn e => e.subject.Below limit ∧ ∀ t ∈ e.members, t.Below limit
  | .inDomain v domain => v.Below limit ∧ ∀ t, domain.contains t = true → t.Below limit
  | .cardinality factors => Goal.AllBelow limit factors

/-- The variables of all constraints are below the limit. -/
def Constraint.AllBelow (limit : ℕ) : List Constraint → Prop
  | [] => True
  | c :: constraints => c.Below limit ∧ Constraint.AllBelow limit constraints

end

/-- The variables of all bodies are below the limit. -/
def Definitions.Below (limit : ℕ) (definitions : Definitions) : Prop :=
  ∀ entry ∈ definitions, entry.2.body.Below limit

/-! ## What a renumbering leaves alone -/

variable {limit : ℕ} {ρ : ℕ ↪o ℕ}

section Kept

variable (kept : ∀ ordinal < limit, ρ ordinal = ordinal)
include kept

theorem Var.Below.renumber_eq {v : Var} (below : v.Below limit) : v.renumber ρ = v := by
  cases v with
  | numbered ordinal => exact congrArg numbered (kept ordinal below)
  | _ => rfl

theorem Term.Below.renumber_eq {t : Term} (below : t.Below limit) : t.renumber ρ = t := by
  refine (mapVars_congr fun v mentioned => ?_).trans (mapVars_id t)
  by_cases anonymous : v = .wildcard
  · rw [anonymous, Var.renumber_wildcard]
  · exact congrArg var (Var.Below.renumber_eq kept (below v (mem_vars.mpr ⟨mentioned, anonymous⟩)))

theorem Term.map_renumber_eq {ts : List Term} (below : ∀ t ∈ ts, t.Below limit) :
    ts.map (·.renumber ρ) = ts :=
  (List.map_congr_left fun t member => Term.Below.renumber_eq kept (below t member)).trans
    (List.map_id' ts)

theorem FactSource.Below.fixed {source : FactSource} (below : source.Below limit) :
    source.Fixed ρ where
  rows pattern := by
    have rows := below.rows pattern
    cases supply : source.rows pattern with
    | listed listed =>
        rw [supply] at rows
        exact fun row member t inside => Term.Below.renumber_eq kept (rows row member t inside)
    | endless row first =>
        rw [supply] at rows
        exact fun number t inside => Term.Below.renumber_eq kept (rows number t inside)
  columns column values known t contained :=
    Term.Below.renumber_eq kept (below.columns column values known t contained)

end Kept

mutual

theorem Goal.Below.renumbers (kept : ∀ ordinal < limit, ρ ordinal = ordinal) :
    ∀ {g : Goal}, g.Below limit → g.Renumbers ρ g
  | .succeed, _ => .succeed
  | .fail, _ => .fail
  | .equal a b, ⟨left, right⟩ => by
      have same : Goal.Renumbers ρ _ _ := .equal a b
      rwa [Term.Below.renumber_eq kept left, Term.Below.renumber_eq kept right] at same
  | .constrain _, below => .constrain (Constraint.Below.renumbers kept below)
  | .conj _ _, ⟨goals, constraints⟩ =>
      .conj (Goal.AllBelow.renumbers kept goals) (Constraint.AllBelow.renumbers kept constraints)
  | .disj _ _, ⟨goals, constraints⟩ =>
      .disj (Goal.AllBelow.renumbers kept goals) (Constraint.AllBelow.renumbers kept constraints)
  | .fresh names _, below => .fresh names (Goal.Below.renumbers kept below)
  | .delay _, below => .delay (Goal.Below.renumbers kept below)
  | .call name args, below => by
      have same : Goal.Renumbers ρ _ _ := .call name args
      rwa [Term.map_renumber_eq kept below] at same
  | .relation _, ⟨args, source⟩ =>
      .relation ⟨rfl, (Term.map_renumber_eq kept args).symm, rfl, source.fixed kept⟩
  | .abort fault, _ => .abort fault
  | .yieldThenAbort fault, _ => .yieldThenAbort fault

theorem Goal.AllBelow.renumbers (kept : ∀ ordinal < limit, ρ ordinal = ordinal) :
    ∀ {goals : List Goal}, Goal.AllBelow limit goals →
      List.Forall₂ (Goal.Renumbers ρ) goals goals
  | [], _ => .nil
  | _ :: _, ⟨here, there⟩ =>
      .cons (Goal.Below.renumbers kept here) (Goal.AllBelow.renumbers kept there)

theorem Constraint.Below.renumbers (kept : ∀ ordinal < limit, ρ ordinal = ordinal) :
    ∀ {c : Constraint}, c.Below limit → c.Renumbers ρ c
  | .neq a b, ⟨left, right⟩ => by
      have same : Constraint.Renumbers ρ _ _ := .neq a b
      rwa [Term.Below.renumber_eq kept left, Term.Below.renumber_eq kept right] at same
  | .distinct items, below => by
      have same : Constraint.Renumbers ρ _ _ := .distinct items
      rwa [Term.map_renumber_eq kept below] at same
  | .notIn e, ⟨subject, members⟩ => by
      have same : Constraint.Renumbers ρ _ _ := .notIn e
      rwa [Exclusion.renumber, Term.Below.renumber_eq kept subject,
        Term.map_renumber_eq kept members] at same
  | .inDomain v domain, ⟨below, members⟩ => by
      have listed : domain.Renumbers ρ domain := TermSet.renumbers_self fun t contained =>
        Term.Below.renumber_eq kept (members t contained)
      have same := Constraint.Renumbers.inDomain v listed
      rwa [Var.Below.renumber_eq kept below] at same
  | .cardinality _, below => .cardinality (Goal.AllBelow.renumbers kept below)

theorem Constraint.AllBelow.renumbers (kept : ∀ ordinal < limit, ρ ordinal = ordinal) :
    ∀ {constraints : List Constraint}, Constraint.AllBelow limit constraints →
      List.Forall₂ (Constraint.Renumbers ρ) constraints constraints
  | [], _ => .nil
  | _ :: _, ⟨here, there⟩ =>
      .cons (Constraint.Below.renumbers kept here) (Constraint.AllBelow.renumbers kept there)

end

theorem Definitions.Below.renumbers (kept : ∀ ordinal < limit, ρ ordinal = ordinal)
    {definitions : Definitions} (below : definitions.Below limit) :
    definitions.Renumbers ρ definitions := by
  intro name
  cases found : definitions.lookup name with
  | none => exact .none
  | some definition =>
      obtain ⟨before, after, entries, _⟩ := List.lookup_eq_some_iff.mp found
      have member : (name, definition) ∈ definitions := by simp [entries]
      exact .some ⟨rfl, Goal.Below.renumbers kept (below _ member)⟩

end RelationalSolver
