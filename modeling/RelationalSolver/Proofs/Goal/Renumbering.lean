import RelationalSolver.Goal.Instance
import RelationalSolver.Proofs.Unification.Renumbering

/-!
# Goals under other numbers

A goal is about the same under other numbers: the terms in its text are over variables under
other numbers, and its relations are the same.  What is found out about it without running it
is the same too, and filling in its text commutes with the renumbering.
-/

namespace RelationalSolver

/-! ## Relations -/

/-- The renumbering leaves every row alone. -/
def RowSupply.Fixed (ρ : ℕ → ℕ) : RowSupply → Prop
  | .listed rows => ∀ row ∈ rows, ∀ t ∈ row, t.renumber ρ = t
  | .endless row _ => ∀ number, ∀ t ∈ row number, t.renumber ρ = t

/-- The renumbering leaves all rows and all known values of columns alone. -/
structure FactSource.Fixed (ρ : ℕ → ℕ) (source : FactSource) : Prop where
  rows : ∀ pattern, (source.rows pattern).Fixed ρ
  columns : ∀ column values, source.columnValues column = some values →
    ∀ t, values.contains t = true → t.renumber ρ = t

/-- The same relation is applied to the arguments under other numbers. -/
structure Application.Renumbers (ρ : ℕ → ℕ) (a other : Application) : Prop where
  relation : other.relation = a.relation
  args : other.args = a.args.map (·.renumber ρ)
  order : other.order = a.order
  fixed : a.relation.source.Fixed ρ

namespace Application.Renumbers

variable {ρ : ℕ ↪o ℕ} {a aOther : Application} {s other : Substitution}

theorem check (same : a.Renumbers ρ aOther) : aOther.check = a.check := by
  unfold Application.check
  rw [same.relation, same.args, List.length_map]

theorem withOrder (same : a.Renumbers ρ aOther) (order : RowOrder) :
    (a.withOrder order).Renumbers ρ (aOther.withOrder order) :=
  ⟨same.relation, same.args, rfl, same.fixed⟩

section Reading

variable (same : a.Renumbers ρ aOther) (renumbers : s.Renumbers ρ other)
include same renumbers

/-- Arguments that are ground hold no variables, so the same is asked for. -/
theorem pattern : aOther.pattern other = a.pattern s := by
  unfold Application.pattern
  rw [same.args, List.map_map]
  apply List.map_congr_left
  intro arg _
  simp only [Function.comp_apply, renumbers.resolve, Term.isGround_renumber]
  split
  · rename_i ground
    rw [Term.renumber_of_isGround ρ ground]
  · rfl

theorem bound : aOther.bound other = a.bound s := by
  unfold Application.bound
  rw [same.relation, same.pattern renumbers]

theorem columnsOf (v : Var) : aOther.columnsOf (v.renumber ρ) other = a.columnsOf v s := by
  unfold Application.columnsOf
  rw [same.args, List.zipIdx_map, List.filter_map, List.map_map]
  congr 1
  apply List.filter_congr
  intro entry _
  simp only [Function.comp_apply, Prod.map_fst, renumbers.walk, ← Term.renumber_var,
    Term.renumber_inj]

end Reading

end Application.Renumbers

/-! ## Goals and constraints -/

/-- The same exclusion over variables under other numbers. -/
def Exclusion.renumber (ρ : ℕ → ℕ) (e : Exclusion) : Exclusion :=
  ⟨e.subject.renumber ρ, e.members.map (·.renumber ρ)⟩

mutual

/-- The goals are the same but for the numbers of variables. -/
inductive Goal.Renumbers (ρ : ℕ → ℕ) : Goal → Goal → Prop
  | succeed : Goal.Renumbers ρ .succeed .succeed
  | fail : Goal.Renumbers ρ .fail .fail
  | equal (a b : Term) : Goal.Renumbers ρ (.equal a b) (.equal (a.renumber ρ) (b.renumber ρ))
  | constrain {c other : Constraint} : Constraint.Renumbers ρ c other →
      Goal.Renumbers ρ (.constrain c) (.constrain other)
  | conj {goals others : List Goal} {constraints held : List Constraint} :
      List.Forall₂ (Goal.Renumbers ρ) goals others →
      List.Forall₂ (Constraint.Renumbers ρ) constraints held →
      Goal.Renumbers ρ (.conj goals constraints) (.conj others held)
  | disj {goals others : List Goal} {constraints held : List Constraint} :
      List.Forall₂ (Goal.Renumbers ρ) goals others →
      List.Forall₂ (Constraint.Renumbers ρ) constraints held →
      Goal.Renumbers ρ (.disj goals constraints) (.disj others held)
  | fresh (names : List String) {body other : Goal} : Goal.Renumbers ρ body other →
      Goal.Renumbers ρ (.fresh names body) (.fresh names other)
  | delay {body other : Goal} : Goal.Renumbers ρ body other →
      Goal.Renumbers ρ (.delay body) (.delay other)
  | call (name : String) (args : List Term) :
      Goal.Renumbers ρ (.call name args) (.call name (args.map (·.renumber ρ)))
  | relation {a other : Application} : a.Renumbers ρ other →
      Goal.Renumbers ρ (.relation a) (.relation other)
  | abort (fault : Fault) : Goal.Renumbers ρ (.abort fault) (.abort fault)
  | yieldThenAbort (fault : Fault) :
      Goal.Renumbers ρ (.yieldThenAbort fault) (.yieldThenAbort fault)

/-- The constraints are the same but for the numbers of variables. -/
inductive Constraint.Renumbers (ρ : ℕ → ℕ) : Constraint → Constraint → Prop
  | neq (a b : Term) : Constraint.Renumbers ρ (.neq a b) (.neq (a.renumber ρ) (b.renumber ρ))
  | distinct (items : List Term) :
      Constraint.Renumbers ρ (.distinct items) (.distinct (items.map (·.renumber ρ)))
  | notIn (e : Exclusion) : Constraint.Renumbers ρ (.notIn e) (.notIn (e.renumber ρ))
  | inDomain (v : Var) {domain other : TermSet} : domain.Renumbers ρ other →
      Constraint.Renumbers ρ (.inDomain v domain) (.inDomain (v.renumber ρ) other)
  | cardinality {factors others : List Goal} : List.Forall₂ (Goal.Renumbers ρ) factors others →
      Constraint.Renumbers ρ (.cardinality factors) (.cardinality others)

end

/-! A renumbering can be taken back. -/

section Back

variable {ρ τ : ℕ → ℕ} (inverse : ∀ ordinal, τ (ρ ordinal) = ordinal)
include inverse

theorem FactSource.Fixed.symm {source : FactSource} (fixed : source.Fixed ρ) :
    source.Fixed τ := by
  have still : ∀ t : Term, t.renumber ρ = t → t.renumber τ = t := by
    intro t same
    rw [← congrArg (·.renumber τ) same]
    exact Term.renumber_cancel inverse t
  refine ⟨fun pattern => ?_, fun column values known t contained =>
    still t (fixed.columns column values known t contained)⟩
  have rows := fixed.rows pattern
  cases supply : source.rows pattern with
  | listed listed =>
      rw [supply] at rows
      exact fun row member t inside => still t (rows row member t inside)
  | endless row first =>
      rw [supply] at rows
      exact fun number t inside => still t (rows number t inside)

theorem Application.Renumbers.symm {a aOther : Application} (same : a.Renumbers ρ aOther) :
    aOther.Renumbers τ a where
  relation := same.relation.symm
  args := by rw [same.args, Term.map_renumber_cancel inverse]
  order := same.order.symm
  fixed := same.relation ▸ same.fixed.symm inverse

end Back

mutual

theorem Goal.Renumbers.symm {ρ τ : ℕ → ℕ} (inverse : ∀ ordinal, τ (ρ ordinal) = ordinal) :
    ∀ {g other : Goal}, g.Renumbers ρ other → other.Renumbers τ g
  | _, _, .succeed => .succeed
  | _, _, .fail => .fail
  | _, _, .equal a b => by
      have same : Goal.Renumbers τ _ _ := .equal (a.renumber ρ) (b.renumber ρ)
      rwa [Term.renumber_cancel inverse, Term.renumber_cancel inverse] at same
  | _, _, .constrain held => .constrain (Constraint.Renumbers.symm inverse held)
  | _, _, .conj goals constraints =>
      .conj (goals_symm inverse goals) (constraints_symm inverse constraints)
  | _, _, .disj goals constraints =>
      .disj (goals_symm inverse goals) (constraints_symm inverse constraints)
  | _, _, .fresh names body => .fresh names (Goal.Renumbers.symm inverse body)
  | _, _, .delay body => .delay (Goal.Renumbers.symm inverse body)
  | _, _, .call name args => by
      have same : Goal.Renumbers τ _ _ := .call name (args.map (·.renumber ρ))
      rwa [Term.map_renumber_cancel inverse] at same
  | _, _, .relation applied => .relation (applied.symm inverse)
  | _, _, .abort fault => .abort fault
  | _, _, .yieldThenAbort fault => .yieldThenAbort fault
termination_by structural g => g

theorem goals_symm {ρ τ : ℕ → ℕ} (inverse : ∀ ordinal, τ (ρ ordinal) = ordinal) :
    ∀ {goals others : List Goal}, List.Forall₂ (Goal.Renumbers ρ) goals others →
      List.Forall₂ (Goal.Renumbers τ) others goals
  | _, _, .nil => .nil
  | _, _, .cons here there => .cons (Goal.Renumbers.symm inverse here) (goals_symm inverse there)
termination_by structural goals => goals

theorem Constraint.Renumbers.symm {ρ τ : ℕ → ℕ} (inverse : ∀ ordinal, τ (ρ ordinal) = ordinal) :
    ∀ {c other : Constraint}, c.Renumbers ρ other → other.Renumbers τ c
  | _, _, .neq a b => by
      have same : Constraint.Renumbers τ _ _ := .neq (a.renumber ρ) (b.renumber ρ)
      rwa [Term.renumber_cancel inverse, Term.renumber_cancel inverse] at same
  | _, _, .distinct items => by
      have same : Constraint.Renumbers τ _ _ := .distinct (items.map (·.renumber ρ))
      rwa [Term.map_renumber_cancel inverse] at same
  | _, _, .notIn e => by
      have same : Constraint.Renumbers τ _ _ := .notIn (e.renumber ρ)
      rwa [Exclusion.renumber, Exclusion.renumber, Term.renumber_cancel inverse,
        Term.map_renumber_cancel inverse] at same
  | _, _, .inDomain v values => by
      have same := Constraint.Renumbers.inDomain (v.renumber ρ) (values.symm inverse)
      rwa [Var.renumber_cancel inverse] at same
  | _, _, .cardinality factors => .cardinality (goals_symm inverse factors)
termination_by structural c => c

theorem constraints_symm {ρ τ : ℕ → ℕ} (inverse : ∀ ordinal, τ (ρ ordinal) = ordinal) :
    ∀ {constraints held : List Constraint},
      List.Forall₂ (Constraint.Renumbers ρ) constraints held →
      List.Forall₂ (Constraint.Renumbers τ) held constraints
  | _, _, .nil => .nil
  | _, _, .cons here there =>
      .cons (Constraint.Renumbers.symm inverse here) (constraints_symm inverse there)
termination_by structural constraints => constraints

end

theorem Constraint.Renumbers.name {ρ : ℕ → ℕ} {c other : Constraint} (same : c.Renumbers ρ other) :
    other.name = c.name := by
  cases same <;> rfl

namespace Goal

variable {ρ : ℕ ↪o ℕ} {s other : Substitution}

section

variable {g gOther : Goal} (same : g.Renumbers ρ gOther)
include same

theorem Renumbers.isSized : gOther.isSized = g.isSized := by cases same <;> rfl

theorem Renumbers.name : gOther.name = g.name := by
  cases same with
  | constrain same => exact same.name
  | relation same => exact congrArg Relation.name same.relation
  | _ => rfl

theorem Renumbers.isSome_asApplication? :
    gOther.asApplication?.isSome = g.asApplication?.isSome := by
  cases same <;> rfl

theorem Renumbers.asApplication? : Option.Rel (Application.Renumbers ρ) g.asApplication?
    gOther.asApplication? := by
  cases same with
  | relation same => exact .some same
  | _ => exact .none

end

mutual

theorem Renumbers.depth : ∀ {g other : Goal}, g.Renumbers ρ other → other.depth = g.depth
  | .conj _ _, _, .conj same _ => congrArg (1 + ·) (depths_renumber same)
  | .disj _ _, _, .disj same _ => congrArg (1 + ·) (depths_renumber same)
  | .succeed, _, .succeed | .fail, _, .fail | .equal _ _, _, .equal _ _
  | .constrain _, _, .constrain _ | .fresh _ _, _, .fresh _ _ | .delay _, _, .delay _
  | .call _ _, _, .call _ _ | .relation _, _, .relation _ | .abort _, _, .abort _
  | .yieldThenAbort _, _, .yieldThenAbort _ => rfl

theorem depths_renumber : ∀ {goals others : List Goal}, List.Forall₂ (Renumbers ρ) goals others →
    depths others = depths goals
  | [], _, .nil => rfl
  | _ :: _, _, .cons here there => by
      rw [depths, depths, here.depth, depths_renumber there]

end

mutual

theorem Renumbers.check : ∀ {g other : Goal}, g.Renumbers ρ other → other.check = g.check
  | .conj _ _, _, .conj same held => by
      rw [Goal.check, Goal.check, checkAll_renumber same, checkConstraints_renumber held]
  | .disj _ _, _, .disj same held => by
      rw [Goal.check, Goal.check, checkAll_renumber same, checkConstraints_renumber held]
  | .constrain _, _, .constrain held => checkConstraint_renumber held
  | .relation _, _, .relation same => same.check
  | .succeed, _, .succeed | .fail, _, .fail | .equal _ _, _, .equal _ _
  | .fresh _ _, _, .fresh _ _ | .delay _, _, .delay _ | .call _ _, _, .call _ _
  | .abort _, _, .abort _ | .yieldThenAbort _, _, .yieldThenAbort _ => rfl
termination_by structural g => g

theorem checkAll_renumber : ∀ {goals others : List Goal},
    List.Forall₂ (Renumbers ρ) goals others → checkAll others = checkAll goals
  | [], _, .nil => rfl
  | _ :: _, _, .cons here there => by
      rw [checkAll, checkAll, here.check, checkAll_renumber there]
termination_by structural goals => goals

theorem checkConstraint_renumber : ∀ {c other : Constraint}, c.Renumbers ρ other →
    checkConstraint other = checkConstraint c
  | .cardinality _, _, .cardinality same => checkAll_renumber same
  | .neq _ _, _, .neq _ _ | .distinct _, _, .distinct _ | .notIn _, _, .notIn _
  | .inDomain _ _, _, .inDomain _ _ => rfl
termination_by structural c => c

theorem checkConstraints_renumber : ∀ {constraints held : List Constraint},
    List.Forall₂ (Constraint.Renumbers ρ) constraints held →
    checkConstraints held = checkConstraints constraints
  | [], _, .nil => rfl
  | _ :: _, _, .cons here there => by
      rw [checkConstraints, checkConstraints, checkConstraint_renumber here,
        checkConstraints_renumber there]
termination_by structural constraints => constraints

end

/-! ## Variables -/

/-- The variables of a combination are those of its goals and its constraints. -/
theorem map_addConstraintVars {union unionOther : Option (List Var)}
    {constraints held : List Constraint}
    (goals : unionOther = union.map (·.map (Var.renumber ρ)))
    (attached : ∀ seen, addConstraintVars (seen.map (Var.renumber ρ)) held =
      (addConstraintVars seen constraints).map (Var.renumber ρ)) :
    unionOther.map (addConstraintVars · held) =
      (union.map (addConstraintVars · constraints)).map (·.map (Var.renumber ρ)) := by
  rw [goals, Option.map_map, Option.map_map]
  exact congrArg (union.map ·) (funext attached)

mutual

theorem Renumbers.vars? : ∀ {g other : Goal}, g.Renumbers ρ other →
    other.vars? = g.vars?.map (·.map (Var.renumber ρ))
  | .succeed, _, .succeed | .fail, _, .fail => rfl
  | .equal a b, _, .equal _ _ => congrArg some (varsOf_renumber ρ [a, b])
  | .constrain _, _, .constrain held => congrArg some (constraintVars_renumber held)
  | .conj _ _, _, .conj same held =>
      map_addConstraintVars (unionVars?_renumber [] same) fun seen =>
        addConstraintVars_renumber seen held
  | .disj _ _, _, .disj same held =>
      map_addConstraintVars (unionVars?_renumber [] same) fun seen =>
        addConstraintVars_renumber seen held
  | .relation a, _, .relation same => by
      rw [Goal.vars?, Goal.vars?, same.args]
      exact congrArg some (varsOf_renumber ρ a.args)
  | .fresh _ _, _, .fresh _ _ | .delay _, _, .delay _ | .call _ _, _, .call _ _
  | .abort _, _, .abort _ | .yieldThenAbort _, _, .yieldThenAbort _ => rfl
termination_by structural g => g

theorem unionVars?_renumber : ∀ (seen : List Var) {goals others : List Goal},
    List.Forall₂ (Renumbers ρ) goals others →
    unionVars? (seen.map (Var.renumber ρ)) others =
      (unionVars? seen goals).map (·.map (Var.renumber ρ))
  | _, [], _, .nil => rfl
  | seen, g :: _, _, .cons here there => by
      rw [unionVars?, unionVars?, here.vars?]
      cases g.vars? with
      | none => rfl
      | some vars =>
          rw [Option.map_some]
          dsimp only
          rw [appendAllNew_map (Var.renumber_injective ρ), unionVars?_renumber _ there]
termination_by structural _ goals => goals

theorem addConstraintVars_renumber : ∀ (seen : List Var) {constraints held : List Constraint},
    List.Forall₂ (Constraint.Renumbers ρ) constraints held →
    addConstraintVars (seen.map (Var.renumber ρ)) held =
      (addConstraintVars seen constraints).map (Var.renumber ρ)
  | _, [], _, .nil => rfl
  | seen, _ :: _, _, .cons here there => by
      rw [addConstraintVars, addConstraintVars, constraintVars_renumber here,
        appendAllNew_map (Var.renumber_injective ρ), addConstraintVars_renumber _ there]
termination_by structural _ constraints => constraints

theorem constraintVars_renumber : ∀ {c other : Constraint}, c.Renumbers ρ other →
    constraintVars other = (constraintVars c).map (Var.renumber ρ)
  | .neq a b, _, .neq _ _ => varsOf_renumber ρ [a, b]
  | .distinct items, _, .distinct _ => varsOf_renumber ρ items
  | .notIn e, _, .notIn _ => varsOf_renumber ρ (e.subject :: e.members)
  | .inDomain _ _, _, .inDomain _ _ => rfl
  | .cardinality _, _, .cardinality same => factorVars_renumber [] same
termination_by structural c => c

theorem factorVars_renumber : ∀ (seen : List Var) {goals others : List Goal},
    List.Forall₂ (Renumbers ρ) goals others →
    factorVars (seen.map (Var.renumber ρ)) others =
      (factorVars seen goals).map (Var.renumber ρ)
  | _, [], _, .nil => rfl
  | seen, g :: _, _, .cons here there => by
      rw [factorVars, factorVars, here.isSized, here.vars?, apply_ite (List.map _),
        ← factorVars_renumber _ there, ← factorVars_renumber _ there,
        ← appendAllNew_map (Var.renumber_injective ρ)]
      cases g.vars? <;> rfl
termination_by structural _ goals => goals

end

/-! ## Bounds -/

mutual

theorem Renumbers.bound (renumbers : s.Renumbers ρ other) : ∀ {g gOther : Goal},
    g.Renumbers ρ gOther → gOther.bound other = g.bound s
  | .equal a b, _, .equal _ _ => by
      rw [Goal.bound, Goal.bound]
      rcases renumbers.unify .disabled a b with
        ⟨result, resultOther, holds, ended, endedOther⟩ | ⟨endless, endlessOther⟩
      · rw [ended, endedOther]
        cases holds <;> rfl
      · rw [endless, endlessOther]
  | .conj _ _, _, .conj same _ => by rw [Goal.bound, Goal.bound, bounds_renumber renumbers same]
  | .disj _ _, _, .disj same _ => by rw [Goal.bound, Goal.bound, bounds_renumber renumbers same]
  | .relation _, _, .relation same => congrArg pure (same.bound renumbers)
  | .succeed, _, .succeed | .fail, _, .fail | .constrain _, _, .constrain _
  | .fresh _ _, _, .fresh _ _ | .delay _, _, .delay _ | .call _ _, _, .call _ _
  | .abort _, _, .abort _ | .yieldThenAbort _, _, .yieldThenAbort _ => rfl

theorem bounds_renumber (renumbers : s.Renumbers ρ other) : ∀ {goals others : List Goal},
    List.Forall₂ (Renumbers ρ) goals others → bounds other others = bounds s goals
  | [], _, .nil => rfl
  | _ :: _, _, .cons here there => by
      rw [bounds, bounds, here.bound renumbers, bounds_renumber renumbers there]

end

theorem Renumbers.bound? {g gOther : Goal} (same : g.Renumbers ρ gOther)
    (renumbers : s.Renumbers ρ other) : gOther.bound? other = g.bound? s := by
  unfold Goal.bound?
  rw [same.isSized, same.bound renumbers]

end Goal

/-! ## Filling in -/

namespace Scope

/-- The names stand for the same terms over variables under other numbers. -/
def renumber (ρ : ℕ → ℕ) (scope : Scope) : Scope :=
  scope.map fun entry => (entry.1, entry.2.renumber ρ)

variable {ρ : ℕ ↪o ℕ} {scope : Scope}

theorem renumber_hide (ρ : ℕ → ℕ) (scope : Scope) (names : List String) :
    (scope.renumber ρ).hide names = (scope.hide names).renumber ρ := List.filter_map

theorem renumber_ofLists (ρ : ℕ → ℕ) (names : List String) (terms : List Term) :
    (ofLists names terms).renumber ρ = ofLists names (terms.map (·.renumber ρ)) := by
  unfold ofLists renumber
  rw [List.map_reverse, List.zip_map_right]
  rfl

theorem lookup_renumber (ρ : ℕ → ℕ) (scope : Scope) (name : String) :
    (scope.renumber ρ).lookup name = (scope.lookup name).map (·.renumber ρ) := by
  induction scope with
  | nil => rfl
  | cons entry scope ih =>
      rw [renumber] at ih ⊢
      rw [List.map_cons, List.lookup_cons, List.lookup_cons, ih]
      cases name == entry.1 <;> rfl

theorem image_renumber (ρ : ℕ → ℕ) (scope : Scope) (v : Var) :
    (scope.renumber ρ).image (v.renumber ρ) = (scope.image v).renumber ρ := by
  cases v with
  | wildcard => rfl
  | numbered ordinal => rfl
  | named name =>
      rw [Var.renumber_named, image, image, lookup_renumber]
      cases scope.lookup name <;> rfl

theorem fill_renumber (ρ : ℕ → ℕ) (scope : Scope) (t : Term) :
    (scope.renumber ρ).fill (t.renumber ρ) = (scope.fill t).renumber ρ := by
  rw [fill_eq, fill_eq]
  exact Term.mapVars_renumber (image_renumber ρ scope) t

theorem map_fill_renumber (ρ : ℕ → ℕ) (scope : Scope) (ts : List Term) :
    (ts.map (·.renumber ρ)).map (scope.renumber ρ).fill =
      (ts.map scope.fill).map (·.renumber ρ) := by
  rw [List.map_map, List.map_map]
  exact List.map_congr_left fun t _ => fill_renumber ρ scope t

theorem imageVar_renumber (ρ : ℕ → ℕ) (scope : Scope) (v : Var) :
    (scope.renumber ρ).imageVar (v.renumber ρ) = (scope.imageVar v).renumber ρ := by
  unfold imageVar
  rw [image_renumber, Term.asVar?_renumber]
  cases (scope.image v).asVar? <;> rfl

end Scope

namespace Goal

variable {ρ : ℕ ↪o ℕ}

mutual

/-- Terms under other numbers are put in the place of the same names. -/
theorem Renumbers.fill (scope : Scope) : ∀ {g other : Goal}, g.Renumbers ρ other →
    (g.fill scope).Renumbers ρ (other.fill (scope.renumber ρ))
  | .succeed, _, .succeed => .succeed
  | .fail, _, .fail => .fail
  | .equal a b, _, .equal _ _ => by
      rw [Goal.fill, Goal.fill, Scope.fill_renumber, Scope.fill_renumber]
      exact .equal _ _
  | .constrain _, _, .constrain held => .constrain (fillConstraint_renumber scope held)
  | .conj _ _, _, .conj same held =>
      .conj (fillAll_renumber scope same) (fillConstraints_renumber scope held)
  | .disj _ _, _, .disj same held =>
      .disj (fillAll_renumber scope same) (fillConstraints_renumber scope held)
  | .fresh names _, _, .fresh _ same => by
      rw [Goal.fill, Goal.fill, Scope.renumber_hide]
      exact .fresh names (same.fill (scope.hide names))
  | .delay _, _, .delay same => .delay (same.fill scope)
  | .call name args, _, .call _ _ => by
      rw [Goal.fill, Goal.fill, Scope.map_fill_renumber]
      exact .call name _
  | .relation a, _, .relation same => by
      refine .relation ⟨same.relation, ?_, same.order, same.fixed⟩
      rw [same.args]
      exact Scope.map_fill_renumber ρ scope a.args
  | .abort fault, _, .abort _ => .abort fault
  | .yieldThenAbort fault, _, .yieldThenAbort _ => .yieldThenAbort fault
termination_by structural g => g

theorem fillAll_renumber (scope : Scope) : ∀ {goals others : List Goal},
    List.Forall₂ (Renumbers ρ) goals others →
    List.Forall₂ (Renumbers ρ) (fillAll scope goals) (fillAll (scope.renumber ρ) others)
  | [], _, .nil => .nil
  | _ :: _, _, .cons here there => .cons (here.fill scope) (fillAll_renumber scope there)
termination_by structural goals => goals

theorem fillConstraint_renumber (scope : Scope) : ∀ {c other : Constraint},
    c.Renumbers ρ other →
    (fillConstraint scope c).Renumbers ρ (fillConstraint (scope.renumber ρ) other)
  | .neq a b, _, .neq _ _ => by
      rw [fillConstraint, fillConstraint, Scope.fill_renumber, Scope.fill_renumber]
      exact .neq _ _
  | .distinct items, _, .distinct _ => by
      rw [fillConstraint, fillConstraint, Scope.map_fill_renumber]
      exact .distinct _
  | .notIn e, _, .notIn _ => by
      rw [fillConstraint, fillConstraint, Exclusion.renumber, Scope.fill_renumber,
        Scope.map_fill_renumber]
      exact .notIn ⟨scope.fill e.subject, e.members.map scope.fill⟩
  | .inDomain v _, _, .inDomain _ same => by
      rw [fillConstraint, fillConstraint, Scope.imageVar_renumber]
      exact .inDomain _ (same.map (Scope.fill_renumber ρ scope))
  | .cardinality _, _, .cardinality same => .cardinality (fillAll_renumber scope same)
termination_by structural c => c

theorem fillConstraints_renumber (scope : Scope) : ∀ {constraints held : List Constraint},
    List.Forall₂ (Constraint.Renumbers ρ) constraints held →
    List.Forall₂ (Constraint.Renumbers ρ) (fillConstraints scope constraints)
      (fillConstraints (scope.renumber ρ) held)
  | [], _, .nil => .nil
  | _ :: _, _, .cons here there =>
      .cons (fillConstraint_renumber scope here) (fillConstraints_renumber scope there)
termination_by structural constraints => constraints

end

end Goal

/-- The definitions are the same but for the numbers of variables. -/
def Definitions.Renumbers (ρ : ℕ → ℕ) (definitions others : Definitions) : Prop :=
  ∀ name, Option.Rel (fun d e : Definition => e.params = d.params ∧ d.body.Renumbers ρ e.body)
    (definitions.lookup name) (others.lookup name)

theorem Definition.apply_renumber {ρ : ℕ ↪o ℕ} {d e : Definition} (params : e.params = d.params)
    (body : d.body.Renumbers ρ e.body) (args : List Term) :
    (d.apply args).Renumbers ρ (e.apply (args.map (·.renumber ρ))) := by
  unfold Definition.apply
  rw [params, ← Scope.renumber_ofLists]
  exact body.fill _

end RelationalSolver
