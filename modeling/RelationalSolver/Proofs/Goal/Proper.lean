import RelationalSolver.Goal.Instance
import RelationalSolver.Proofs.Constraint.Meaning
import RelationalSolver.Proofs.Relation.Table

/-!
# Proper goals, plain goals and goals made of equations

A proper goal is made of equations, constraints on terms, relations on tables,
conjunctions, disjunctions and suspended bodies, without wildcards and without new
variables.  Filling in wildcard-free terms keeps a goal proper.
-/

namespace RelationalSolver

/-- A relation on a table that was made of rows, with wildcard-free arguments. -/
def Application.Proper (a : Application) : Prop :=
  (∃ facts arity rows, a.relation.source = .table facts ∧ FactTable.ofRows arity rows = .ok facts) ∧
    ∀ t ∈ a.args, t.WildcardFree

namespace Goal

mutual

/-- The goal is made of proper parts. -/
def Proper : Goal → Prop
  | .succeed => True
  | .fail => True
  | .equal a b => a.WildcardFree ∧ b.WildcardFree
  | .constrain c => c.Proper
  | .conj goals constraints => AllProper goals ∧ ∀ c ∈ constraints, c.Proper
  | .disj goals constraints => AllProper goals ∧ ∀ c ∈ constraints, c.Proper
  | .delay body => body.Proper
  | .call _ args => ∀ t ∈ args, t.WildcardFree
  | .relation a => a.Proper
  | .fresh _ _ => False
  | .abort _ => False
  | .yieldThenAbort _ => False

/-- All goals of the list are proper. -/
def AllProper : List Goal → Prop
  | [] => True
  | g :: gs => g.Proper ∧ AllProper gs

end

@[simp] theorem allProper_iff {goals : List Goal} : AllProper goals ↔ ∀ g ∈ goals, g.Proper := by
  induction goals with
  | nil => simp [AllProper]
  | cons g goals ih => simp [AllProper, ih]

end Goal

/-- The bodies of the definitions are proper. -/
def Definitions.Proper (definitions : Definitions) : Prop :=
  ∀ name definition, definitions.lookup name = some definition → definition.body.Proper

/-! ## Filling in terms -/

namespace Scope

variable {scope : Scope} {t : Term}

/-- Names stand for wildcard-free terms. -/
def WildcardFree (scope : Scope) : Prop := ∀ name t, scope.lookup name = some t → t.WildcardFree

theorem WildcardFree.image (free : scope.WildcardFree) {v : Var} (named : v ≠ .wildcard) :
    (scope.image v).WildcardFree := by
  have same : (Term.var v).WildcardFree := by
    rw [Term.WildcardFree, ← Bool.not_eq_true, Term.mentions_var]
    exact named
  cases v with
  | wildcard => exact absurd rfl named
  | numbered ordinal => exact same
  | named name =>
      rw [Scope.image]
      cases found : scope.lookup name with
      | none => exact same
      | some t => exact free name t found

theorem WildcardFree.fill (free : scope.WildcardFree) (plain : t.WildcardFree) :
    (scope.fill t).WildcardFree := by
  rw [fill_eq, Term.WildcardFree, ← Bool.not_eq_true, Term.mentions_mapVars]
  rintro ⟨v, inside, within⟩
  have named : v ≠ .wildcard := by
    rintro rfl
    rw [plain] at inside
    cases inside
  rw [free.image named] at within
  cases within

theorem WildcardFree.imageVar (free : scope.WildcardFree) {v : Var} (named : v ≠ .wildcard) :
    scope.imageVar v ≠ .wildcard := by
  have image := free.image named
  rw [Scope.imageVar]
  cases term : scope.image v with
  | var w =>
      rw [term] at image
      rintro rfl
      cases image
  | atom a => exact named
  | compound f args => exact named

theorem wildcardFree_ofLists {names : List String} {terms : List Term}
    (free : ∀ t ∈ terms, t.WildcardFree) : (ofLists names terms).WildcardFree := by
  intro name t found
  rcases List.lookup_eq_some_iff.mp found with ⟨before, after, entries, _⟩
  have member : (name, t) ∈ (names.zip terms).reverse := by
    rw [← ofLists, entries]
    simp
  exact free t (List.of_mem_zip (List.mem_reverse.mp member)).2

end Scope

variable {scope : Scope}

theorem Constraint.Proper.fill {c : Constraint} (proper : c.Proper) (free : scope.WildcardFree) :
    (Goal.fillConstraint scope c).Proper := by
  cases c with
  | neq a b => exact ⟨free.fill proper.1, free.fill proper.2⟩
  | distinct items =>
      intro t member
      rcases List.mem_map.mp member with ⟨u, inside, rfl⟩
      exact free.fill (proper u inside)
  | notIn e =>
      refine ⟨free.fill proper.1, ?_⟩
      intro t member
      rcases List.mem_map.mp member with ⟨u, inside, rfl⟩
      exact free.fill (proper.2 u inside)
  | inDomain v domain =>
      refine ⟨free.imageVar proper.1, ?_⟩
      intro t member
      rcases TermSet.contains_map.mp member with ⟨u, inside, rfl⟩
      rw [Scope.fill_eq, Term.mapVars_of_isGround _ (proper.2 u inside)]
      exact proper.2 u inside
  | cardinality factors => exact proper

theorem fillConstraints_eq (constraints : List Constraint) :
    Goal.fillConstraints scope constraints = constraints.map (Goal.fillConstraint scope) := by
  induction constraints with
  | nil => rfl
  | cons c constraints ih => rw [Goal.fillConstraints, ih, List.map_cons]

theorem proper_fillConstraints {constraints : List Constraint} (free : scope.WildcardFree)
    (proper : ∀ c ∈ constraints, c.Proper) :
    ∀ c ∈ Goal.fillConstraints scope constraints, c.Proper := by
  rw [fillConstraints_eq]
  intro c member
  rcases List.mem_map.mp member with ⟨d, inside, rfl⟩
  exact (proper d inside).fill free

theorem Application.Proper.fill {a : Application} (proper : a.Proper) (free : scope.WildcardFree) :
    Application.Proper { a with args := a.args.map scope.fill } := by
  refine ⟨proper.1, ?_⟩
  intro t member
  rcases List.mem_map.mp member with ⟨u, inside, rfl⟩
  exact free.fill (proper.2 u inside)

namespace Goal

mutual

/-- Filling in wildcard-free terms keeps a goal proper. -/
theorem proper_fill (free : scope.WildcardFree) : ∀ g : Goal, g.Proper → (g.fill scope).Proper
  | .succeed, proper => proper
  | .fail, proper => proper
  | .equal a b, proper => ⟨free.fill proper.1, free.fill proper.2⟩
  | .constrain c, proper => Constraint.Proper.fill proper free
  | .conj goals _, proper =>
      ⟨allProper_fill free goals proper.1, proper_fillConstraints free proper.2⟩
  | .disj goals _, proper =>
      ⟨allProper_fill free goals proper.1, proper_fillConstraints free proper.2⟩
  | .delay body, proper => proper_fill free body proper
  | .call name args, proper => by
      intro t member
      rcases List.mem_map.mp member with ⟨u, inside, rfl⟩
      exact free.fill (proper u inside)
  | .relation a, proper => Application.Proper.fill proper free
  | .fresh _ _, proper => proper.elim
  | .abort _, proper => proper.elim
  | .yieldThenAbort _, proper => proper.elim

theorem allProper_fill (free : scope.WildcardFree) : ∀ goals : List Goal, AllProper goals →
    AllProper (fillAll scope goals)
  | [], _ => trivial
  | g :: gs, proper => ⟨proper_fill free g proper.1, allProper_fill free gs proper.2⟩

end

/-- A call of a proper definition runs a proper goal. -/
theorem proper_apply {definition : Definition} {args : List Term} (proper : definition.body.Proper)
    (free : ∀ t ∈ args, t.WildcardFree) : (definition.apply args).Proper :=
  proper_fill (Scope.wildcardFree_ofLists free) _ proper

end Goal

/-! ## Plain goals

A plain goal equates wildcard-free terms and looks them up in tables.  It may attach
constraints of any kind, introduce new variables and suspend plain bodies.  Filling in
wildcard-free terms keeps a goal plain.
-/

namespace Goal

mutual

/-- Equations and relations are about wildcard-free terms, and relations are tables. -/
def Plain : Goal → Prop
  | .equal a b => a.WildcardFree ∧ b.WildcardFree
  | .conj goals _ => AllPlain goals
  | .disj goals _ => AllPlain goals
  | .fresh _ body => body.Plain
  | .delay body => body.Plain
  | .call _ args => ∀ t ∈ args, t.WildcardFree
  | .relation a => a.Proper
  | .succeed | .fail | .constrain _ | .abort _ | .yieldThenAbort _ => True

/-- All goals of the list are plain. -/
def AllPlain : List Goal → Prop
  | [] => True
  | g :: gs => g.Plain ∧ AllPlain gs

end

@[simp] theorem allPlain_iff {goals : List Goal} : AllPlain goals ↔ ∀ g ∈ goals, g.Plain := by
  induction goals with
  | nil => simp [AllPlain]
  | cons g goals ih => simp [AllPlain, ih]

end Goal

/-- The bodies of the definitions are plain. -/
def Definitions.Plain (definitions : Definitions) : Prop :=
  ∀ name definition, definitions.lookup name = some definition → definition.body.Plain

namespace Scope

theorem lookup_hide (scope : Scope) (names : List String) (name : String) :
    (scope.hide names).lookup name = if name ∈ names then none else scope.lookup name := by
  induction scope with
  | nil => simp [hide]
  | cons entry scope ih =>
      obtain ⟨other, t⟩ := entry
      rw [hide] at ih ⊢
      rw [List.filter_cons, List.lookup_cons]
      by_cases same : name = other
      · subst same
        by_cases hidden : name ∈ names
        · simpa [hidden] using ih
        · simp [hidden]
      · have differs : (name == other) = false := by simpa using same
        rw [differs, ← ih]
        by_cases hidden : other ∈ names
        · simp [hidden]
        · simp [hidden, List.lookup_cons, differs]

theorem WildcardFree.hide {scope : Scope} (free : scope.WildcardFree) (names : List String) :
    (scope.hide names).WildcardFree := by
  intro name t found
  rw [lookup_hide] at found
  split at found
  · cases found
  · exact free name t found

end Scope

namespace Goal

mutual

/-- Filling in wildcard-free terms keeps a goal plain. -/
theorem plain_fill : ∀ (g : Goal) {scope : Scope}, scope.WildcardFree → g.Plain →
    (g.fill scope).Plain
  | .succeed, _, _, plain => plain
  | .fail, _, _, plain => plain
  | .equal a b, _, free, plain => ⟨free.fill plain.1, free.fill plain.2⟩
  | .constrain _, _, _, _ => trivial
  | .conj goals _, _, free, plain => allPlain_fill goals free plain
  | .disj goals _, _, free, plain => allPlain_fill goals free plain
  | .fresh names body, _, free, plain => plain_fill body (free.hide names) plain
  | .delay body, _, free, plain => plain_fill body free plain
  | .call name args, _, free, plain => by
      intro t member
      rcases List.mem_map.mp member with ⟨u, inside, rfl⟩
      exact free.fill (plain u inside)
  | .relation a, _, free, plain => Application.Proper.fill plain free
  | .abort _, _, _, plain => plain
  | .yieldThenAbort _, _, _, plain => plain

theorem allPlain_fill : ∀ (goals : List Goal) {scope : Scope}, scope.WildcardFree →
    AllPlain goals → AllPlain (fillAll scope goals)
  | [], _, _, _ => trivial
  | g :: gs, _, free, plain => ⟨plain_fill g free plain.1, allPlain_fill gs free plain.2⟩

end

/-- A call of a plain definition runs a plain goal. -/
theorem plain_apply {definition : Definition} {args : List Term} (plain : definition.body.Plain)
    (free : ∀ t ∈ args, t.WildcardFree) : (definition.apply args).Plain :=
  plain_fill _ (Scope.wildcardFree_ofLists free) plain

/-- The body of a goal with variables in the place of names is plain. -/
theorem plain_fresh {body : Goal} {vars : List Var} (plain : body.Plain) (names : List String)
    (named : ∀ v ∈ vars, v ≠ .wildcard) :
    (body.fill (.ofLists names (vars.map .var))).Plain := by
  apply plain_fill _ (Scope.wildcardFree_ofLists _) plain
  intro t member
  rcases List.mem_map.mp member with ⟨v, inside, rfl⟩
  rw [Term.WildcardFree, ← Bool.not_eq_true, Term.mentions_var]
  exact named v inside

end Goal

/-! ## Goals made of equations

Equations between wildcard-free terms, their conjunctions and disjunctions, and
suspended bodies and calls that unfold to such goals again.
-/

variable {definitions : Definitions} {goals : List Goal}

namespace Goal

mutual

/-- The goal is made of equations, and its calls are defined. -/
def Equational (definitions : Definitions) : Goal → Prop
  | .succeed => True
  | .fail => True
  | .equal a b => a.WildcardFree ∧ b.WildcardFree
  | .conj goals constraints => AllEquational definitions goals ∧ constraints = []
  | .disj goals constraints => AllEquational definitions goals ∧ constraints = []
  | .delay body => body.Equational definitions
  | .call name args => (definitions.lookup name).isSome ∧ ∀ t ∈ args, t.WildcardFree
  | .constrain _ => False
  | .relation _ => False
  | .fresh _ _ => False
  | .abort _ => False
  | .yieldThenAbort _ => False

/-- All goals of the list are made of equations. -/
def AllEquational (definitions : Definitions) : List Goal → Prop
  | [] => True
  | g :: gs => g.Equational definitions ∧ AllEquational definitions gs

end

theorem allEquational_iff :
    AllEquational definitions goals ↔ ∀ g ∈ goals, g.Equational definitions := by
  induction goals with
  | nil => simp [AllEquational]
  | cons g goals ih => simp [AllEquational, ih]

mutual

theorem equational_fill (free : scope.WildcardFree) : ∀ g : Goal, g.Equational definitions →
    (g.fill scope).Equational definitions
  | .succeed, equational => equational
  | .fail, equational => equational
  | .equal _ _, equational => ⟨free.fill equational.1, free.fill equational.2⟩
  | .conj goals _, ⟨equational, rfl⟩ => ⟨allEquational_fill free goals equational, rfl⟩
  | .disj goals _, ⟨equational, rfl⟩ => ⟨allEquational_fill free goals equational, rfl⟩
  | .delay body, equational => equational_fill free body equational
  | .call name args, equational => by
      refine ⟨equational.1, ?_⟩
      intro t member
      obtain ⟨u, inside, rfl⟩ := List.mem_map.mp member
      exact free.fill (equational.2 u inside)

theorem allEquational_fill (free : scope.WildcardFree) : ∀ goals : List Goal,
    AllEquational definitions goals → AllEquational definitions (fillAll scope goals)
  | [], _ => trivial
  | g :: gs, equational =>
      ⟨equational_fill free g equational.1, allEquational_fill free gs equational.2⟩

end

mutual

/-- Without relations there is nothing to check. -/
theorem Equational.check : ∀ {g : Goal}, g.Equational definitions → g.check = .ok ()
  | .succeed, _ => rfl
  | .fail, _ => rfl
  | .equal _ _, _ => rfl
  | .conj goals _, ⟨equational, rfl⟩ => by
      rw [Goal.check, AllEquational.checkAll equational]
      rfl
  | .disj goals _, ⟨equational, rfl⟩ => by
      rw [Goal.check, AllEquational.checkAll equational]
      rfl
  | .delay _, _ => rfl
  | .call _ _, _ => rfl

theorem AllEquational.checkAll : ∀ {goals : List Goal}, AllEquational definitions goals →
    Goal.checkAll goals = .ok ()
  | [], _ => rfl
  | g :: gs, equational => by
      rw [Goal.checkAll, Equational.check equational.1]
      exact AllEquational.checkAll equational.2

end

end Goal

/-- The bodies of the definitions are made of equations. -/
def Definitions.Equational (definitions : Definitions) : Prop :=
  ∀ name definition, definitions.lookup name = some definition →
    definition.body.Equational definitions

/-- A call with wildcard-free arguments unfolds to a goal made of equations. -/
theorem Definitions.Equational.apply (equational : definitions.Equational) {name : String}
    {definition : Definition} {args : List Term}
    (defined : definitions.lookup name = some definition)
    (free : ∀ t ∈ args, t.WildcardFree) : (definition.apply args).Equational definitions :=
  Goal.equational_fill (Scope.wildcardFree_ofLists free) _ (equational name definition defined)

end RelationalSolver
