import RelationalSolver.Proofs.Planning.Plan

/-!
# Restrictions keep the answers

The domain that relations know for a variable holds every value that they leave to it.
So the goals imply that it takes a value of all these domains, and have no answers if
there is none.
-/

namespace RelationalSolver

open Substitution

variable {s : Substitution} {θ : Assignment} {v : Var} {values : TermSet} {t : Term}

/-! ## The values of columns -/

theorem TermSet.contains_foldl_inter {others : List TermSet} :
    (others.foldl .inter values).contains t = true ↔
      values.contains t = true ∧ ∀ other ∈ others, other.contains t = true := by
  induction others generalizing values with
  | nil => simp
  | cons other others ih => simp [ih, and_assoc]

namespace Application

variable {a : Application} {column : Nat}

theorem mem_columnsOf : column ∈ a.columnsOf v s ↔
    ∃ arg, a.args[column]? = some arg ∧ s.walk arg = .var v := by
  simp only [columnsOf, List.mem_map, List.mem_filter, decide_eq_true_eq, Prod.exists,
    List.mk_mem_zipIdx_iff_getElem?]
  constructor
  · rintro ⟨arg, _, ⟨here, walks⟩, rfl⟩
    exact ⟨arg, here, walks⟩
  · rintro ⟨arg, here, walks⟩
    exact ⟨arg, column, ⟨here, walks⟩, rfl⟩

/-- Every set that is found belongs to a column that was asked about. -/
theorem exists_column_of_mem {columns : List Nat} {sets : List TermSet} {source : FactSource}
    (found : columns.mapM source.columnValues = some sets) (member : values ∈ sets) :
    ∃ column ∈ columns, source.columnValues column = some values := by
  induction columns generalizing sets with
  | nil =>
      cases found
      cases member
  | cons column columns ih =>
      simp only [List.mapM_cons, Option.bind_eq_bind, Option.bind_eq_some_iff, Option.pure_def,
        Option.some.injEq] at found
      rcases found with ⟨first, here, rest, later, rfl⟩
      rcases List.mem_cons.mp member with rfl | member
      · exact ⟨column, List.mem_cons_self, here⟩
      · rcases ih later member with ⟨other, among, known⟩
        exact ⟨other, List.mem_cons_of_mem column among, known⟩

/-- The values of a column that the variable is an argument of. -/
theorem columnValues_spec (proper : a.Proper) (among : column ∈ a.columnsOf v s)
    (known : a.relation.source.columnValues column = some values) :
    (∀ t, values.contains t = true → t.isGround = true) ∧
      ∀ θ ∈ s.solutions, a.Admits θ → values.contains (θ v) = true := by
  rcases proper.1 with ⟨facts, arity, rows, source, made⟩
  have wellFormed := FactTable.wellFormed_of_ofRows made
  rw [source] at known
  rcases Option.map_eq_some_iff.mp known with ⟨index, here, rfl⟩
  constructor
  · intro t member
    rcases (wellFormed.valued column index t here).mp member with ⟨row, inside, stands⟩
    exact wellFormed.ground row inside t (List.mem_of_getElem? stands)
  · intro θ solves admitted
    rcases mem_columnsOf.mp among with ⟨arg, place, walks⟩
    rw [admits_iff source] at admitted
    rw [wellFormed.valued column index (θ v) here]
    refine ⟨_, admitted, ?_⟩
    rw [List.getElem?_map, place, Option.map_some, ← mapVars_walk solves arg, walks,
      Term.mapVars_var]

/-- The domain of a variable holds every value that the relation leaves to it. -/
theorem domainOf_spec (proper : a.Proper) (found : a.domainOf v s = some values) :
    (∀ t, values.contains t = true → t.isGround = true) ∧
      ∀ θ ∈ s.solutions, a.Admits θ → values.contains (θ v) = true := by
  rw [domainOf] at found
  split at found
  · rename_i first others sets
    cases found
    have each : ∀ set ∈ first :: others, (∀ t, set.contains t = true → t.isGround = true) ∧
        ∀ θ ∈ s.solutions, a.Admits θ → set.contains (θ v) = true := by
      intro set member
      rcases exists_column_of_mem sets member with ⟨column, among, known⟩
      exact columnValues_spec proper among known
    rcases List.forall_mem_cons.mp each with ⟨here, there⟩
    constructor
    · exact fun t member => here.1 t (TermSet.contains_foldl_inter.mp member).1
    · intro θ solves admitted
      rw [TermSet.contains_foldl_inter]
      exact ⟨here.2 θ solves admitted, fun other member => (there other member).2 θ solves admitted⟩
  · cases found

end Application

namespace Planning

variable {ps sharing : List PlannedGoal} {goals : List Goal} {domain : Option TermSet}

/-! ## Domains -/

/-- The domain, if there is one, is ground and holds every value that the goals leave
to the variable. -/
def Covers (s : Substitution) (goals : List Goal) (v : Var) (domain : Option TermSet) : Prop :=
  ∀ values, domain = some values → (∀ t, values.contains t = true → t.isGround = true) ∧
    ∀ θ ∈ s.solutions, Goal.Admit goals θ → values.contains (θ v) = true

theorem Covers.inter {known : TermSet} (covers : Covers s goals v (some known))
    (also : Covers s goals v (some values)) : Covers s goals v (some (known.inter values)) := by
  intro _ same
  cases same
  rcases covers known rfl with ⟨ground, contains⟩
  constructor
  · exact fun t member => ground t (TermSet.contains_inter.mp member).1
  · intro θ solves admitted
    exact TermSet.contains_inter.mpr
      ⟨contains θ solves admitted, (also values rfl).2 θ solves admitted⟩

/-- Nothing is left to the goals if no values are left to the variable. -/
theorem Covers.excluded (covers : Covers s goals v (some values)) (none : values.isEmpty = true) :
    Goal.Excluded s goals := by
  intro θ solves admitted
  have member := (covers values rfl).2 θ solves admitted
  have absent := Std.TreeSet.isEmpty_iff_forall_contains.mp none (θ v)
  rw [TermSet.contains, absent] at member
  cases member

theorem covers_of_domainOf {p : PlannedGoal} {a : Application} (guarded : p.goal.Guarded)
    (member : p.goal ∈ goals) (asks : p.goal.asApplication? = some a)
    (found : a.domainOf v s = some values) : Covers s goals v (some values) := by
  rcases p with ⟨g, vars?, size?⟩
  cases g with
  | relation b =>
      cases asks
      have proper : a.Proper := by
        rcases guarded with proper | ⟨c, other, _⟩
        · exact proper
        · cases other
      rcases Application.domainOf_spec proper found with ⟨ground, contains⟩
      intro _ same
      cases same
      exact ⟨ground, fun θ solves admitted => contains θ solves (admitted _ member)⟩
  | _ => cases asks

/-- What intersecting domains of the variable comes to. -/
def Intersected (s : Substitution) (goals : List Goal) (v : Var) : Option (Option TermSet) → Prop
  | some common => Covers s goals v common
  | none => Goal.Excluded s goals

/-- The common domain covers what all goals leave to the variable. -/
theorem commonDomain_intersected (guarded : ∀ p ∈ sharing, p.goal.Guarded)
    (among : ∀ p ∈ sharing, p.goal ∈ goals) (covers : Covers s goals v domain) :
    Intersected s goals v (commonDomain s v domain sharing) := by
  induction sharing generalizing domain with
  | nil => exact covers
  | cons p sharing ih =>
      rcases List.forall_mem_cons.mp guarded with ⟨here, there⟩
      rcases List.forall_mem_cons.mp among with ⟨member, members⟩
      rw [commonDomain]
      split
      · exact ih there members covers
      · rename_i values found
        rcases Option.bind_eq_some_iff.mp found with ⟨a, asks, knows⟩
        have new := covers_of_domainOf here member asks knows
        have goesOn : ∀ next : TermSet, Covers s goals v (some next) → Intersected s goals v
            (if next.isEmpty then none else commonDomain s v (some next) sharing) := by
          intro next covers
          split
          · rename_i empty
            exact covers.excluded empty
          · exact ih there members covers
        cases domain with
        | none => exact goesOn values new
        | some known => exact goesOn (known.inter values) (covers.inter new)

/-! ## Restrictions -/

/-- A constraint that every solution left to the goals satisfies. -/
def Restriction (s : Substitution) (goals : List Goal) (g : Goal) : Prop :=
  ∃ c, g = .constrain c ∧ c.Proper ∧ ∀ θ ∈ s.solutions, Goal.Admit goals θ → c.Holds θ

/-- What restricting a variable comes to. -/
def Restricted (s : Substitution) (goals : List Goal) : Except Notice (Option Goal) → Prop
  | .ok restriction => ∀ g, restriction = some g → Restriction s goals g
  | .error _ => Goal.Excluded s goals

theorem restrictVar_restricted (sounds : ∀ p ∈ sharing, p.Sound s) (among : ∀ p ∈ sharing, p ∈ ps)
    (named : v ≠ .wildcard) : Restricted s (ps.map (·.goal)) (restrictVar s v sharing) := by
  rw [restrictVar]
  split
  · rename_i found
    rcases List.any_eq_true.mp found with ⟨p, member, empty⟩
    rcases (Option.any_eq_true _ _).mp empty with ⟨b, bounded, zero⟩
    exact Goal.excluded_of_zero (sounds p member) (among p member) bounded zero
  · generalize ordered : sharing.mergeSort (fun p q => rankLE p.sizeFloat q.sizeFloat) = queue
    have same : ∀ p ∈ queue, p ∈ sharing := by
      intro p member
      rw [← ordered] at member
      exact (List.mergeSort_perm _ _).mem_iff.mp member
    have unknown : Covers s (ps.map (·.goal)) v none := nofun
    have common := commonDomain_intersected
      (fun p member => (sounds p (same p member)).guarded)
      (fun p member => List.mem_map_of_mem (among p (same p member))) unknown
    split
    · rename_i empty
      rwa [empty] at common
    · exact nofun
    · rename_i values found
      rw [found] at common
      rcases common values rfl with ⟨ground, contains⟩
      intro g isRestriction
      cases isRestriction
      exact ⟨.inDomain v values, rfl, ⟨named, ground⟩, contains⟩

/-! ## Variables that are shared -/

/-- The goals listed for a variable are relations of the plan that can reach it. -/
def Reached (ps : List PlannedGoal) (table : List (Var × List PlannedGoal)) : Prop :=
  ∀ entry ∈ table, ∀ p ∈ entry.2, p ∈ ps ∧ p.goal.asApplication?.isSome = true ∧ entry.1 ∈ p.vars

theorem addSharer_reached {table : List (Var × List PlannedGoal)} {p : PlannedGoal}
    (reached : Reached ps table) (member : p ∈ ps) (asks : p.goal.asApplication?.isSome = true)
    (inside : v ∈ p.vars) : Reached ps (addSharer p v table) := by
  induction table with
  | nil =>
      intro entry among q listed
      cases List.mem_singleton.mp among
      cases List.mem_singleton.mp listed
      exact ⟨member, asks, inside⟩
  | cons first rest ih =>
      rcases first with ⟨w, goals⟩
      rcases List.forall_mem_cons.mp reached with ⟨here, there⟩
      rw [addSharer]
      split
      · rename_i same
        cases same
        refine List.forall_mem_cons.mpr ⟨?_, there⟩
        exact List.forall_mem_append.mpr
          ⟨here, List.forall_mem_singleton.mpr ⟨member, asks, inside⟩⟩
      · exact List.forall_mem_cons.mpr ⟨here, ih there⟩

theorem sharers_reached (ps : List PlannedGoal) : Reached ps (sharers ps) := by
  apply List.foldlRecOn
  · exact nofun
  · intro table reached p member
    rcases List.mem_filter.mp member with ⟨among, asks⟩
    apply List.foldlRecOn
    · exact reached
    · exact fun table reached v inside => addSharer_reached reached among asks inside

/-! ## The pass -/

/-- What restricting several variables comes to. -/
def AllRestricted (s : Substitution) (goals : List Goal) : Except Notice (List (Option Goal)) → Prop
  | .ok restrictions => ∀ g, some g ∈ restrictions → Restriction s goals g
  | .error _ => Goal.Excluded s goals

theorem mapM_restricted {table : List (Var × List PlannedGoal)} (sounds : ∀ p ∈ ps, p.Sound s)
    (reached : Reached ps table) (several : ∀ entry ∈ table, 2 ≤ entry.2.length) :
    AllRestricted s (ps.map (·.goal))
      (table.mapM fun (v, sharing) => restrictVar s v sharing) := by
  induction table with
  | nil => exact nofun
  | cons entry table ih =>
      rcases entry with ⟨v, sharing⟩
      rcases List.forall_mem_cons.mp reached with ⟨here, there⟩
      rcases List.forall_mem_cons.mp several with ⟨two, others⟩
      have named : v ≠ .wildcard := by
        have first := List.getElem_mem (Nat.lt_of_lt_of_le Nat.zero_lt_two two)
        rcases here _ first with ⟨member, asks, inside⟩
        exact (sounds _ member).named asks v inside
      have restricted := restrictVar_restricted
        (fun p member => sounds p (here p member).1) (fun p member => (here p member).1) named
      have rest := ih there others
      rw [List.mapM_cons]
      dsimp only
      generalize restrictVar s v sharing = first at restricted
      generalize table.mapM (fun (v, sharing) => restrictVar s v sharing) = later at rest
      cases first with
      | error notice => exact restricted
      | ok restriction =>
          cases later with
          | error notice => exact rest
          | ok restrictions =>
              intro g member
              rcases List.mem_cons.mp member with same | member
              · exact restricted g same.symm
              · exact rest g member

/-- Restrictions can be put in front of the goals that imply them. -/
theorem restrictions_keep {before added : List Goal} (keeps : (Plan.feasible ps).Keeps s before)
    (restrict : ∀ g ∈ added, Restriction s (ps.map (·.goal)) g) :
    (Plan.feasible (added.map PlannedGoal.injected ++ ps)).Keeps s before := by
  suffices adds : (∀ p ∈ added.map PlannedGoal.injected ++ ps, p.Sound s) ∧
      Rearranges s (ps.map (·.goal)) ((added.map PlannedGoal.injected ++ ps).map (·.goal)) from
    keeps.feasible adds.1 adds.2
  induction added with
  | nil => exact ⟨keeps.1, .refl keeps.2.guarded⟩
  | cons g added ih =>
      rcases List.forall_mem_cons.mp restrict with ⟨⟨c, rfl, proper, implied⟩, others⟩
      rcases ih others with ⟨sounds, rearranges⟩
      constructor
      · exact List.forall_mem_cons.mpr ⟨PlannedGoal.injected_sound (.inl proper), sounds⟩
      · apply rearranges.trans
        apply Rearranges.constrain rearranges.guarded (.inl proper)
        intro Θ within nonempty admitted
        rcases nonempty with ⟨θ, member⟩
        rw [Constraint.permits_of_not_guard proper.isGuard_eq]
        exact ⟨θ, member,
          implied θ (within member) ((rearranges.admits θ).mp (admitted θ member))⟩

theorem relevance_keeps {before : List Goal} (keeps : (Plan.feasible ps).Keeps s before) :
    (Pass.outcome (relevance s ps)).1.Keeps s before := by
  rw [relevance]
  dsimp only
  generalize found : (sharers ps).filter (fun (_, sharing) => 2 ≤ sharing.length) = shared
  have reached : Reached ps shared := by
    rw [← found]
    exact fun entry member => sharers_reached ps entry (List.mem_of_mem_filter member)
  have several : ∀ entry ∈ shared, 2 ≤ entry.2.length := by
    rw [← found]
    exact fun entry member => of_decide_eq_true (List.mem_filter.mp member).2
  have restricted := mapM_restricted keeps.1 reached several
  generalize shared.mapM (fun (v, sharing) => restrictVar s v sharing) = step at restricted
  cases step with
  | error notice => exact keeps.failed restricted
  | ok restrictions =>
      apply restrictions_keep keeps
      intro g member
      rcases List.mem_filterMap.mp member with ⟨restriction, among, same⟩
      cases same
      exact restricted g among

end Planning

end RelationalSolver
