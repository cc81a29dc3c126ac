import RelationalSolver.Planning.Pipeline
import RelationalSolver.Proofs.Constraint.Verdicts
import RelationalSolver.Proofs.Goal.Leaves
import RelationalSolver.Proofs.Session.Engine

/-!
# Plans that keep the answers

Goals are rearranged if they come in another order, their rows come in another
order, or constraints are added that the goals imply under the present bindings.
The ways through the goals stay the same then, but for these constraints.

What is known about the goals of a plan is right under the bindings that were looked
at.  A plan keeps the answers if its goals are those of the conjunction, rearranged,
and if it fails only where no assignment is left.
-/

namespace RelationalSolver

open Engine (except_bind_eq_ok except_mapM_eq_ok)

variable {s : Substitution} {θ : Assignment} {c : Constraint} {g h : Goal}
variable {goals before after last : List Goal}

/-! ## Rearranged goals -/

/-- A proper goal, or a constraint that may be a guard of proper goals. -/
def Goal.Guarded (g : Goal) : Prop := g.Proper ∨ ∃ c, g = .constrain c ∧ c.Guarded

theorem Goal.Guarded.admits {called : String → List Term → Multiset Leaf} {ℓ : Leaf}
    (guarded : g.Guarded) (member : ℓ ∈ g.leaves called) (solves : θ ∈ ℓ.solutions) :
    g.Admits θ := by
  rcases guarded with proper | ⟨c, rfl, _⟩
  · exact admits_of_mem_leaves g ℓ proper member solves
  · trivial

theorem Goal.admits_of_mem_leavesOfAll {called : String → List Term → Multiset Leaf}
    {goals : List Goal} (guarded : ∀ g ∈ goals, g.Guarded) {ℓ : Leaf}
    (member : ℓ ∈ leavesOfAll called goals) (solves : θ ∈ ℓ.solutions) :
    ∀ g ∈ goals, g.Admits θ := by
  induction goals generalizing ℓ with
  | nil => exact List.forall_mem_nil _
  | cons g goals ih =>
      rcases List.forall_mem_cons.mp guarded with ⟨here, there⟩
      rcases Leaf.mem_combine.mp member with ⟨m, first, k, rest, rfl⟩
      exact List.forall_mem_cons.mpr ⟨here.admits first solves.1, ih there rest solves.2⟩

/-- No goal excludes the assignment. -/
def Goal.Admit (goals : List Goal) (θ : Assignment) : Prop := ∀ g ∈ goals, g.Admits θ

namespace Planning

/-- The constraints of the leaf are implied by the goals under the bindings. -/
structure Implied (s : Substitution) (goals : List Goal) (extra : Leaf) : Prop where
  solutions : extra.solutions = Set.univ
  permitted : ∀ Θ ⊆ s.solutions, Θ.Nonempty → (∀ θ ∈ Θ, Goal.Admit goals θ) → Θ ∈ extra.permitted
  promised : ∀ Θ ⊆ s.solutions, Θ.Nonempty → (∀ θ ∈ Θ, Goal.Admit goals θ) → Θ ∈ extra.promised

/-- The goals after are those before, rearranged. -/
structure Rearranges (s : Substitution) (before after : List Goal) : Prop where
  guarded : ∀ g ∈ after, g.Guarded
  admits : ∀ θ, Goal.Admit after θ ↔ Goal.Admit before θ
  leaves : ∃ extra, Implied s before extra ∧ ∀ called,
    Goal.leavesOfAll called after = (Goal.leavesOfAll called before).map extra.and

theorem Implied.all (s : Substitution) (goals : List Goal) : Implied s goals .all :=
  ⟨rfl, fun _ _ _ _ => trivial, fun _ _ _ _ => trivial⟩

theorem Implied.and {extra more : Leaf} (one : Implied s before extra)
    (two : Implied s before more) : Implied s before (extra.and more) where
  solutions := by rw [Leaf.and, one.solutions, two.solutions, Set.univ_inter]
  permitted Θ within nonempty admitted :=
    ⟨one.permitted Θ within nonempty admitted, two.permitted Θ within nonempty admitted⟩
  promised Θ within nonempty admitted :=
    ⟨one.promised Θ within nonempty admitted, two.promised Θ within nonempty admitted⟩

theorem Implied.congr {extra : Leaf} (implied : Implied s before extra)
    (same : ∀ θ, Goal.Admit after θ → Goal.Admit before θ) : Implied s after extra where
  solutions := implied.solutions
  permitted Θ within nonempty admitted :=
    implied.permitted Θ within nonempty fun θ member => same θ (admitted θ member)
  promised Θ within nonempty admitted :=
    implied.promised Θ within nonempty fun θ member => same θ (admitted θ member)

theorem admit_append : Goal.Admit (before ++ after) θ ↔ Goal.Admit before θ ∧ Goal.Admit after θ :=
  List.forall_mem_append

namespace Rearranges

/-- Only the order changes. -/
theorem of_perm (guarded : ∀ g ∈ before, g.Guarded) (same : after.Perm before) :
    Rearranges s before after where
  guarded := fun g member => guarded g (same.mem_iff.mp member)
  admits := fun θ => by simp only [Goal.Admit, same.mem_iff]
  leaves := by
    refine ⟨.all, .all s before, ?_⟩
    intro called
    rw [Goal.leavesOfAll_perm called same]
    exact ((Multiset.map_congr rfl fun ℓ _ => Leaf.all_and ℓ).trans (Multiset.map_id _)).symm

theorem refl (guarded : ∀ g ∈ before, g.Guarded) : Rearranges s before before :=
  of_perm guarded (.refl _)

theorem trans (first : Rearranges s before after) (second : Rearranges s after last) :
    Rearranges s before last where
  guarded := second.guarded
  admits := fun θ => (second.admits θ).trans (first.admits θ)
  leaves := by
    rcases first.leaves with ⟨extra, implied, same⟩
    rcases second.leaves with ⟨more, impliedMore, sameMore⟩
    refine ⟨more.and extra, (impliedMore.congr fun θ => (first.admits θ).mpr).and implied, ?_⟩
    intro called
    rw [sameMore, same, Multiset.map_map]
    exact Multiset.map_congr rfl fun ℓ _ => (Leaf.and_assoc more extra ℓ).symm

theorem append {others rest : List Goal} (front : Rearranges s before after)
    (back : Rearranges s others rest) : Rearranges s (before ++ others) (after ++ rest) where
  guarded := List.forall_mem_append.mpr ⟨front.guarded, back.guarded⟩
  admits := fun θ => by rw [admit_append, admit_append, front.admits, back.admits]
  leaves := by
    rcases front.leaves with ⟨extra, implied, same⟩
    rcases back.leaves with ⟨more, impliedMore, sameMore⟩
    refine ⟨extra.and more, ?_, ?_⟩
    · exact (implied.congr fun θ admitted => (admit_append.mp admitted).1).and
        (impliedMore.congr fun θ admitted => (admit_append.mp admitted).2)
    · intro called
      rw [Goal.leavesOfAll_append, same, sameMore, Leaf.map_and_combine, Leaf.combine_comm,
        Leaf.map_and_combine, Multiset.map_map, Goal.leavesOfAll_append,
        Leaf.combine_comm (Goal.leavesOfAll called others)]
      exact Multiset.map_congr rfl fun ℓ _ => (Leaf.and_assoc extra more ℓ).symm

/-- A goal is put in the place of one with the same ways through it. -/
theorem singleton (guarded : h.Guarded) (admits : ∀ θ, h.Admits θ ↔ g.Admits θ)
    (same : ∀ called, h.leaves called = g.leaves called) : Rearranges s [g] [h] where
  guarded := List.forall_mem_singleton.mpr guarded
  admits := fun θ => by simp only [Goal.Admit, List.forall_mem_singleton, admits]
  leaves := by
    refine ⟨.all, .all s [g], ?_⟩
    intro called
    rw [Goal.leavesOfAll_singleton, Goal.leavesOfAll_singleton, same]
    exact ((Multiset.map_congr rfl fun ℓ _ => Leaf.all_and ℓ).trans (Multiset.map_id _)).symm

/-- A constraint that the goals imply is put in front of them. -/
theorem constrain (guarded : ∀ g ∈ before, g.Guarded) (member : c.Guarded)
    (implied : ∀ Θ ⊆ s.solutions, Θ.Nonempty → (∀ θ ∈ Θ, Goal.Admit before θ) → c.Permits Θ) :
    Rearranges s before (.constrain c :: before) where
  guarded := List.forall_mem_cons.mpr ⟨.inr ⟨c, rfl, member⟩, guarded⟩
  admits := fun θ => by simp [Goal.Admit, Goal.Admits]
  leaves := by
    refine ⟨.ofConstraint c, ⟨rfl, ?_, ?_⟩, ?_⟩
    · exact fun Θ within nonempty admitted _ => implied Θ within nonempty admitted
    · exact fun Θ within nonempty admitted _ => implied Θ within nonempty admitted
    · intro called
      rw [Goal.leavesOfAll, Goal.leaves, Leaf.singleton_combine]

end Rearranges

end Planning

/-! ## Plans -/

/-- What is known about the goal is right under the bindings. -/
structure PlannedGoal.Sound (s : Substitution) (p : PlannedGoal) : Prop where
  guarded : p.goal.Guarded
  proper : ∀ b, p.size? = some b → p.goal.Proper
  zero : ∀ b, p.size? = some b → b.isZero = true → ∀ θ ∈ s.solutions, ¬ p.goal.Admits θ
  named : p.goal.asApplication?.isSome = true → ∀ v ∈ p.vars, v ≠ .wildcard

/-- No assignment under which the bindings hold is left to the goals. -/
def Goal.Excluded (s : Substitution) (goals : List Goal) : Prop :=
  ∀ θ ∈ s.solutions, ¬ Goal.Admit goals θ

theorem Goal.Excluded.append_right {others : List Goal} (excluded : Goal.Excluded s goals) :
    Goal.Excluded s (goals ++ others) :=
  fun θ solves admitted => excluded θ solves (Planning.admit_append.mp admitted).1

theorem Goal.Excluded.append_left {others : List Goal} (excluded : Goal.Excluded s goals) :
    Goal.Excluded s (others ++ goals) :=
  fun θ solves admitted => excluded θ solves (Planning.admit_append.mp admitted).2

/-- The plan has the answers of the conjunction of the goals. -/
def Plan.Keeps (s : Substitution) (before : List Goal) : Plan → Prop
  | .feasible ps => (∀ p ∈ ps, p.Sound s) ∧ Planning.Rearranges s before (ps.map (·.goal))
  | .failed => Goal.Excluded s before

/-! ## Inspection -/

theorem Goal.Guarded.proper_of_isSized {g : Goal} (guarded : g.Guarded)
    (sized : g.isSized = true) : g.Proper := by
  rcases guarded with proper | ⟨c, rfl, _⟩
  · exact proper
  · cases sized

theorem PlannedGoal.reached_named {vars : List Var} {v : Var}
    (member : v ∈ PlannedGoal.reached s vars) : v ≠ .wildcard := by
  rcases mem_foldl_appendAllNew.mp member with none | ⟨w, _, free⟩
  · cases none
  · exact (Term.mem_vars.mp free).2

theorem PlannedGoal.inspect_sound {g : Goal} {p : PlannedGoal} (acyclic : s.Acyclic)
    (guarded : g.Guarded) (inspected : PlannedGoal.inspect s g = .ok p) :
    p.Sound s ∧ p.goal = g := by
  have named : ∀ v ∈ (g.vars?.map (PlannedGoal.reached s)).getD [], v ≠ .wildcard := by
    intro v member
    cases reports : g.vars? with
    | none =>
        rw [reports] at member
        cases member
    | some vars =>
        rw [reports] at member
        exact reached_named member
  rw [PlannedGoal.inspect, Goal.bound?] at inspected
  split at inspected
  · rename_i sized
    have proper := guarded.proper_of_isSized sized
    cases bounded : g.bound s with
    | error e =>
        rw [bounded] at inspected
        cases inspected
    | ok bound =>
        rw [bounded] at inspected
        cases inspected
        refine ⟨⟨guarded, fun _ _ => proper, ?_, fun _ => named⟩, rfl⟩
        intro b same zero θ solves
        cases same
        exact Goal.not_admits_of_bound acyclic solves g bound proper bounded zero
  · cases inspected
    exact ⟨⟨guarded, nofun, nofun, fun _ => named⟩, rfl⟩

theorem Plan.inspect_eq_ok {plan : Plan} : Plan.inspect s goals = .ok plan ↔
    ∃ ps, List.Forall₂ (fun g p => PlannedGoal.inspect s g = .ok p) goals ps ∧
      plan = .feasible ps := by
  simp only [Plan.inspect, map_eq_pure_bind, except_bind_eq_ok, except_mapM_eq_ok]
  simp [pure, Except.pure, eq_comm]

/-- The goals are inspected as they are, and what is found out is right. -/
theorem Plan.inspect_keeps {plan : Plan} (acyclic : s.Acyclic) (guarded : ∀ g ∈ goals, g.Guarded)
    (inspected : Plan.inspect s goals = .ok plan) : plan.Keeps s goals := by
  rcases inspect_eq_ok.mp inspected with ⟨ps, each, rfl⟩
  clear inspected
  have found : (∀ p ∈ ps, p.Sound s) ∧ ps.map (·.goal) = goals := by
    induction each with
    | nil => exact ⟨nofun, rfl⟩
    | cons first _ ih =>
        rcases List.forall_mem_cons.mp guarded with ⟨here, there⟩
        rcases PlannedGoal.inspect_sound acyclic here first with ⟨sound, same⟩
        rcases ih there with ⟨sounds, sames⟩
        exact ⟨List.forall_mem_cons.mpr ⟨sound, sounds⟩, by rw [List.map_cons, same, sames]⟩
  refine ⟨found.1, ?_⟩
  rw [found.2]
  exact .refl guarded

/-! ## Steps of planning -/

namespace Plan.Keeps

variable {ps qs : List PlannedGoal}

/-- A step that rearranges the goals keeps the answers. -/
theorem feasible (keeps : (Plan.feasible ps).Keeps s before) (sounds : ∀ q ∈ qs, q.Sound s)
    (rearranges : Planning.Rearranges s (ps.map (·.goal)) (qs.map (·.goal))) :
    (Plan.feasible qs).Keeps s before := ⟨sounds, keeps.2.trans rearranges⟩

/-- So does a step that only changes the order. -/
theorem of_perm (keeps : (Plan.feasible ps).Keeps s before) (same : qs.Perm ps) :
    (Plan.feasible qs).Keeps s before :=
  keeps.feasible (fun q member => keeps.1 q (same.mem_iff.mp member))
    (.of_perm keeps.2.guarded (same.map _))

/-- A step may fail if nothing is left to the goals of the plan. -/
theorem failed (keeps : (Plan.feasible ps).Keeps s before)
    (excluded : Goal.Excluded s (ps.map (·.goal))) : Plan.failed.Keeps s before :=
  fun θ solves admitted => excluded θ solves ((keeps.2.admits θ).mpr admitted)

end Plan.Keeps

/-- Nothing is left to goals of which one is known to have no answers. -/
theorem Goal.excluded_of_zero {ps : List PlannedGoal} {p : PlannedGoal} {b : SizeBound}
    (sound : p.Sound s) (member : p ∈ ps) (bounded : p.size? = some b) (zero : b.isZero = true) :
    Goal.Excluded s (ps.map (·.goal)) :=
  fun θ solves admitted =>
    sound.zero b bounded zero θ solves (admitted _ (List.mem_map_of_mem member))

/-- A constraint that is added is known to be one, and nothing else. -/
theorem PlannedGoal.injected_sound {c : Constraint} (guarded : c.Guarded) :
    (PlannedGoal.injected (.constrain c)).Sound s :=
  ⟨.inr ⟨c, rfl, guarded⟩, nofun, nofun, nofun⟩

end RelationalSolver

/-! ## Random row orders

A relation comes to the same rows in whatever order they are visited. -/

namespace RelationalSolver.Planning

variable {s : Substitution} {ps before : List PlannedGoal}

theorem replaced_withOrder_sound {p : PlannedGoal} {a : Application} (order : RowOrder)
    (sound : p.Sound s) (asks : p.goal.asApplication? = some a) :
    (p.replaced (.relation (a.withOrder order))).Sound s ∧
      Rearranges s [p.goal] [.relation (a.withOrder order)] := by
  rcases p with ⟨g, vars?, size?⟩
  cases g with
  | relation b =>
      cases asks
      have guarded : (Goal.relation (a.withOrder order)).Guarded := by
        rcases sound.guarded with proper | ⟨c, other, _⟩
        · exact .inl proper
        · cases other
      constructor
      · exact ⟨guarded, sound.proper, sound.zero, fun _ => sound.named rfl⟩
      · exact .singleton guarded (fun _ => Iff.rfl) fun _ => rfl
  | _ => cases asks

theorem shuffleRows_keeps (gen : Random.Generator) (sounds : ∀ p ∈ ps, p.Sound s) :
    (∀ q ∈ shuffleRows gen ps, q.Sound s) ∧
      Rearranges s (ps.map (·.goal)) ((shuffleRows gen ps).map (·.goal)) := by
  induction ps generalizing gen with
  | nil => exact ⟨nofun, .refl nofun⟩
  | cons p ps ih =>
      rcases List.forall_mem_cons.mp sounds with ⟨here, there⟩
      rw [shuffleRows]
      split
      · rcases ih gen there with ⟨later, rearranges⟩
        have same : Rearranges s [p.goal] [p.goal] :=
          .refl (List.forall_mem_singleton.mpr here.guarded)
        exact ⟨List.forall_mem_cons.mpr ⟨here, later⟩, same.append rearranges⟩
      · rename_i a asks
        rcases gen.doubleWord with ⟨seed, next⟩
        rcases ih next there with ⟨later, rearranges⟩
        rcases replaced_withOrder_sound (.shuffled seed) here asks with ⟨sound, same⟩
        exact ⟨List.forall_mem_cons.mpr ⟨sound, later⟩, same.append rearranges⟩

theorem randomizeOrder_keeps {goals : List Goal} (seed : UInt64) (bindings : Nat)
    (keeps : (Plan.feasible ps).Keeps s goals) :
    (Plan.feasible (randomizeOrder seed bindings ps)).Keeps s goals := by
  rcases shuffleRows_keeps (.ofSeed (planningSeed seed bindings)) keeps.1 with ⟨sounds, rearranges⟩
  exact keeps.feasible sounds rearranges

end RelationalSolver.Planning
