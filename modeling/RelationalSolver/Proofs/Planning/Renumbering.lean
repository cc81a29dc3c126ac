import Mathlib.Data.List.Forall2
import RelationalSolver.Planning.Pipeline
import RelationalSolver.Proofs.Constraint.Renumbering
import RelationalSolver.Proofs.Planning.Relevance
import RelationalSolver.Proofs.Planning.Staging
import RelationalSolver.Proofs.Session.Renumbering

/-!
# Plans under other numbers

The passes look at the variables of goals only to see which goals share them, so goals under
other numbers are planned in the same way.
-/

namespace RelationalSolver

variable {ρ : ℕ ↪o ℕ} {s other : Substitution} {v : Var}

/-! ## Lists of related items -/

section Lists

variable {α β : Type} {R : α → β → Prop} {items : List α} {others : List β}

/-- Lists that are related item by item are one list of related pairs. -/
theorem exists_pairs (related : List.Forall₂ R items others) :
    ∃ pairs : List {pair : α × β // R pair.1 pair.2},
      pairs.map (·.val.1) = items ∧ pairs.map (·.val.2) = others := by
  induction related with
  | nil => exact ⟨[], rfl, rfl⟩
  | cons here _ ih =>
      obtain ⟨pairs, rfl, rfl⟩ := ih
      exact ⟨⟨(_, _), here⟩ :: pairs, rfl, rfl⟩

theorem any_forall₂ {p : α → Bool} {q : β → Bool} (same : ∀ a b, R a b → q b = p a)
    (related : List.Forall₂ R items others) : others.any q = items.any p := by
  induction related with
  | nil => rfl
  | cons here _ ih => rw [List.any_cons, List.any_cons, ih, same _ _ here]

theorem forall₂_zipIdx {items : List α} {others : List β} (related : List.Forall₂ R items others)
    (start : ℕ) : List.Forall₂ (fun a b => R a.1 b.1 ∧ b.2 = a.2) (items.zipIdx start)
      (others.zipIdx start) := by
  induction related generalizing start with
  | nil => exact .nil
  | cons here _ ih => exact .cons ⟨here, rfl⟩ (ih (start + 1))

theorem foldl_forall₂ {γ δ : Type} {S : γ → δ → Prop} {f : γ → α → γ} {g : δ → β → δ}
    (step : ∀ a b, R a b → ∀ c d, S c d → S (f c a) (g d b))
    (related : List.Forall₂ R items others) {c : γ} {d : δ} (holds : S c d) :
    S (items.foldl f c) (others.foldl g d) := by
  induction related generalizing c d with
  | nil => exact holds
  | cons here _ ih => exact ih (step _ _ here c d holds)

theorem forall₂_filterMap_id {items : List (Option α)} {others : List (Option β)}
    (related : List.Forall₂ (Option.Rel R) items others) :
    List.Forall₂ R (items.filterMap id) (others.filterMap id) := by
  induction related with
  | nil => exact .nil
  | cons here _ ih =>
      cases here with
      | none => exact ih
      | some here => exact .cons here ih

/-- Lists that are compared alike are sorted alike. -/
theorem forall₂_mergeSort {le : α → α → Bool} {leOther : β → β → Bool}
    (same : ∀ a b, R a b → ∀ c d, R c d → leOther b d = le a c)
    (related : List.Forall₂ R items others) :
    List.Forall₂ R (items.mergeSort le) (others.mergeSort leOther) := by
  obtain ⟨pairs, rfl, rfl⟩ := exists_pairs related
  rw [← List.map_mergeSort (r := fun a b => le a.val.1 b.val.1) fun _ _ _ _ => rfl,
    ← List.map_mergeSort (r := fun a b => le a.val.1 b.val.1)
      fun a _ b _ => (same _ _ a.property _ _ b.property).symm,
    List.forall₂_map_left_iff, List.forall₂_map_right_iff, List.forall₂_same]
  exact fun pair _ => pair.property

end Lists

/-! ## Planned goals -/

/-- What is known about the goals is the same but for the numbers of variables. -/
structure PlannedGoal.Renumbers (ρ : ℕ → ℕ) (p other : PlannedGoal) : Prop where
  goal : p.goal.Renumbers ρ other.goal
  vars? : other.vars? = p.vars?.map (·.map (Var.renumber ρ))
  size? : other.size? = p.size?

namespace PlannedGoal.Renumbers

variable {p q : PlannedGoal}

section Reading

variable (same : p.Renumbers ρ q)
include same

theorem vars : q.vars = p.vars.map (Var.renumber ρ) := by
  unfold PlannedGoal.vars
  rw [same.vars?]
  cases p.vars? <;> rfl

theorem isRanked : q.isRanked = p.isRanked := by
  unfold PlannedGoal.isRanked
  rw [same.vars?, same.size?, Option.isSome_map]

theorem mem_vars : v.renumber ρ ∈ q.vars ↔ v ∈ p.vars := by
  rw [same.vars, List.mem_map_of_injective (Var.renumber_injective ρ)]

theorem shares (vars : List Var) : q.shares (vars.map (Var.renumber ρ)) = p.shares vars := by
  unfold PlannedGoal.shares
  rw [same.vars, List.any_map]
  simp only [Function.comp_def, List.mem_map_of_injective (Var.renumber_injective ρ)]

theorem sizeFloat : q.sizeFloat = p.sizeFloat := by
  unfold PlannedGoal.sizeFloat
  rw [same.size?]

end Reading

theorem injected {g gOther : Goal} (same : g.Renumbers ρ gOther) :
    (PlannedGoal.injected g).Renumbers ρ (PlannedGoal.injected gOther) :=
  ⟨same, same.vars?, rfl⟩

/-- The same is found out about goals. -/
theorem inspect {g gOther : Goal} (same : g.Renumbers ρ gOther)
    (renumbers : s.Renumbers ρ other) :
    Coupling.alike.Related (Renumbers ρ) (PlannedGoal.inspect s g)
      (PlannedGoal.inspect other gOther) := by
  unfold PlannedGoal.inspect
  rw [same.bound? renumbers, same.vars?]
  apply Coupling.alike.bind (Coupling.alike_refl _)
  rintro size? _ rfl
  refine Coupling.alike.pure ⟨same, ?_, rfl⟩
  rw [Option.map_map, Option.map_map]
  exact congrArg (g.vars?.map ·) (funext fun vars => renumbers.freeVars_foldl vars [])

end PlannedGoal.Renumbers

/-- The plans are the same but for the numbers of variables. -/
inductive Plan.Renumbers (ρ : ℕ → ℕ) : Plan → Plan → Prop
  | feasible {goals others : List PlannedGoal} :
      List.Forall₂ (PlannedGoal.Renumbers ρ) goals others →
      Plan.Renumbers ρ (.feasible goals) (.feasible others)
  | failed : Plan.Renumbers ρ .failed .failed

namespace Plan.Renumbers

variable {plan planOther : Plan} (same : plan.Renumbers ρ planOther)
include same

theorem toGoals : List.Forall₂ (Goal.Renumbers ρ) plan.toGoals planOther.toGoals := by
  cases same with
  | failed => exact .cons .fail .nil
  | feasible goals =>
      unfold Plan.toGoals
      rw [List.forall₂_map_left_iff, List.forall₂_map_right_iff]
      exact goals.imp fun _ _ same => same.goal

theorem length_toList : planOther.toList.length = plan.toList.length := by
  cases same with
  | failed => rfl
  | feasible goals => exact goals.length_eq.symm

theorem isFailed : planOther.isFailed = plan.isFailed := by cases same <;> rfl

end Plan.Renumbers

/-- Both computations give related results, or notices that differ in numbers only. -/
def Coupling.noticing (ρ : ℕ → ℕ) : Coupling (Except Notice) where
  Related R x y := (∃ a b, R a b ∧ x = .ok a ∧ y = .ok b) ∨
    ∃ notice, x = .error notice ∧ y = .error (notice.renumber ρ)
  pure holds := .inl ⟨_, _, holds, rfl, rfl⟩
  bind := by
    rintro _ _ _ _ _ _ _ _ f g (⟨a, b, holds, rfl, rfl⟩ | ⟨notice, rfl, rfl⟩) later
    · exact later a b holds
    · exact .inr ⟨notice, rfl, rfl⟩

namespace Planning

variable {goals others run runOther : List PlannedGoal}

/-! ## Chaining -/

section Chaining

variable {κ : Type} (le : κ → κ → Bool)

/-- Goals of one rank. -/
def RankedAlike (ρ : ℕ → ℕ) (a b : Ranked κ) : Prop := b.1 = a.1 ∧ a.2.Renumbers ρ b.2

variable {ranked rankedOther : List (Ranked κ)}

theorem firstLeast_forall₂ {α β : Type} {R : α → β → Prop} {less : α → α → Bool}
    {lessOther : β → β → Bool}
    (same : ∀ a b, R a b → ∀ c d, R c d → lessOther b d = less a c) {items : List α}
    {others : List β} (related : List.Forall₂ R items others) :
    Option.Rel R (firstLeast less items) (firstLeast lessOther others) := by
  induction related with
  | nil => exact .none
  | @cons a b _ _ here _ ih =>
      rw [firstLeast, firstLeast]
      generalize firstLeast less _ = best at *
      generalize firstLeast lessOther _ = bestOther at *
      cases ih with
      | none => exact .some here
      | @some c d there =>
          dsimp only
          rw [same a b here c d there]
          cases less a c with
          | true => exact .some here
          | false => exact .some there

theorem mayFollow_renumber (placed : List Var)
    (alike : List.Forall₂ (RankedAlike ρ) ranked rankedOther) {p q : PlannedGoal}
    (same : p.Renumbers ρ q) :
    mayFollow (placed.map (Var.renumber ρ)) rankedOther q = mayFollow placed ranked p := by
  rw [mayFollow, mayFollow, same.shares]
  rw [any_forall₂ (fun a b here => here.2.shares placed) alike]

theorem bringForward_forall₂ {α β : Type} {R : α → β → Prop} (position : Nat) {items : List α}
    {others : List β} (related : List.Forall₂ R items others) :
    List.Forall₂ R (bringForward position items) (bringForward position others) := by
  cases position with
  | zero => exact related
  | succ position =>
      cases related with
      | nil => exact .nil
      | @cons first firstOther rest restOther here there =>
          have dropped := List.forall₂_drop position there
          rw [bringForward, bringForward]
          cases left : rest.drop position <;> cases right : restOther.drop position <;>
            rw [left, right] at dropped
          · exact .cons here there
          · cases dropped
          · cases dropped
          · cases dropped with
            | cons chosen after =>
                exact List.rel_append (.cons chosen (List.forall₂_take position there))
                  (.cons here after)

theorem chooseNext_renumber (placed : List Var)
    (alike : List.Forall₂ (RankedAlike ρ) ranked rankedOther) :
    List.Forall₂ (RankedAlike ρ) (chooseNext le placed ranked)
      (chooseNext le (placed.map (Var.renumber ρ)) rankedOther) := by
  have candidates : List.Forall₂ (fun a b : Ranked κ × ℕ => RankedAlike ρ a.1 b.1 ∧ b.2 = a.2)
      (ranked.zipIdx.filter fun a => mayFollow placed ranked a.1.2)
      (rankedOther.zipIdx.filter fun b =>
        mayFollow (placed.map (Var.renumber ρ)) rankedOther b.1.2) :=
    List.rel_filter (fun a b here => Bool.eq_iff_iff.mp
      (mayFollow_renumber placed alike here.1.2).symm) (forall₂_zipIdx alike 0)
  have same : ∀ a b : Ranked κ × ℕ, RankedAlike ρ a.1 b.1 ∧ b.2 = a.2 →
      ∀ c d : Ranked κ × ℕ, RankedAlike ρ c.1 d.1 ∧ d.2 = c.2 →
        le b.1.1 d.1.1 = le a.1.1 c.1.1 :=
    fun a b here c d there => by rw [here.1.1, there.1.1]
  have chosen := firstLeast_forall₂ same candidates
  unfold chooseNext
  dsimp only
  generalize firstLeast _ _ = choice at *
  generalize firstLeast _ _ = choiceOther at *
  cases chosen with
  | none => exact alike
  | some here =>
      dsimp only
      rw [here.2]
      exact bringForward_forall₂ _ alike

theorem arrange_renumber (count : Nat) (placed : List Var)
    (alike : List.Forall₂ (RankedAlike ρ) ranked rankedOther) :
    List.Forall₂ (RankedAlike ρ) (arrange le count placed ranked)
      (arrange le count (placed.map (Var.renumber ρ)) rankedOther) := by
  induction count generalizing placed ranked rankedOther with
  | zero => exact alike
  | succ count ih =>
      have next := chooseNext_renumber le placed alike
      rw [arrange, arrange]
      generalize chooseNext le placed ranked = chosen at *
      generalize chooseNext le (placed.map (Var.renumber ρ)) rankedOther = chosenOther at *
      cases next with
      | nil => exact .nil
      | cons here there =>
          refine .cons here ?_
          rw [here.2.vars, appendAllNew_map (Var.renumber_injective ρ)]
          exact ih _ there

theorem chainOrder_renumber (alike : List.Forall₂ (RankedAlike ρ) ranked rankedOther) :
    List.Forall₂ (RankedAlike ρ) (chainOrder le ranked) (chainOrder le rankedOther) := by
  have sorted : List.Forall₂ (RankedAlike ρ) (ranked.mergeSort fun a b => le a.1 b.1)
      (rankedOther.mergeSort fun a b => le a.1 b.1) :=
    forall₂_mergeSort (fun a b here c d there => by rw [here.1, there.1]) alike
  rw [chainOrder_eq_greedyOrder, chainOrder_eq_greedyOrder]
  unfold greedyOrder
  generalize ranked.mergeSort _ = order at *
  generalize rankedOther.mergeSort _ = orderOther at *
  cases sorted with
  | nil => exact .nil
  | cons here there =>
      refine .cons here ?_
      rw [here.2.vars, there.length_eq]
      exact arrange_renumber le _ _ there

end Chaining

theorem mentionCount_renumber (alike : List.Forall₂ (PlannedGoal.Renumbers ρ) goals others)
    (v : Var) : mentionCount others (v.renumber ρ) = mentionCount goals v := by
  unfold mentionCount
  refine (List.Forall₂.length_eq (R := PlannedGoal.Renumbers ρ) ?_).symm
  refine List.rel_filter (fun p q same => ?_) alike
  simpa using same.mem_vars.symm

theorem entangledRank_renumber (alike : List.Forall₂ (PlannedGoal.Renumbers ρ) goals others)
    {p q : PlannedGoal} (same : p.Renumbers ρ q) :
    entangledRank others q = entangledRank goals p := by
  unfold entangledRank
  rw [same.vars, same.sizeFloat, List.foldl_map]
  simp only [mentionCount_renumber alike]

theorem chainSharedVars_renumber (alike : List.Forall₂ (PlannedGoal.Renumbers ρ) goals others) :
    List.Forall₂ (PlannedGoal.Renumbers ρ) (chainSharedVars goals) (chainSharedVars others) := by
  have ranked : List.Forall₂ (PlannedGoal.Renumbers ρ) (goals.filter (·.isRanked))
      (others.filter (·.isRanked)) :=
    List.rel_filter (fun p q same => (Bool.eq_iff_iff.mp same.isRanked).symm) alike
  have unranked : List.Forall₂ (PlannedGoal.Renumbers ρ) (goals.filter (! ·.isRanked))
      (others.filter (! ·.isRanked)) :=
    List.rel_filter (fun p q same => by simp [same.isRanked]) alike
  unfold chainSharedVars
  rw [List.partition_eq_filter_filter, List.partition_eq_filter_filter]
  refine List.rel_append (List.forall₂_map_left_iff.mpr (List.forall₂_map_right_iff.mpr ?_))
    unranked
  refine (chainOrder_renumber rankLE ?_).imp fun _ _ same => same.2
  rw [List.forall₂_map_left_iff, List.forall₂_map_right_iff]
  exact ranked.imp fun p q same => ⟨entangledRank_renumber ranked same, same⟩

/-! ## Guarding -/

theorem closeRun_renumber (alike : List.Forall₂ (PlannedGoal.Renumbers ρ) run runOther) :
    (Coupling.noticing ρ).Related (List.Forall₂ (PlannedGoal.Renumbers ρ)) (closeRun run)
      (closeRun runOther) := by
  have sizes : runOther.filterMap (·.size?) = run.filterMap (·.size?) := by
    induction alike with
    | nil => rfl
    | cons here _ ih => rw [List.filterMap_cons, List.filterMap_cons, here.size?, ih]
  have goals : List.Forall₂ (Goal.Renumbers ρ) (run.map (·.goal)) (runOther.map (·.goal)) := by
    rw [List.forall₂_map_left_iff, List.forall₂_map_right_iff]
    exact alike.imp fun _ _ same => same.goal
  unfold closeRun
  rw [sizes, ← alike.length_eq]
  split
  · exact .inr ⟨_, rfl, rfl⟩
  · split
    · exact (Coupling.noticing ρ).pure
        (.cons (.injected (.constrain (.cardinality goals))) alike)
    · exact (Coupling.noticing ρ).pure alike

theorem guardRuns_renumber (alike : List.Forall₂ (PlannedGoal.Renumbers ρ) goals others)
    (begun : List.Forall₂ (PlannedGoal.Renumbers ρ) run runOther) (vars : List Var) :
    (Coupling.noticing ρ).Related (List.Forall₂ (PlannedGoal.Renumbers ρ))
      (guardRuns run vars goals) (guardRuns runOther (vars.map (Var.renumber ρ)) others) := by
  induction alike generalizing run runOther vars with
  | nil => exact closeRun_renumber begun
  | @cons p q goals others here there ih =>
      have isEmpty : runOther.isEmpty = run.isEmpty := by cases begun <;> rfl
      rw [guardRuns, guardRuns, here.isRanked, isEmpty, here.shares, here.vars]
      split
      · rw [appendAllNew_map (Var.renumber_injective ρ)]
        exact ih (List.rel_append begun (.cons here .nil)) _
      · apply (Coupling.noticing ρ).bind (closeRun_renumber begun)
        intro closed closedOther guarded
        have goesOn : ∀ rest restOther, List.Forall₂ (PlannedGoal.Renumbers ρ) rest restOther →
            (Coupling.noticing ρ).Related (List.Forall₂ (PlannedGoal.Renumbers ρ))
              (pure (closed ++ rest)) (pure (closedOther ++ restOther)) :=
          fun _ _ rest => (Coupling.noticing ρ).pure (List.rel_append guarded rest)
        dsimp only
        split
        · exact (Coupling.noticing ρ).bind (ih (.cons here .nil) p.vars) goesOn
        · apply (Coupling.noticing ρ).bind _ goesOn
          exact (Coupling.noticing ρ).map (ih .nil []) fun _ _ => .cons here

/-! ## Restricting -/

/-- The same goals share a variable. -/
def SharersAlike (ρ : ℕ → ℕ) (a b : Var × List PlannedGoal) : Prop :=
  b.1 = a.1.renumber ρ ∧ List.Forall₂ (PlannedGoal.Renumbers ρ) a.2 b.2

theorem addSharer_renumber {p q : PlannedGoal} (same : p.Renumbers ρ q) (v : Var)
    {table tableOther : List (Var × List PlannedGoal)}
    (alike : List.Forall₂ (SharersAlike ρ) table tableOther) :
    List.Forall₂ (SharersAlike ρ) (addSharer p v table)
      (addSharer q (v.renumber ρ) tableOther) := by
  induction alike with
  | nil => exact .cons ⟨rfl, .cons same .nil⟩ .nil
  | @cons a b _ _ here there ih =>
      obtain ⟨w, sharing⟩ := a
      obtain ⟨_, sharingOther⟩ := b
      obtain ⟨rfl, goals⟩ := here
      rw [addSharer, addSharer]
      simp only [Var.renumber_inj]
      split
      · exact .cons ⟨rfl, List.rel_append goals (.cons same .nil)⟩ there
      · exact .cons ⟨rfl, goals⟩ ih

theorem sharers_renumber (alike : List.Forall₂ (PlannedGoal.Renumbers ρ) goals others) :
    List.Forall₂ (SharersAlike ρ) (sharers goals) (sharers others) := by
  have applied : List.Forall₂ (PlannedGoal.Renumbers ρ)
      (goals.filter (·.goal.asApplication?.isSome))
      (others.filter (·.goal.asApplication?.isSome)) :=
    List.rel_filter
      (fun p q same => (Bool.eq_iff_iff.mp same.goal.isSome_asApplication?).symm) alike
  refine foldl_forall₂ (fun p q same table tableOther tables => ?_) applied .nil
  have vars : List.Forall₂ (fun v w => w = v.renumber ρ) p.vars q.vars := by
    rw [same.vars, List.forall₂_map_right_iff, List.forall₂_same]
    exact fun _ _ => rfl
  refine foldl_forall₂ (fun v _ renamed table tableOther tables => ?_) vars tables
  rw [renamed]
  exact addSharer_renumber same v tables

end Planning

namespace Application.Renumbers

variable {a aOther : Application}

/-- The values that a variable can take are the same. -/
theorem domainOf (same : a.Renumbers ρ aOther) (renumbers : s.Renumbers ρ other) (v : Var) :
    Option.Rel (TermSet.Renumbers ρ) (a.domainOf v s) (aOther.domainOf (v.renumber ρ) other) := by
  unfold Application.domainOf
  rw [same.columnsOf renumbers, same.relation]
  cases found : (a.columnsOf v s).mapM a.relation.source.columnValues with
  | none => exact .none
  | some domains =>
      have fixed : ∀ values ∈ domains, values.Renumbers ρ values := by
        intro values member
        obtain ⟨column, _, known⟩ := Application.exists_column_of_mem found member
        exact TermSet.renumbers_self (same.fixed.columns column values known)
      cases domains with
      | nil => exact .none
      | cons first rest =>
          rw [List.forall_mem_cons] at fixed
          obtain ⟨values, others⟩ := fixed
          refine .some ?_
          clear found
          induction rest generalizing first with
          | nil => exact values
          | cons next rest ih =>
              rw [List.forall_mem_cons] at others
              have both : (first.inter next).Renumbers ρ (first.inter next) :=
                values.inter others.1
              exact ih _ both others.2

end Application.Renumbers

namespace Planning

variable {goals others : List PlannedGoal}

theorem commonDomain_renumber (renumbers : s.Renumbers ρ other) (v : Var)
    (alike : List.Forall₂ (PlannedGoal.Renumbers ρ) goals others)
    {domain domainOther : Option TermSet}
    (known : Option.Rel (TermSet.Renumbers ρ) domain domainOther) :
    Option.Rel (Option.Rel (TermSet.Renumbers ρ)) (commonDomain s v domain goals)
      (commonDomain other (v.renumber ρ) domainOther others) := by
  induction alike generalizing domain domainOther with
  | nil => exact .some known
  | @cons p q rest restOther here _ ih =>
      have found : Option.Rel (TermSet.Renumbers ρ)
          (p.goal.asApplication?.bind (·.domainOf v s))
          (q.goal.asApplication?.bind (·.domainOf (v.renumber ρ) other)) := by
        have applied := here.goal.asApplication?
        generalize p.goal.asApplication? = a at *
        generalize q.goal.asApplication? = b at *
        cases applied with
        | none => exact .none
        | some same => exact same.domainOf renumbers v
      have goesOn : ∀ next nextOther : TermSet, next.Renumbers ρ nextOther →
          Option.Rel (Option.Rel (TermSet.Renumbers ρ))
            (if next.isEmpty then none else commonDomain s v (some next) rest)
            (if nextOther.isEmpty then none
              else commonDomain other (v.renumber ρ) (some nextOther) restOther) := by
        intro next nextOther same
        rw [same.isEmpty_eq]
        split
        · exact .none
        · exact ih (.some same)
      rw [commonDomain, commonDomain]
      generalize p.goal.asApplication?.bind _ = values at *
      generalize q.goal.asApplication?.bind _ = valuesOther at *
      cases found with
      | none => exact ih known
      | some values =>
          cases known with
          | none => exact goesOn _ _ values
          | some before => exact goesOn _ _ (before.inter values)

theorem restrictVar_renumber (renumbers : s.Renumbers ρ other) (v : Var)
    (alike : List.Forall₂ (PlannedGoal.Renumbers ρ) goals others) :
    (Coupling.noticing ρ).Related (Option.Rel (Goal.Renumbers ρ)) (restrictVar s v goals)
      (restrictVar other (v.renumber ρ) others) := by
  have empty : (others.any fun p => p.size?.any (·.isZero)) =
      goals.any fun p => p.size?.any (·.isZero) :=
    any_forall₂ (fun p q same => by rw [same.size?]) alike
  have sorted : List.Forall₂ (PlannedGoal.Renumbers ρ)
      (goals.mergeSort fun p q => rankLE p.sizeFloat q.sizeFloat)
      (others.mergeSort fun p q => rankLE p.sizeFloat q.sizeFloat) :=
    forall₂_mergeSort (fun _ _ here _ _ there => by rw [here.sizeFloat, there.sizeFloat]) alike
  have common := commonDomain_renumber renumbers v sorted .none
  unfold restrictVar
  rw [empty]
  split
  · exact .inr ⟨_, rfl, rfl⟩
  · generalize commonDomain s v _ _ = domain at *
    generalize commonDomain other _ _ _ = domainOther at *
    cases common with
    | none => exact .inr ⟨_, rfl, rfl⟩
    | some common =>
        cases common with
        | none => exact (Coupling.noticing ρ).pure .none
        | some values => exact (Coupling.noticing ρ).pure (.some (.constrain (.inDomain v values)))

theorem relevance_renumber (renumbers : s.Renumbers ρ other)
    (alike : List.Forall₂ (PlannedGoal.Renumbers ρ) goals others) :
    (Coupling.noticing ρ).Related (List.Forall₂ (PlannedGoal.Renumbers ρ)) (relevance s goals)
      (relevance other others) := by
  have shared : List.Forall₂ (SharersAlike ρ)
      ((sharers goals).filter fun shared => 2 ≤ shared.2.length)
      ((sharers others).filter fun shared => 2 ≤ shared.2.length) :=
    List.rel_filter (fun a b same => by simp [same.2.length_eq]) (sharers_renumber alike)
  unfold relevance
  refine (Coupling.noticing ρ).bind ((Coupling.noticing ρ).mapM_forall₂
    (R := Option.Rel (Goal.Renumbers ρ)) ?_ shared) ?_
  · rintro ⟨v, sharing⟩ ⟨_, sharingOther⟩ ⟨rfl, same⟩
    exact restrictVar_renumber renumbers v same
  · intro found foundOther restrictions
    refine (Coupling.noticing ρ).pure (List.rel_append ?_ alike)
    rw [List.forall₂_map_left_iff, List.forall₂_map_right_iff]
    exact (forall₂_filterMap_id restrictions).imp fun _ _ => .injected

/-! ## Random row orders -/

theorem shuffleRows_renumber (gen : Random.Generator)
    (alike : List.Forall₂ (PlannedGoal.Renumbers ρ) goals others) :
    List.Forall₂ (PlannedGoal.Renumbers ρ) (shuffleRows gen goals) (shuffleRows gen others) := by
  induction alike generalizing gen with
  | nil => exact .nil
  | @cons p q _ _ here _ ih =>
      have applied := here.goal.asApplication?
      rw [shuffleRows, shuffleRows]
      generalize p.goal.asApplication? = a at *
      generalize q.goal.asApplication? = b at *
      cases applied with
      | none => exact .cons here (ih gen)
      | some same =>
          refine .cons ⟨.relation (same.withOrder _), here.vars?, here.size?⟩ (ih _)

end Planning

/-! ## Pipelines -/

theorem Pass.outcome_renumber {x y : Except Notice (List PlannedGoal)}
    (same : (Coupling.noticing ρ).Related (List.Forall₂ (PlannedGoal.Renumbers ρ)) x y) :
    (outcome x).1.Renumbers ρ (outcome y).1 ∧
      (outcome y).2 = (outcome x).2.map (·.renumber ρ) := by
  rcases same with ⟨goals, others, alike, rfl, rfl⟩ | ⟨notice, rfl, rfl⟩
  · exact ⟨.feasible alike, rfl⟩
  · exact ⟨.failed, rfl⟩

/-- A pass makes the same of goals that are the same but for numbers. -/
theorem Pass.apply_renumber (renumbers : s.Renumbers ρ other) (bindings : Nat) (pass : Pass)
    {goals others : List PlannedGoal}
    (alike : List.Forall₂ (PlannedGoal.Renumbers ρ) goals others) :
    (pass.apply ⟨s, bindings⟩ goals).1.Renumbers ρ (pass.apply ⟨other, bindings⟩ others).1 ∧
      (pass.apply ⟨other, bindings⟩ others).2 =
        (pass.apply ⟨s, bindings⟩ goals).2.map (·.renumber ρ) := by
  cases pass with
  | chainSharedVars => exact ⟨.feasible (Planning.chainSharedVars_renumber alike), rfl⟩
  | relevance => exact outcome_renumber (Planning.relevance_renumber renumbers alike)
  | cardinality => exact outcome_renumber (Planning.guardRuns_renumber alike .nil [])
  | randomizeOrder seed => exact ⟨.feasible (Planning.shuffleRows_renumber _ alike), rfl⟩
  | reverse => exact ⟨.feasible (List.rel_reverse alike), rfl⟩
  | refuse => exact ⟨.failed, rfl⟩

namespace Pipeline

theorem run_renumber (renumbers : s.Renumbers ρ other) (bindings : Nat) (passes : Pipeline)
    {plan planOther : Plan} (alike : plan.Renumbers ρ planOther) :
    (run ⟨s, bindings⟩ passes plan).1.Renumbers ρ (run ⟨other, bindings⟩ passes planOther).1 ∧
      (run ⟨other, bindings⟩ passes planOther).2 =
        (run ⟨s, bindings⟩ passes plan).2.map (·.renumber ρ) := by
  induction passes generalizing plan planOther with
  | nil => exact ⟨alike, rfl⟩
  | cons pass passes ih =>
      cases alike with
      | failed => exact ⟨.failed, rfl⟩
      | feasible goals =>
          obtain ⟨next, notice⟩ := pass.apply_renumber renumbers bindings goals
          obtain ⟨final, notices⟩ := ih next
          refine ⟨final, ?_⟩
          rw [run, run]
          dsimp only
          rw [notice, notices, List.map_append]
          congr 1
          cases (pass.apply _ _).2 <;> rfl

/-- Conjunctions that are the same but for numbers are planned in the same way. -/
theorem plan_renumber (renumbers : s.Renumbers ρ other) (bindings : Nat) (passes : Pipeline)
    {goals others : List Goal} (alike : List.Forall₂ (Goal.Renumbers ρ) goals others) :
    Coupling.alike.Related (fun planned plannedOther =>
        List.Forall₂ (Goal.Renumbers ρ) planned.1 plannedOther.1 ∧
          plannedOther.2 = planned.2.map (·.renumber ρ))
      (plan ⟨s, bindings⟩ passes goals) (plan ⟨other, bindings⟩ passes others) := by
  unfold plan Plan.inspect
  refine Coupling.alike.bind (R := Plan.Renumbers ρ) ?_ ?_
  · refine Coupling.alike.map (Coupling.alike.mapM_forall₂ ?_ alike) fun _ _ => .feasible
    exact fun g gOther same => PlannedGoal.Renumbers.inspect same renumbers
  · intro inspected inspectedOther same
    obtain ⟨final, notices⟩ := run_renumber renumbers bindings passes same
    refine Coupling.alike.pure ⟨final.toGoals, ?_⟩
    dsimp only
    rw [notices, List.map_append, ← alike.length_eq, final.length_toList, final.isFailed]
    rfl

end Pipeline

end RelationalSolver
