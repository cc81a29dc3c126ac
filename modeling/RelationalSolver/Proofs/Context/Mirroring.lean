import RelationalSolver.Proofs.Context.Restriction
import RelationalSolver.Proofs.Unification.Anonymous
import RelationalSolver.Proofs.Unification.Tangles

/-!
# Unification in a context and in its bindings alone

In a context without hooks, unification makes the bindings that it makes in the substitution
alone, as long as no constraint stops it.  The constraints are asked after every binding, but
what they come to in the end depends only on the last bindings: a context unifies two terms
exactly if its substitution does and no stored constraint is violated under the result.
-/

namespace RelationalSolver

namespace Context

open Substitution Engine Constraint FacetKey

variable {ctx next last : Context} {v : Var} {a b t : Term} {as bs : List Term}
variable {unify outer : Context → Term → Term → Engine (Option Context)}

/-- Bindings were made and each of them counted; besides, only constraints may be written. -/
structure Records (ctx next : Context) : Prop where
  aside : Keeps IsAside ctx next
  fewer : ctx.substitution.size ≤ next.substitution.size
  counted : next.bindingsMade =
    ctx.bindingsMade + (next.substitution.size - ctx.substitution.size)

theorem Records.refl (ctx : Context) : Records ctx ctx := ⟨.refl ctx, le_rfl, by simp⟩

theorem Records.trans (earlier : Records ctx next) (later : Records next last) :
    Records ctx last where
  aside := earlier.aside.trans later.aside
  fewer := earlier.fewer.trans later.fewer
  counted := by
    rw [later.counted, earlier.counted]
    have := earlier.fewer
    have := later.fewer
    omega

theorem Records.unhooked (records : Records ctx next) (unhooked : ctx.hooks? = none) :
    next.hooks? = none := (records.aside .hooks trivial).trans unhooked

theorem Records.checked (records : Records ctx next) (checked : ctx.occursCheck = .enabled) :
    next.occursCheck = .enabled :=
  (congrArg (Option.getD · _) (records.aside .unification trivial)).trans checked

theorem Bound.records (bound : Bound v t ctx next) (unbound : ctx.substitution.lookup v = none) :
    Records ctx next := by
  have size := size_insert (t := t) unbound
  refine ⟨bound.aside, ?_, ?_⟩
  · rw [bound.inserted, size]
    exact Nat.le_succ _
  · rw [bound.counted, bound.inserted, size, Nat.add_sub_cancel_left]

/-! ## Side by side -/

/-- If the first computation gives a context, the second gives its bindings. -/
def Mirrors (ctx : Context) (x : Engine (Option Context))
    (y : Except Unending (Option Substitution)) : Prop :=
  Detached x fun result => ∀ next, result = some next →
    y = .ok (some next.substitution) ∧ Records ctx next

theorem mirrors_same (ctx : Context) :
    Mirrors ctx (pure (some ctx)) (.ok (some ctx.substitution)) := by
  apply Detached.pure
  rintro _ ⟨⟩
  exact ⟨rfl, .refl ctx⟩

theorem mirrors_none (y : Except Unending (Option Substitution)) :
    Mirrors ctx (pure none) y := .pure (by simp)

/-- What is unified in a context is unified alike in its bindings. -/
def MirrorsAll (unify : Context → Term → Term → Engine (Option Context))
    (bare : Substitution → Term → Term → Except Unending (Option Substitution)) : Prop :=
  ∀ ctx a b, ctx.hooks? = none → ctx.occursCheck = .enabled → ctx.substitution.Acyclic →
    Mirrors ctx (unify ctx a b) (bare ctx.substitution a b)

section Rounds

variable {bare : Substitution → Term → Term → Except Unending (Option Substitution)}

theorem MirrorsAll.unifyPairs (mirrors : MirrorsAll unify bare)
    (growing : ∀ s a b, s.Acyclic → Growing s (bare s a b)) :
    ∀ (as bs : List Term) (ctx : Context), ctx.hooks? = none → ctx.occursCheck = .enabled →
      ctx.substitution.Acyclic →
      Mirrors ctx (Bindings.unifyPairs unify ctx as bs)
        (Bindings.unifyPairs bare ctx.substitution as bs)
  | [], _, ctx, _, _, _ => mirrors_same ctx
  | _ :: _, [], ctx, _, _, _ => mirrors_same ctx
  | a :: as, b :: bs, ctx, unhooked, checked, acyclic => by
      rw [Bindings.unifyPairs]
      apply (mirrors ctx a b unhooked checked acyclic).bind
      intro result mirrored
      cases result with
      | none => exact mirrors_none _
      | some next =>
          obtain ⟨first, records⟩ := mirrored next rfl
          have acyclicNext := (growing _ a b acyclic next.substitution first).1
          rw [unifyPairs_of_ok first]
          apply (mirrors.unifyPairs growing as bs next (records.unhooked unhooked)
            (records.checked checked) acyclicNext).mono
          intro result rest last found
          exact ⟨(rest last found).1, records.trans (rest last found).2⟩

theorem MirrorsAll.unifyRound (mirrors : MirrorsAll unify bare)
    (growing : ∀ s a b, s.Acyclic → Growing s (bare s a b)) :
    MirrorsAll ((store outer).unifyRound unify)
      ((Substitution.store .enabled).unifyRound bare) := by
  intro ctx a b unhooked checked acyclic
  have walks : ∀ t, (Substitution.store .enabled).walk ctx.substitution t =
      (store outer).walk ctx t := fun _ => rfl
  apply Bindings.unifyRound_abreast _ _ (motive := Mirrors ctx) walks
  · exact fun _ => mirrors_same ctx
  · exact fun _ => mirrors_same ctx
  · intro v t meets
    obtain ⟨unbound, walked⟩ := walked_of_meets acyclic meets
    rw [bindVar_eq outer checked acyclic walked meets.2.1,
      bindVar_enabled acyclic meets.1 walked meets.2.1]
    split
    · exact mirrors_none _
    · have free : ctx.BindsFreely := by simp [BindsFreely, unhooked]
      apply (bindBy_bound free v t).mono
      intro result leaves next found
      have bound := leaves next found
      exact ⟨by rw [bound.inserted], bound.records unbound⟩
  · exact fun f as bs _ _ _ => mirrors.unifyPairs growing as bs ctx unhooked checked acyclic
  · exact fun _ => mirrors_none _

end Rounds

theorem mirrorsAll_unifyWithin (depth : Nat) :
    MirrorsAll (unifyWithin depth) (Substitution.unifyWithin .enabled depth) := by
  induction depth with
  | zero => exact fun _ _ _ _ _ _ => .throw _
  | succ depth ih => exact ih.unifyRound (unifyWithin_growing depth)

/-- Terms that are walked already are unified alike. -/
theorem unifyWithin_walk {s : Substitution} (ends : s.WalksEnd) (check : OccursCheck) (depth : Nat)
    (a b : Term) : Substitution.unifyWithin check depth s (s.walk a) (s.walk b) =
      Substitution.unifyWithin check depth s a b := by
  cases depth with
  | zero => rfl
  | succ depth =>
      have again : ∀ t, (Substitution.store check).walk s (s.walk t) =
          (Substitution.store check).walk s t := fun t => walk_of_walked (ends t)
      simp only [Substitution.unifyWithin_succ, Bindings.unifyRound, again]

theorem Quiet.mirrors_unify (quiet : ctx.Quiet) (acyclic : ctx.substitution.Acyclic) (a b : Term) :
    Mirrors ctx (ctx.unify a b) (ctx.substitution.unify .enabled a b) := by
  rw [Context.unify, quiet.condenseThen_eq, unifyOver_eq, quiet.nodes_eq, unify_eq,
    ← unifyWithin_walk acyclic.walksEnd, Nat.add_assoc]
  exact mirrorsAll_unifyWithin _ ctx _ _ quiet.unhooked quiet.checked acyclic

theorem Quiet.mirrors_unifyAll (quiet : ctx.Quiet) (acyclic : ctx.substitution.Acyclic)
    (as bs : List Term) :
    Mirrors ctx (ctx.unifyAll as bs) (ctx.substitution.unifyAll .enabled as bs) := by
  rw [Context.unifyAll, unifyOver_eq, quiet.nodes_eq, unifyAll_eq, Bindings.unifyLists,
    Bindings.unifyLists, Nat.add_assoc]
  split
  · exact (mirrorsAll_unifyWithin _).unifyPairs (unifyWithin_growing _) as bs ctx quiet.unhooked
      quiet.checked acyclic
  · exact mirrors_none _

/-! ## The constraints -/

/-- No stored constraint is violated under the bindings. -/
def Tolerates (ctx : Context) (s : Substitution) : Prop :=
  ∀ id c, ctx.pending.get? id = some c → c.evaluate .enabled s ≠ .ok .violated

/-- What unification in the context comes to, told from what it comes to in the bindings alone:
it succeeds if no stored constraint is violated under these, has made just these, and has
recorded nothing else. -/
structure Reflects (ctx : Context) (bare : Option Substitution) (result : Option Context) :
    Prop where
  succeeds : result.isSome ↔ ∃ s, bare = some s ∧ ctx.Tolerates s
  bindings : ∀ next, result = some next → bare = some next.substitution
  records : ∀ next, result = some next → ctx.Records next

/-- Solutions permit a constraint exactly if it is not violated. -/
theorem permits_solutions {c : Constraint} {s : Substitution} (acyclic : s.Acyclic)
    (plain : s.WildcardFree) (proper : c.Proper) :
    c.Permits s.solutions ↔ c.evaluate .enabled s ≠ .ok .violated := by
  rw [permits_of_not_guard proper.isGuard_eq, ne_eq, evaluate_eq_violated acyclic plain proper]
  simp

theorem Orderly.tolerates_iff {s : Substitution} (orderly : ctx.Orderly Proper)
    (acyclic : s.Acyclic) (plain : s.WildcardFree) :
    ctx.Tolerates s ↔ ctx.pending.Spares s.solutions :=
  forall_congr' fun _ => forall_congr' fun _ => forall_congr' fun stored =>
    (permits_solutions acyclic plain (orderly.attended.member stored)).symm

/-- A context that is restricted to some solutions, and mirrored by bindings that are
restricted to the same, reflects these. -/
theorem Orderly.reflects (orderly : ctx.Orderly Proper) {new : Set Assignment}
    {bare : Option Substitution} {result : Option Context}
    (solved : ∀ s, bare = some s →
      s.Acyclic ∧ s.WildcardFree ∧ s.solutions = ctx.substitution.solutions ∩ new)
    (restricted : Restricted Proper ctx new result)
    (mirrored : ∀ next, result = some next → bare = some next.substitution ∧ Records ctx next) :
    Reflects ctx bare result where
  succeeds := by
    cases result with
    | none =>
        refine ⟨by simp, ?_⟩
        rintro ⟨s, rfl, tolerated⟩
        obtain ⟨acyclic, plain, same⟩ := solved s rfl
        have spared := (orderly.tolerates_iff acyclic plain).mp tolerated
        have within : s.solutions ⊆ ctx.substitution.solutions ∩ new := same.subset
        exact absurd ⟨⟨_, resolution_mem acyclic⟩, within.trans Set.inter_subset_left, spared⟩
          (restricted _ (within.trans Set.inter_subset_right))
    | some next =>
        obtain ⟨found, _⟩ := mirrored next rfl
        obtain ⟨orderlyNext, _, _, admits⟩ := restricted
        refine ⟨fun _ => ⟨next.substitution, found, ?_⟩, fun _ => rfl⟩
        intro id c stored
        have proper : c.Proper := orderly.attended.member stored
        rw [← permits_solutions orderlyNext.acyclic orderlyNext.plain proper]
        exact (admits _ orderlyNext.admits).2.2 id c stored proper.isGuard_eq
  bindings next found := (mirrored next found).1
  records next found := (mirrored next found).2

theorem Orderly.unify_reflects (orderly : ctx.Orderly Proper) (left : a.WildcardFree)
    (right : b.WildcardFree) :
    ∃ bare result, ctx.substitution.unify .enabled a b = .ok bare ∧
      ctx.unify a b = pure result ∧ Reflects ctx bare result := by
  obtain ⟨bare, outcome, unified⟩ := unify_outcome orderly.acyclic orderly.plain left right
  obtain ⟨result, restricted, returned⟩ := (unify_settles family_proper orderly left right).exists
  refine ⟨bare, result, unified, returned, orderly.reflects ?_ restricted ?_⟩
  · rintro s rfl
    obtain ⟨valid, _, _, solved, _⟩ := outcome
    exact ⟨valid.1, valid.2, solved⟩
  · intro next found
    have mirrors := orderly.quiet.mirrors_unify orderly.acyclic a b
    rw [returned, unified] at mirrors
    obtain ⟨same, records⟩ := mirrors.of_returns (returns_pure result) next found
    exact ⟨Except.ok.inj same, records⟩

theorem Orderly.unifyAll_reflects (orderly : ctx.Orderly Proper) (left : ∀ a ∈ as, a.WildcardFree)
    (right : ∀ b ∈ bs, b.WildcardFree) :
    ∃ bare result, ctx.substitution.unifyAll .enabled as bs = .ok bare ∧
      ctx.unifyAll as bs = pure result ∧ Reflects ctx bare result := by
  obtain ⟨bare, outcome, unified⟩ := unifyAll_outcome orderly.acyclic orderly.plain left right
  obtain ⟨result, restricted, returned⟩ :=
    (unifyAll_settles family_proper orderly left right).exists
  refine ⟨bare, result, unified, returned, orderly.reflects ?_ restricted ?_⟩
  · rintro s rfl
    obtain ⟨valid, _, _, solved, _⟩ := outcome
    exact ⟨valid.1, valid.2, solved⟩
  · intro next found
    have mirrors := orderly.quiet.mirrors_unifyAll orderly.acyclic as bs
    rw [returned, unified] at mirrors
    obtain ⟨same, records⟩ := mirrors.of_returns (returns_pure result) next found
    exact ⟨Except.ok.inj same, records⟩

end Context

namespace Operation

open Context

variable {start ctx : Context} {ops : List Operation}

/-- In a context that equations and constraints were added to, unifying two terms, or two lists
of them, is unifying them in its bindings and asking every stored constraint once. -/
theorem unify_mirrored (blank : start.Blank) (proper : ∀ op ∈ ops, op.Proper)
    (reached : runAll start ops = pure (some ctx)) :
    (∀ a b, a.WildcardFree → b.WildcardFree →
      ∃ bare result, ctx.substitution.unify .enabled a b = .ok bare ∧
        ctx.unify a b = pure result ∧ Reflects ctx bare result) ∧
    ∀ as bs, (∀ a ∈ as, a.WildcardFree) → (∀ b ∈ bs, b.WildcardFree) →
      ∃ bare result, ctx.substitution.unifyAll .enabled as bs = .ok bare ∧
        ctx.unifyAll as bs = pure result ∧ Reflects ctx bare result := by
  obtain ⟨result, added, returned⟩ :=
    (runAll_settles (blank.orderly Constraint.Proper) proper).exists
  cases Engine.pure_injective (reached.symm.trans returned)
  exact ⟨fun _ _ => added.1.unify_reflects, fun _ _ => added.1.unifyAll_reflects⟩

/-- A stored disequality stops one binding that the substitution alone would make, and lets
another one pass, which is counted. -/
theorem unify_mirrored_excluded :
    let x := Var.numbered 1
    let ops : List Operation := [.constrain (.neq (.var x) (.int 1))]
    (∀ op ∈ ops, op.Proper) ∧ ∃ ctx, runAll .checked ops = pure (some ctx) ∧
      ctx.substitution.unify .enabled (.var x) (.int 1) = .ok (some (.insert .empty x (.int 1))) ∧
      ctx.unify (.var x) (.int 1) = pure none ∧
      ∃ next, ctx.unify (.var x) (.int 2) = pure (some next) ∧ next.bindingsMade = 1 := by
  intro x ops
  have proper : ∀ op ∈ ops, op.Proper := by
    intro op member
    rw [List.mem_singleton.mp member]
    exact ⟨by decide, by decide⟩
  let store := ((ConstraintStore.empty.insert (.neq (.var x) (.int 1)) [x]).1).indexUnder 0 []
  let ctx := checked.put .constraints store
  have reached : runAll .checked ops = pure (some ctx) := rfl
  obtain ⟨terms, _⟩ := unify_mirrored blank_checked proper reached
  obtain ⟨bare, result, unified, returned, reflects⟩ :=
    terms (.var x) (.int 1) (by decide) (by decide)
  obtain ⟨bareOther, resultOther, unifiedOther, returnedOther, reflectsOther⟩ :=
    terms (.var x) (.int 2) (by decide) (by decide)
  refine ⟨proper, ctx, reached, rfl, ?_, ?_⟩
  · cases result with
    | none => exact returned
    | some next =>
        obtain ⟨s, found, tolerated⟩ := reflects.succeeds.mp rfl
        subst found
        cases unified
        exact absurd rfl (tolerated 0 (.neq (.var x) (.int 1)) rfl)
  · have tolerated : ctx.Tolerates (.insert .empty x (.int 2)) := by
      intro id c stored
      rw [pending_put, ConstraintStore.get?_indexUnder, ConstraintStore.get?_insert] at stored
      split at stored
      · cases stored
        exact nofun
      · cases stored
    cases unifiedOther
    obtain ⟨next, rfl⟩ :=
      Option.isSome_iff_exists.mp (reflectsOther.succeeds.mpr ⟨_, rfl, tolerated⟩)
    refine ⟨next, returnedOther, ?_⟩
    rw [(reflectsOther.records next rfl).counted,
      ← Option.some.inj (reflectsOther.bindings next rfl)]
    rfl

end Operation

end RelationalSolver
