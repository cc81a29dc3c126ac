import RelationalSolver.Proofs.Constraint.Stability
import RelationalSolver.Proofs.Context.Restriction
import RelationalSolver.Proofs.Substitution.Condensing
import RelationalSolver.Proofs.Unification.Lockstep

/-!
# Unification only loses solutions

Whatever hooks are registered, a successful unification of wildcard-free terms leaves acyclic
bindings without wildcards, and no solution that was not there before: bindings are added, and
condensing a chain changes no solution.  All that is asked of the hooks is that they unify
wildcard-free terms as well.  So what a constraint is found to be lasts.
-/

namespace RelationalSolver

namespace Substitution

variable {s next last other : Substitution} {v : Var} {t value : Term} {chain : List Var}

theorem Narrows.refl (acyclic : s.Acyclic) (plain : s.WildcardFree) : s.Narrows s :=
  ⟨acyclic, plain, subset_rfl⟩

theorem Narrows.trans (earlier : s.Narrows next) (later : next.Narrows last) : s.Narrows last :=
  ⟨later.acyclic, later.plain, later.within.trans earlier.within⟩

theorem Narrows.insert (acyclic : s.Acyclic) (plain : s.WildcardFree)
    (unbound : s.lookup v = none) (named : v ≠ .wildcard) (free : t.WildcardFree)
    (apart : (s.resolve t).mentions v = false) : s.Narrows (s.insert v t) where
  acyclic := acyclic.insert_apart apart unbound
  plain := wildcardFree_insert plain named free
  within := solutions_subset_of_extends (extends_insert t unbound)

/-- Solutions are told by what the variables resolve to. -/
theorem mem_solutions_iff (acyclic : s.Acyclic) {θ : Assignment} :
    θ ∈ s.solutions ↔ ∀ v, (s.resolve (.var v)).mapVars θ = θ v := by
  constructor
  · exact fun solves v => mapVars_resolve acyclic solves (.var v)
  · intro values
    have same : (fun v => (s.resolve (.var v)).mapVars θ) = θ := funext values
    exact same ▸ mapVars_resolution_mem acyclic θ

theorem Matches.solutions_eq (alike : s.Matches other) (acyclic : s.Acyclic)
    (acyclicOther : other.Acyclic) : other.solutions = s.solutions := by
  ext θ
  simp only [mem_solutions_iff acyclic, mem_solutions_iff acyclicOther,
    alike.resolve acyclic acyclicOther]

theorem wildcardFree_condense (plain : s.WildcardFree) (free : value.WildcardFree)
    (named : ∀ v ∈ chain, v ≠ .wildcard) : (s.condense chain value).WildcardFree := by
  unfold condense
  induction chain generalizing s with
  | nil => exact plain
  | cons v chain ih =>
      rw [List.forall_mem_cons] at named
      rw [List.foldl_cons]
      split
      · exact ih plain named.2
      · exact ih (wildcardFree_insert plain named.1 free) named.2

/-- Condensing changes neither walks nor solutions. -/
theorem Narrows.condense (acyclic : s.Acyclic) (plain : s.WildcardFree)
    (free : value.WildcardFree)
    (passed : ∀ v ∈ chain, s.lookup v ≠ none ∧ s.walk (.var v) = value) :
    s.Narrows (s.condense chain value) ∧ s.Matches (s.condense chain value) := by
  obtain ⟨alike, acyclicNext⟩ := condense_matches acyclic passed
  have named : ∀ v ∈ chain, v ≠ .wildcard := fun v member => plain.ne_wildcard (passed v member).1
  refine ⟨⟨acyclicNext, wildcardFree_condense plain free named, ?_⟩, alike⟩
  exact (alike.solutions_eq acyclic acyclicNext).subset

end Substitution

/-- The terms that a bind hook unifies are free of wildcards. -/
def BindAction.WildcardFree : BindAction → Prop
  | .unify a b => a.WildcardFree ∧ b.WildcardFree
  | _ => True

namespace Context

open Substitution Engine

variable {ctx next last : Context} {v : Var} {a b t value : Term} {as bs : List Term}
variable {chain : List Var}

/-- The occurrence test is made, the bindings are acyclic, and neither they nor the terms that
bind hooks unify hold wildcards. -/
structure Regular (ctx : Context) : Prop where
  checked : ctx.occursCheck = .enabled
  acyclic : ctx.substitution.Acyclic
  plain : ctx.substitution.WildcardFree
  hooks : ∀ registry, ctx.hooks? = some registry →
    ∀ hook ∈ registry.bindHooks, hook.action.WildcardFree

/-- The context is regular, and no solutions were added. -/
structure Narrows (ctx next : Context) : Prop where
  regular : next.Regular
  narrows : ctx.substitution.Narrows next.substitution

theorem Narrows.refl (regular : ctx.Regular) : ctx.Narrows ctx :=
  ⟨regular, .refl regular.acyclic regular.plain⟩

theorem Narrows.trans (earlier : ctx.Narrows next) (later : next.Narrows last) :
    ctx.Narrows last :=
  ⟨later.regular, earlier.narrows.trans later.narrows⟩

instance : IsTrans Context Narrows := ⟨fun _ _ _ => Narrows.trans⟩

/-- Nothing that matters for solutions is written. -/
abbrev SameMeaning : Context → Context → Prop :=
  Keeps fun key => key.IsFixed ∨ key = .substitutions

theorem Regular.narrows_of_sameFixed (regular : ctx.Regular) (same : ctx.SameFixed next)
    (narrows : ctx.substitution.Narrows next.substitution) : ctx.Narrows next where
  regular :=
    { checked := (congrArg (Option.getD · _) (same .unification trivial)).trans regular.checked
      acyclic := narrows.acyclic
      plain := narrows.plain
      hooks := fun registry found =>
        regular.hooks registry ((same .hooks trivial).symm.trans found) }
  narrows := narrows

theorem Regular.narrows_of_same (regular : ctx.Regular) (same : SameMeaning ctx next) :
    ctx.Narrows next := by
  have bindings : next.substitution = ctx.substitution :=
    congrArg (Option.getD · _) (same .substitutions (.inr rfl))
  apply regular.narrows_of_sameFixed (same.mono fun _ => .inl)
  rw [bindings]
  exact .refl regular.acyclic regular.plain

theorem Regular.walk_wildcardFree (regular : ctx.Regular) (free : t.WildcardFree) :
    (ctx.walk t).WildcardFree :=
  walk_mem Term.WildcardFree (fun v t bound => (regular.plain v t bound).2) free

theorem Regular.constrain (regular : ctx.Regular) (c : Constraint) :
    Detached (ctx.constrain c) (Leaves Narrows ctx) := by
  have constrains : Detached (ctx.constrain c) (Leaves SameMeaning ctx) :=
    constrain_keeps (by simp [FacetKey.IsFixed]) c
  exact constrains.mono fun _ leaves next found => regular.narrows_of_same (leaves next found)

/-! ## Walk hooks -/

/-- No solutions were added, and walks end as they did. -/
structure NarrowsAlike (ctx next : Context) : Prop where
  narrows : ctx.Narrows next
  alike : ctx.substitution.Matches next.substitution

theorem NarrowsAlike.refl (regular : ctx.Regular) : ctx.NarrowsAlike ctx :=
  ⟨.refl regular, .refl regular.acyclic.walksEnd⟩

theorem NarrowsAlike.trans (earlier : ctx.NarrowsAlike next) (later : next.NarrowsAlike last) :
    ctx.NarrowsAlike last :=
  ⟨earlier.narrows.trans later.narrows, earlier.alike.trans later.alike⟩

theorem Regular.condense (regular : ctx.Regular) (free : value.WildcardFree)
    (passed : ∀ v ∈ chain, ctx.substitution.lookup v ≠ none ∧ ctx.walk (.var v) = value) :
    Detached (ctx.condense value chain) ctx.NarrowsAlike := by
  obtain ⟨narrows, alike⟩ := Substitution.Narrows.condense regular.acyclic regular.plain free passed
  have stored : Detached (ctx.set .substitutions (ctx.substitution.condense chain value))
      ctx.NarrowsAlike := by
    apply Detached.orCrash
    intro next success
    have holds : next.substitution = ctx.substitution.condense chain value :=
      congrArg (Option.getD · _) (get?_of_trySet success)
    refine ⟨regular.narrows_of_sameFixed (keeps_of_trySet id success) ?_, ?_⟩
    · exact holds ▸ narrows
    · exact holds ▸ alike
  apply stored.bind
  intro bound condensed
  have counts : Detached (bound.bump "condensed") (SameMeaning bound) :=
    bump_keeps (by simp [FacetKey.IsFixed]) _
  apply counts.bind
  intro counted same
  apply (fire_detached _ _).bind
  intro _ _
  apply Detached.pure
  have bindings : counted.substitution = bound.substitution :=
    congrArg (Option.getD · _) (same .substitutions (.inr rfl))
  exact ⟨condensed.narrows.trans (condensed.narrows.regular.narrows_of_same same),
    bindings ▸ condensed.alike⟩

theorem Regular.runWalkHooks (regular : ctx.Regular) (free : value.WildcardFree)
    (passed : ∀ v ∈ chain, ctx.substitution.lookup v ≠ none ∧ ctx.walk (.var v) = value)
    (hooks : List WalkHook) :
    Detached (ctx.runWalkHooks value chain hooks) ctx.NarrowsAlike := by
  induction hooks generalizing ctx with
  | nil => exact .pure (.refl regular)
  | cons hook hooks ih =>
      rw [Context.runWalkHooks]
      split
      · apply (regular.condense free passed).bind
        intro next condensed
        apply (ih condensed.narrows.regular ?_).mono fun _ => condensed.trans
        intro v member
        have here := passed v member
        exact ⟨mt condensed.alike.lookup_eq_none_iff.mp here.1,
          (condensed.alike.walk (.var v)).trans here.2⟩
      · exact ih regular passed

theorem Regular.walkCondensed (regular : ctx.Regular) (free : t.WildcardFree) :
    Detached (ctx.walkCondensed t) fun result =>
      ctx.NarrowsAlike result.1 ∧ result.2.WildcardFree := by
  have walked := regular.walk_wildcardFree free
  rw [Context.walkCondensed]
  split
  · exact .pure ⟨.refl regular, walked⟩
  · have value := ctx.substitution.walkChain_fst t
    have passed := fun v => mem_walkChainWithin (v := v)
      (regular.acyclic.walksEnd t : ctx.substitution.Walked (ctx.substitution.walk t))
    dsimp only
    split
    · exact .pure ⟨.refl regular, value ▸ walked⟩
    · rw [value]
      apply (regular.runWalkHooks walked passed _).bind
      exact fun next narrowed => .pure ⟨narrowed, walked⟩

/-! ## Bind hooks -/

/-- A way to unify wildcard-free terms in regular contexts that adds no solutions. -/
def NarrowsAll (unify : Context → Term → Term → Engine (Option Context)) : Prop :=
  ∀ ctx a b, Regular ctx → a.WildcardFree → b.WildcardFree →
    Detached (unify ctx a b) (Leaves Narrows ctx)

section Rounds

variable {unify outer : Context → Term → Term → Engine (Option Context)}

theorem NarrowsAll.condenseThen (narrows : NarrowsAll unify) : NarrowsAll (condenseThen unify) := by
  intro ctx a b regular left right
  apply (regular.walkCondensed left).bind
  rintro ⟨next, walked⟩ ⟨first, freeLeft⟩
  apply (first.narrows.regular.walkCondensed right).bind
  rintro ⟨last, walkedRight⟩ ⟨second, freeRight⟩
  exact (narrows last _ _ second.narrows.regular freeLeft freeRight).mono fun _ =>
    .of_related (first.trans second).narrows

theorem Regular.runAction (regular : ctx.Regular) (narrows : NarrowsAll unify)
    {action : BindAction} (free : action.WildcardFree) :
    Detached (ctx.runAction unify action) (Leaves Narrows ctx) := by
  have same : ∀ next, SameMeaning ctx next → Leaves Narrows ctx (some next) :=
    fun next same => leaves_some (regular.narrows_of_same same)
  have custom : ∀ {facet : CustomFacet} {value : Int},
      Detached (some <$> ofCollision (ctx.trySet (.custom facet) value)) (Leaves Narrows ctx) :=
    (Detached.ofCollision fun _ => keeps_of_trySet (by simp [FacetKey.IsFixed])).map same
  cases action with
  | reject => exact .pure leaves_none
  | bump name => exact (bump_keeps (by simp [FacetKey.IsFixed]) name).map same
  | setFacet facet value => exact custom
  | addToFacet facet amount => exact custom
  | unify a b => exact narrows ctx a b regular free.1 free.2
  | constrain c => exact regular.constrain c

theorem Regular.runBindHooks (regular : ctx.Regular) (narrows : NarrowsAll unify) (v : Var)
    (t : Term) {hooks : List BindHook} (free : ∀ hook ∈ hooks, hook.action.WildcardFree) :
    Detached (runBindHooks unify v t ctx hooks) (Leaves Narrows ctx) := by
  induction hooks generalizing ctx with
  | nil => exact .pure (leaves_some (.refl regular))
  | cons hook hooks ih =>
      rw [List.forall_mem_cons] at free
      rw [Context.runBindHooks]
      split
      · apply (regular.runAction narrows free.1).bind
        intro result leaves
        cases result with
        | none => exact .pure leaves_none
        | some next =>
            have first := leaves next rfl
            exact (ih first.regular free.2).mono fun _ => .of_related first
      · exact ih regular free.2

theorem Regular.bindBy (regular : ctx.Regular) (narrows : NarrowsAll unify)
    (unbound : ctx.substitution.lookup v = none) (named : v ≠ .wildcard) (free : t.WildcardFree)
    (apart : (ctx.substitution.resolve t).mentions v = false) :
    Detached (Context.bindBy unify ctx v t) (Leaves Narrows ctx) := by
  apply bindBy_of_bound leaves_none
  intro next bound
  have recorded : ctx.Narrows next := by
    apply regular.narrows_of_sameFixed (bound.aside.mono fun _ => FacetKey.IsFixed.isAside)
    rw [bound.inserted]
    exact .insert regular.acyclic regular.plain unbound named free apart
  split
  · exact .pure (leaves_some recorded)
  · rename_i registry found
    exact (recorded.regular.runBindHooks narrows v t (recorded.regular.hooks registry found)).mono
      fun _ => .of_related recorded

/-! ## Unification -/

theorem NarrowsAll.unifyPairs (narrows : NarrowsAll unify) : ∀ (as bs : List Term) (ctx : Context),
    ctx.Regular → (∀ a ∈ as, a.WildcardFree) → (∀ b ∈ bs, b.WildcardFree) →
    Detached (Bindings.unifyPairs unify ctx as bs) (Leaves Narrows ctx)
  | [], _, ctx, regular, _, _ => .pure (leaves_some (.refl regular))
  | _ :: _, [], ctx, regular, _, _ => .pure (leaves_some (.refl regular))
  | a :: as, b :: bs, ctx, regular, left, right => by
      rw [List.forall_mem_cons] at left right
      rw [Bindings.unifyPairs]
      apply (narrows ctx a b regular left.1 right.1).bind
      intro result leaves
      cases result with
      | none => exact .pure leaves_none
      | some next =>
          have first := leaves next rfl
          exact (narrows.unifyPairs as bs next first.regular left.2 right.2).mono fun _ =>
            .of_related first

theorem NarrowsAll.unifyRound (narrows : NarrowsAll unify) (further : NarrowsAll outer) :
    NarrowsAll ((store outer).unifyRound unify) := by
  intro ctx a b regular left right
  have walks : ∀ t, (store outer).walk ctx t = ctx.walk t := fun _ => rfl
  have freeLeft := regular.walk_wildcardFree left
  have freeRight := regular.walk_wildcardFree right
  apply Bindings.unifyRound_cases (motive := fun x => Detached x (Leaves Narrows ctx))
  · exact fun _ => .pure (leaves_some (.refl regular))
  · exact fun _ => .pure (leaves_some (.refl regular))
  · intro v t meets
    obtain ⟨unbound, walked⟩ := walked_of_meets regular.acyclic meets
    have free : t.WildcardFree := meets.of_walks freeLeft freeRight
    rw [bindVar_eq outer regular.checked regular.acyclic walked meets.2.1]
    split
    · exact .pure leaves_none
    · rename_i outside
      exact regular.bindBy further unbound meets.1 free (Bool.eq_false_of_not_eq_true outside)
  · intro f as bs atLeft atRight _
    rw [walks] at atLeft atRight
    exact narrows.unifyPairs as bs ctx regular (fun _ => (atLeft ▸ freeLeft).arg)
      (fun _ => (atRight ▸ freeRight).arg)
  · exact fun _ => .pure leaves_none

end Rounds

theorem narrowsAll_unifyWithin (depth : Nat) : NarrowsAll (unifyWithin depth) := by
  induction depth with
  | zero => exact fun _ _ _ _ _ _ => .throw _
  | succ depth ih => exact ih.unifyRound ih.condenseThen

theorem Regular.unify (regular : ctx.Regular) (left : a.WildcardFree) (right : b.WildcardFree) :
    Detached (ctx.unify a b) (Leaves Narrows ctx) := by
  rw [Context.unify, unifyOver_eq]
  exact (narrowsAll_unifyWithin _).condenseThen ctx a b regular left right

theorem Regular.unifyAll (regular : ctx.Regular) (left : ∀ a ∈ as, a.WildcardFree)
    (right : ∀ b ∈ bs, b.WildcardFree) :
    Detached (ctx.unifyAll as bs) (Leaves Narrows ctx) := by
  rw [Context.unifyAll, unifyOver_eq, Bindings.unifyLists]
  split
  · exact (narrowsAll_unifyWithin _).unifyPairs as bs ctx regular left right
  · exact .pure leaves_none

theorem Regular.runAll (regular : ctx.Regular) {ops : List Operation}
    (free : ∀ op ∈ ops, op.WildcardFree) :
    Detached (Operation.runAll ctx ops) (Leaves Narrows ctx) := by
  induction ops generalizing ctx with
  | nil => exact .pure (leaves_some (.refl regular))
  | cons op ops ih =>
      rw [List.forall_mem_cons] at free
      have runs : Detached (op.run ctx) (Leaves Narrows ctx) := by
        cases op with
        | unify a b => exact regular.unify free.1.1 free.1.2
        | constrain c => exact regular.constrain c
      apply runs.bind
      intro result leaves
      cases result with
      | none => exact .pure leaves_none
      | some next =>
          have first := leaves next rfl
          exact (ih first.regular free.2).mono fun _ => .of_related first

/-- The second context comes from the first by successful unifications of wildcard-free
terms. -/
inductive Develops (ctx : Context) : Context → Prop where
  | refl : Develops ctx ctx
  | unify {next last : Context} {a b : Term} (before : Develops ctx next) (left : a.WildcardFree)
      (right : b.WildcardFree) (returned : Returns (next.unify a b) (some last)) :
      Develops ctx last
  | unifyAll {next last : Context} {as bs : List Term} (before : Develops ctx next)
      (left : ∀ a ∈ as, a.WildcardFree) (right : ∀ b ∈ bs, b.WildcardFree)
      (returned : Returns (next.unifyAll as bs) (some last)) : Develops ctx last

theorem Develops.narrows (developed : ctx.Develops next) (regular : ctx.Regular) :
    ctx.Narrows next := by
  induction developed with
  | refl => exact .refl regular
  | unify before left right returned ih =>
      exact ih.trans ((ih.regular.unify left right).of_returns returned _ rfl)
  | unifyAll before left right returned ih =>
      exact ih.trans ((ih.regular.unifyAll left right).of_returns returned _ rfl)

/-! ## Verdicts -/

theorem evaluate_eq_pure (checked : ctx.occursCheck = .enabled) {c : Constraint}
    {verdict : Verdict} : ctx.evaluate c = pure verdict ↔
      c.evaluate .enabled ctx.substitution = .ok verdict := by
  rw [evaluate, checked, ofBounded_eq_pure]

/-- Unification takes no verdict back: what is satisfied or violated stays so, and a constraint
and what takes its place are satisfied together and violated together from then on. -/
theorem verdicts_last (regular : ctx.Regular) {c : Constraint} (proper : c.Proper)
    (developed : ctx.Develops next) :
    (ctx.evaluate c = pure .satisfied → next.evaluate c = pure .satisfied) ∧
    (ctx.evaluate c = pure .violated → next.evaluate c = pure .violated) ∧
    ∀ d, ctx.evaluate c = pure (.simplified d) →
      (next.evaluate d = pure .satisfied ↔ next.evaluate c = pure .satisfied) ∧
      (next.evaluate d = pure .violated ↔ next.evaluate c = pure .violated) := by
  obtain ⟨regularNext, narrows⟩ := developed.narrows regular
  simp only [evaluate_eq_pure regular.checked, evaluate_eq_pure regularNext.checked]
  have lasts : ∀ {verdict}, c.evaluate .enabled ctx.substitution = .ok verdict →
      Constraint.Lasts next.substitution c verdict :=
    Constraint.evaluate_lasts regular.acyclic regular.plain proper narrows
  exact ⟨lasts, lasts, fun _ => lasts⟩

theorem regular_checked : checked.Regular where
  checked := rfl
  acyclic := acyclic_empty
  plain := wildcardFree_empty
  hooks := nofun

/-- A member that can no longer be met is dropped, and the binding that meets the other one
violates the constraint and what took its place. -/
theorem verdicts_last_simplified :
    let x := Var.numbered 1
    let f (t : Term) : Term := .compound "f" [t]
    let c : Constraint := .notIn ⟨f (.var x), [.int 1, f (.int 2)]⟩
    let d : Constraint := .notIn ⟨f (.var x), [f (.int 2)]⟩
    checked.Regular ∧ c.Proper ∧ checked.evaluate c = pure (.simplified d) ∧
      ∃ next, checked.Develops next ∧ next.evaluate c = pure .violated ∧
        next.evaluate d = pure .violated := by
  intro x f c d
  obtain ⟨next, unified, violated⟩ : ∃ next,
      checked.unify (.var x) (.int 2) = pure (some next) ∧ next.evaluate c = pure .violated :=
    ⟨_, rfl, rfl⟩
  have proper : c.Proper := ⟨by decide, by decide⟩
  have developed : checked.Develops next :=
    .unify .refl (by decide) (by decide) (unified ▸ returns_pure (some next))
  have simplified : checked.evaluate c = pure (.simplified d) := rfl
  have last := verdicts_last regular_checked proper developed
  exact ⟨regular_checked, proper, simplified, next, developed, violated,
    (last.2.2 d simplified).2.mpr violated⟩

/-- A wildcard in a binding agrees with everything that it meets, each time anew: what could not
be equal is found equal. -/
theorem verdicts_taken_back :
    let x := Var.numbered 1
    let g (t : Term) : Term := .compound "g" [t]
    let c : Constraint :=
      .neq (.compound "f" [.var x, .var x]) (.compound "f" [g (.int 1), g (.int 2)])
    checked.Regular ∧ c.Proper ∧ checked.evaluate c = pure .satisfied ∧
      ∃ next, checked.unify (.var x) (g (.var .wildcard)) = pure (some next) ∧
        next.evaluate c = pure .violated := by
  intro x g c
  exact ⟨regular_checked, ⟨by decide, by decide⟩, rfl, _, rfl, rfl⟩

end Context

end RelationalSolver
