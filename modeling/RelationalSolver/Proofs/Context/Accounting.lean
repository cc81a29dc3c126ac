import RelationalSolver.Proofs.Context.Confinement
import RelationalSolver.Proofs.Context.Quiet

/-!
# The bindings of a search, step by step

Unification walks both of its terms before it binds anything, and a chain of variables is
condensed only to its end.  So in whatever order equations and constraints are added, walks
come to an end, the wildcard stays unbound, bound variables stay bound, and every binding is
counted once.  The occurrence test plays no part in this, and cycles through compounds do no
harm; bind hooks are left out, since they may count as they like.
-/

namespace RelationalSolver

namespace Substitution

variable {s next last : Substitution} {v : Var} {t : Term}

/-- What is bound stays bound, and what walks to an atom or a compound still walks to it. -/
structure Continues (s next : Substitution) : Prop where
  bound : ∀ v, s.lookup v ≠ none → next.lookup v ≠ none
  values : ∀ t, (∀ v, s.walk t ≠ .var v) → next.walk t = s.walk t

theorem Continues.refl (s : Substitution) : s.Continues s := ⟨fun _ => id, fun _ _ => rfl⟩

theorem Continues.trans (earlier : s.Continues next) (later : next.Continues last) :
    s.Continues last where
  bound v here := later.bound v (earlier.bound v here)
  values t value := by
    have same := earlier.values t value
    rw [later.values t (same ▸ value), same]

theorem Matches.continues (alike : s.Matches next) : s.Continues next where
  bound _ := mt alike.lookup_eq_none_iff.mp
  values t _ := alike.walk t

theorem Orderly.walk_walk (orderly : s.Orderly) (t : Term) : s.walk (s.walk t) = s.walk t :=
  walk_of_walked (orderly.ends t)

theorem Orderly.of_matches (orderly : s.Orderly) (alike : s.Matches next) : next.Orderly :=
  ⟨alike.endsOther, alike.lookup_eq_none_iff.mpr orderly.anonymous⟩

/-- The wildcard is not bound, nor is a variable to what leads back to it. -/
theorem extend_eq_some (extended : s.extend v t = some next) :
    v ≠ .wildcard ∧ s.walk t ≠ .var v ∧ next = s.insert v t := by
  rw [extend] at extended
  split at extended
  · cases extended
  · rename_i allowed
    rw [not_or] at allowed
    exact ⟨allowed.1, allowed.2, (Option.some.inj extended).symm⟩

theorem Orderly.extend (orderly : s.Orderly) (unbound : s.lookup v = none)
    (extended : s.extend v t = some next) :
    next.Orderly ∧ next.size = s.size + 1 ∧ s.Continues next := by
  obtain ⟨named, apart, rfl⟩ := extend_eq_some extended
  refine ⟨⟨orderly.ends.insert unbound apart, ?_⟩, size_insert unbound, ?_, ?_⟩
  · rw [lookup_insert, if_neg named, orderly.anonymous]
  · intro w bound
    rw [lookup_insert]
    split
    · exact Option.some_ne_none t
    · exact bound
  · intro r value
    obtain ⟨count, chain⟩ := orderly.ends.exists_ends r
    exact (chain.insert_of_ne unbound (value v) t).walk_eq

end Substitution

namespace Context

open Engine FacetKey Substitution

variable {ctx next last : Context} {v : Var} {t value : Term} {chain : List Var}
  {unify : Context → Term → Term → Engine (Option Context)}

/-- Walks come to an end, and as many bindings are counted as there are bound variables. -/
structure Accounted (ctx : Context) : Prop where
  free : ctx.BindsFreely
  orderly : ctx.substitution.Orderly
  counted : ctx.bindingsMade = ctx.substitution.size

/-- The bindings of an accounted context are continued in another one. -/
def Proceeds (ctx next : Context) : Prop :=
  ctx.Accounted → next.Accounted ∧ ctx.substitution.Continues next.substitution

theorem Proceeds.trans (earlier : ctx.Proceeds next) (later : next.Proceeds last) :
    ctx.Proceeds last := by
  intro accounted
  obtain ⟨here, continued⟩ := earlier accounted
  obtain ⟨there, continuedLater⟩ := later here
  exact ⟨there, continued.trans continuedLater⟩

instance : Std.Refl Proceeds := ⟨fun ctx accounted => ⟨accounted, .refl ctx.substitution⟩⟩

instance : IsTrans Context Proceeds := ⟨fun _ _ _ => Proceeds.trans⟩

theorem BindsFreely.of_hooks (free : ctx.BindsFreely) (same : next.hooks? = ctx.hooks?) :
    next.BindsFreely := fun registry found => free registry (same ▸ found)

/-- Writing constraints concerns no binding. -/
theorem Proceeds.of_keeps (keeps : Keeps (· ≠ .constraints) ctx next) : ctx.Proceeds next := by
  intro accounted
  have bindings : next.substitution = ctx.substitution :=
    congrArg (·.getD .empty) (keeps .substitutions (by simp))
  have counters : next.get .counters = ctx.get .counters :=
    congrArg (·.getD ∅) (keeps .counters (by simp))
  refine ⟨⟨accounted.free.of_hooks (keeps .hooks (by simp)), ?_, ?_⟩, ?_⟩
  · exact bindings ▸ accounted.orderly
  · rw [bindingsMade, counter, counters, bindings]
    exact accounted.counted
  · exact bindings ▸ .refl ctx.substitution

/-! ## Bindings -/

theorem Accounted.bindBy (accounted : ctx.Accounted) (unbound : ctx.substitution.lookup v = none)
    (t : Term) : Detached (bindBy unify ctx v t) (Leaves Proceeds ctx) := by
  cases extended : ctx.substitution.extend v t with
  | none =>
      rw [Context.bindBy, extended]
      exact .pure leaves_none
  | some s =>
      obtain ⟨orderly, size, continued⟩ := accounted.orderly.extend unbound extended
      apply (bindBy_bound accounted.free v t).mono
      intro result leaves next found _
      have bound := leaves next found
      have inserted : next.substitution = s :=
        bound.inserted.trans (extend_eq_some extended).2.2.symm
      refine ⟨⟨accounted.free.of_hooks (bound.aside .hooks trivial), ?_, ?_⟩, ?_⟩
      · exact inserted ▸ orderly
      · rw [bound.counted, accounted.counted, inserted, size]
      · exact inserted ▸ continued

theorem bindBy_proceeds (unifies : Unifies SameFixed unify) {u : Term}
    (walks : ctx.walk u = .var v) (t : Term) :
    Detached (bindBy unify ctx v t) (Leaves Proceeds ctx) := by
  by_cases accounted : ctx.Accounted
  · exact accounted.bindBy (accounted.orderly.ends u v walks) t
  · exact (bindBy_keeps unifies v t).mono fun _ _ _ _ given => absurd given accounted

theorem unifyWithin_proceeds (depth : Nat) : Unifies Proceeds (unifyWithin depth) := by
  induction depth with
  | zero => exact fun ctx a b => .throw _
  | succ depth ih =>
      apply unifyRound_leaves ih
      rintro ctx v t ⟨u, walks⟩
      exact bindBy_proceeds (condenseThen_keeps (unifyWithin_keeps depth)) walks t

/-! ## Walk hooks -/

theorem bump_counter_of_ne {name other : String} (different : name ≠ other) :
    Detached (ctx.bump name) fun next => next.counter other = ctx.counter other := by
  apply Detached.orCrash
  intro next success
  rw [counter, get, get?_of_trySet success, Option.getD_some, Std.TreeMap.getElem?_insert,
    if_neg (by simpa using different)]
  rfl

/-- Condensing binds variables anew, and does not count as binding them. -/
theorem Accounted.condense (accounted : ctx.Accounted)
    (passed : ∀ v ∈ chain, ctx.substitution.lookup v ≠ none ∧ ctx.walk (.var v) = value) :
    Detached (ctx.condense value chain) fun next =>
      next.Accounted ∧ ctx.substitution.Matches next.substitution := by
  have alike := accounted.orderly.ends.condense passed
  have stored : Detached (ctx.set .substitutions (ctx.substitution.condense chain value))
      fun next => ctx.SameFixed next ∧ next.bindingsMade = ctx.bindingsMade ∧
        next.substitution = ctx.substitution.condense chain value := by
    apply Detached.orCrash
    intro next success
    refine ⟨keeps_of_trySet not_isFixed_substitutions success, ?_, ?_⟩
    · rw [bindingsMade, counter, get, get?_of_trySet_of_ne success (by simp)]
      rfl
    · rw [substitution, get, get?_of_trySet success]
      rfl
  apply stored.bind
  rintro bound ⟨same, counted, condensed⟩
  have counts : Detached (bound.bump "condensed") fun next =>
      Keeps (· ≠ .counters) bound next ∧ next.bindingsMade = bound.bindingsMade :=
    (bump_keeps (by simp) _).and (bump_counter_of_ne (by decide))
  apply counts.bind
  rintro last ⟨sameLast, countedLast⟩
  apply (fire_detached _ _).bind
  intro _ _
  have bindings : last.substitution = ctx.substitution.condense chain value :=
    (congrArg (·.getD .empty) (sameLast .substitutions (by simp))).trans condensed
  have hooks : last.hooks? = ctx.hooks? :=
    (sameLast .hooks (by simp)).trans (same .hooks trivial)
  rw [← bindings] at alike
  refine .pure ⟨⟨accounted.free.of_hooks hooks, accounted.orderly.of_matches alike, ?_⟩, alike⟩
  rw [countedLast, counted, accounted.counted, alike.size_eq]

theorem Accounted.runWalkHooks (accounted : ctx.Accounted)
    (passed : ∀ v ∈ chain, ctx.substitution.lookup v ≠ none ∧ ctx.walk (.var v) = value)
    (hooks : List WalkHook) :
    Detached (ctx.runWalkHooks value chain hooks) fun next =>
      next.Accounted ∧ ctx.substitution.Matches next.substitution := by
  induction hooks generalizing ctx with
  | nil => exact .pure ⟨accounted, .refl accounted.orderly.ends⟩
  | cons hook hooks ih =>
      rw [Context.runWalkHooks]
      split
      · apply (accounted.condense passed).bind
        rintro next ⟨condensed, alike⟩
        exact (ih condensed (alike.passed passed)).mono fun _ rest =>
          ⟨rest.1, alike.trans rest.2⟩
      · exact ih accounted passed

theorem Accounted.walkCondensed (accounted : ctx.Accounted) (t : Term) :
    Detached (ctx.walkCondensed t) fun result => ctx.Proceeds result.1 := by
  rw [Context.walkCondensed]
  split
  · exact .pure (Std.Refl.refl ctx)
  · have value := ctx.substitution.walkChain_fst t
    have passed := fun v => mem_walkChainWithin (v := v)
      (accounted.orderly.ends t : ctx.substitution.Walked (ctx.substitution.walk t))
    dsimp only
    split
    · exact .pure (Std.Refl.refl ctx)
    · rw [value]
      apply (accounted.runWalkHooks passed _).bind
      exact fun next condensed => .pure fun _ => ⟨condensed.1, condensed.2.continues⟩

theorem walkCondensed_proceeds (t : Term) :
    Detached (ctx.walkCondensed t) fun result => ctx.Proceeds result.1 := by
  by_cases accounted : ctx.Accounted
  · exact accounted.walkCondensed t
  · exact (walkCondensed_keeps t).mono fun _ _ given => absurd given accounted

theorem unify_proceeds (ctx : Context) (a b : Term) :
    Detached (ctx.unify a b) (Leaves Proceeds ctx) := by
  rw [Context.unify, unifyOver_eq, condenseThen]
  apply (walkCondensed_proceeds a).bind
  intro first proceeds
  apply (walkCondensed_proceeds b).bind
  intro second proceedsSecond
  exact (unifyWithin_proceeds _ _ _ _).mono fun _ => .of_related (proceeds.trans proceedsSecond)

theorem unifyAll_proceeds (ctx : Context) (as bs : List Term) :
    Detached (ctx.unifyAll as bs) (Leaves Proceeds ctx) := by
  rw [Context.unifyAll, unifyOver_eq, Bindings.unifyLists]
  split
  · exact unifyPairs_leaves (unifyWithin_proceeds _) as bs ctx
  · exact .pure leaves_none

theorem constrain_proceeds (ctx : Context) (c : Constraint) :
    Detached (ctx.constrain c) (Leaves Proceeds ctx) := by
  have keeps : Detached (ctx.constrain c) (Leaves (Keeps (· ≠ .constraints)) ctx) :=
    constrain_keeps (by simp) c
  exact keeps.mono fun _ leaves next found => .of_keeps (leaves next found)

theorem attach_proceeds (ctx : Context) (c : Constraint) :
    Detached (ctx.attach c) fun result => ctx.Proceeds result.1 := by
  have keeps : ∀ store, Detached (ctx.set .constraints store) (Keeps (· ≠ .constraints) ctx) :=
    fun _ => set_keeps (by simp)
  exact (keeps _).bind fun _ kept => .pure (.of_keeps kept)

/-! ## Sequences of operations -/

/-- An operation on the context gives another one: terms are unified, or a constraint is
stored, with or without being evaluated. -/
inductive Advances (ctx : Context) : Context → Prop where
  | unify {next : Context} {a b : Term} (returned : Returns (ctx.unify a b) (some next)) :
      Advances ctx next
  | unifyAll {next : Context} {as bs : List Term}
      (returned : Returns (ctx.unifyAll as bs) (some next)) : Advances ctx next
  | attach {next : Context} {c : Constraint} {id : Nat}
      (returned : Returns (ctx.attach c) (next, id)) : Advances ctx next
  | constrain {next : Context} {c : Constraint}
      (returned : Returns (ctx.constrain c) (some next)) : Advances ctx next

theorem Advances.proceeds (advances : ctx.Advances next) : ctx.Proceeds next := by
  cases advances with
  | unify returned => exact (unify_proceeds ctx _ _).of_returns returned next rfl
  | unifyAll returned => exact (unifyAll_proceeds ctx _ _).of_returns returned next rfl
  | attach returned => exact (attach_proceeds ctx _).of_returns returned
  | constrain returned => exact (constrain_proceeds ctx _).of_returns returned next rfl

/-- Operations on contexts, each one on what the one before it gave. -/
abbrev Reaches : Context → Context → Prop := Relation.ReflTransGen Advances

theorem Reaches.proceeds (reached : ctx.Reaches next) : ctx.Proceeds next := by
  induction reached with
  | refl => exact Std.Refl.refl ctx
  | tail _ step ih => exact ih.trans step.proceeds

/-- Nothing is bound or counted yet, and no bind hook is registered. -/
structure Pristine (ctx : Context) : Prop where
  unbound : ctx.get? .substitutions = none
  uncounted : ctx.get? .counters = none
  free : ctx.BindsFreely

theorem pristine_empty : empty.Pristine := ⟨rfl, rfl, nofun⟩

theorem Pristine.put_unification (pristine : ctx.Pristine) (mode : OccursCheck) :
    (ctx.put .unification mode).Pristine where
  unbound := (get?_put_of_ne (by simp)).trans pristine.unbound
  uncounted := (get?_put_of_ne (by simp)).trans pristine.uncounted
  free := pristine.free.of_hooks (get?_put_of_ne (by simp))

theorem Pristine.put_hooks (pristine : ctx.Pristine) {registry : Registry}
    (free : registry.bindHooks = []) : (ctx.put .hooks registry).Pristine where
  unbound := (get?_put_of_ne (by simp)).trans pristine.unbound
  uncounted := (get?_put_of_ne (by simp)).trans pristine.uncounted
  free found same := by
    have held : (ctx.put .hooks registry).get? .hooks = some registry := get?_put_self
    cases held.symm.trans same
    exact free

theorem Pristine.accounted (pristine : ctx.Pristine) : ctx.Accounted := by
  have bindings : ctx.substitution = .empty := congrArg (·.getD .empty) pristine.unbound
  have counters : ctx.get .counters = ∅ := congrArg (·.getD ∅) pristine.uncounted
  refine ⟨pristine.free, ?_, ?_⟩
  · exact bindings ▸ ⟨acyclic_empty.walksEnd, lookup_empty .wildcard⟩
  · rw [bindingsMade, counter, counters, bindings]
    rfl

/-- Whatever is unified and constrained, with or without the occurrence test and walk hooks:
the wildcard stays unbound, every walk comes to an end, there are as many bindings as were
counted, what is bound stays bound, and values stay what they are. -/
theorem bindings_of_reached {start : Context} (pristine : start.Pristine)
    (reached : start.Reaches ctx) (later : ctx.Reaches next) :
    ctx.substitution.lookup .wildcard = none ∧
    (∀ t, (∃ count, ctx.substitution.Ends count t (ctx.walk t)) ∧
      ctx.walk (ctx.walk t) = ctx.walk t) ∧
    ctx.counter "bindings" = ctx.substitution.boundVars.card ∧
    (∀ v, ctx.substitution.lookup v ≠ none → next.substitution.lookup v ≠ none) ∧
    ∀ t, (∀ v, ctx.walk t ≠ .var v) → next.walk t = ctx.walk t := by
  obtain ⟨accounted, _⟩ := reached.proceeds pristine.accounted
  obtain ⟨_, continued⟩ := later.proceeds accounted
  refine ⟨accounted.orderly.anonymous, ?_, ?_, continued.bound, continued.values⟩
  · exact fun t => ⟨accounted.orderly.ends.exists_ends t, accounted.orderly.walk_walk t⟩
  · exact accounted.counted.trans (card_boundVars _).symm

/-- A variable is bound to a compound around itself.  Two variables are bound and two bindings
counted, and a chain that leads to the compound keeps its value when it is condensed. -/
theorem bindings_of_reached_cycle :
    let x := Var.numbered 1
    let y := Var.numbered 2
    let tied : Term := .compound "f" [.var y]
    let start := (empty.put .unification .disabled).put .hooks ⟨[], [], [⟨2⟩]⟩
    start.Pristine ∧ ∃ ctx next, start.Reaches ctx ∧ ctx.Reaches next ∧
      ctx.walk (.var x) = tied ∧ next.walk (.var x) = tied ∧
      next.substitution.lookup x = some tied ∧ ctx.counter "bindings" = 2 ∧
      ctx.substitution.boundVars.card = 2 := by
  intro x y tied start
  have pristine : start.Pristine := (pristine_empty.put_unification .disabled).put_hooks rfl
  obtain ⟨first, ctx, next, led, bound, condensed, walks, counted, short⟩ :
      ∃ first ctx next, Returns (start.unify (.var x) (.var y)) (some first) ∧
        Returns (first.unify (.var y) tied) (some ctx) ∧
        Returns (ctx.unify (.var x) tied) (some next) ∧
        ctx.walk (.var x) = tied ∧ ctx.counter "bindings" = 2 ∧
        next.substitution.lookup x = some tied :=
    ⟨_, _, _, ⟨.start 0 0, _, rfl⟩, ⟨.start 0 0, _, rfl⟩, ⟨.start 0 0, _, rfl⟩, rfl, rfl, rfl⟩
  have reached : start.Reaches ctx := .tail (.single (.unify led)) (.unify bound)
  have later : ctx.Reaches next := .single (.unify condensed)
  obtain ⟨_, _, size, _, values⟩ := bindings_of_reached pristine reached later
  have value : next.walk (.var x) = ctx.walk (.var x) := values (.var x) (by simp [walks, tied])
  exact ⟨pristine, ctx, next, reached, later, walks, value.trans walks, short, counted,
    size ▸ counted⟩

end Context

end RelationalSolver
