import RelationalSolver.Proofs.Constraint.Settlement
import RelationalSolver.Proofs.Context.Quiet

/-!
# Propagation in quiet contexts

A binding wakes the constraints that wait for the variable.  When they are
settled, every stored constraint again waits for what its variables reach.
-/

namespace RelationalSolver

open Substitution Constraint ConstraintStore

namespace Context

variable {Member : Constraint → Prop} {endless : Prop} {ctx : Context} {v : Var} {t : Term}
variable {store : ConstraintStore} {id : Nat} {ids : List Nat} {c : Constraint}
variable {follow : List Var} {before : Substitution}

/-- The pending constraints of the branch. -/
def pending (ctx : Context) : ConstraintStore := ctx.get .constraints

@[simp] theorem pending_put (store : ConstraintStore) :
    (ctx.put .constraints store).pending = store := get_put_self

@[simp] theorem substitution_put (s : Substitution) :
    (ctx.put .substitutions s).substitution = s := get_put_self

@[simp] theorem substitution_put_constraints (store : ConstraintStore) :
    (ctx.put .constraints store).substitution = ctx.substitution :=
  get_put_of_ne (by decide)

@[simp] theorem substitution_put_counters (counters : Counters) :
    (ctx.put .counters counters).substitution = ctx.substitution :=
  get_put_of_ne (by decide)

@[simp] theorem pending_put_substitutions (s : Substitution) :
    (ctx.put .substitutions s).pending = ctx.pending := get_put_of_ne (by decide)

@[simp] theorem pending_put_counters (counters : Counters) :
    (ctx.put .counters counters).pending = ctx.pending := get_put_of_ne (by decide)

theorem Quiet.settle_eq (quiet : ctx.Quiet) (found : store.get? id = some c) (cause : Var)
    (follow : List Var) : ctx.settle store id c cause follow =
      Engine.ofBounded (settleOne ctx.substitution follow store id) := by
  rw [settle, settleOne_found found, evaluate, quiet.checked]
  cases c.evaluate .enabled ctx.substitution with
  | error e => rfl
  | ok verdict =>
      cases verdict with
      | violated =>
          change (ctx.fire .violated (.violation cause c.name) >>= fun _ => pure none) = pure none
          rw [quiet.fire_eq]
          rfl
      | _ => rfl

theorem Quiet.settleAll_eq (quiet : ctx.Quiet) (cause : Var) (follow : List Var)
    (ids : List Nat) (store : ConstraintStore) : ctx.settleAll cause follow store ids =
      Engine.ofBounded (settleEach ctx.substitution follow store ids) := by
  induction ids generalizing store with
  | nil => rfl
  | cons id ids ih =>
      rw [settleAll, settleEach]
      cases found : store.get? id with
      | none =>
          rw [settleOne_absent found]
          exact ih store
      | some c =>
          dsimp only
          rw [quiet.settle_eq found]
          cases settleOne ctx.substitution follow store id with
          | error _ => rfl
          | ok kept =>
              cases kept with
              | none => rfl
              | some next => exact ih next

/-! ## What propagation comes to -/

/-- The computation ends as settling a store does, and in a context that has the bindings and
the settled store. -/
def Completes (s : Substitution) (x : Engine (Option Context)) :
    Except Unending (Option ConstraintStore) → Prop
  | .ok (some store) => ∃ next, x = pure (some next) ∧ next.Quiet ∧ next.substitution = s ∧
      next.pending = store
  | .ok none => x = pure none
  | .error _ => x = throw .unending

/-- What follows may only pass quiet contexts on. -/
theorem Completes.bind {s : Substitution} {x : Engine (Option Context)}
    {settled : Except Unending (Option ConstraintStore)}
    {f : Option Context → Engine (Option Context)} (completes : Completes s x settled)
    (passes : ∀ next : Context, next.Quiet → f (some next) = pure (some next))
    (stops : f none = pure none) : Completes s (x >>= f) settled := by
  match settled, completes with
  | .ok (some store), ⟨next, given, quiet, holds⟩ =>
      rw [given, pure_bind, passes next quiet]
      exact ⟨next, rfl, quiet, holds⟩
  | .ok none, given =>
      rw [given, pure_bind, stops]
      rfl
  | .error e, given =>
      rw [given]
      rfl

theorem Completes.settles {s : Substitution} {x : Engine (Option Context)}
    {settled : Except Unending (Option ConstraintStore)}
    {condition : Option ConstraintStore → Prop} {result : Option Context → Prop}
    (completes : Completes s x settled) (settles : Settles endless settled condition)
    (gives : ∀ next : Context, next.Quiet → next.substitution = s →
      condition (some next.pending) → result (some next))
    (fails : condition none → result none) : Settles endless x result := by
  rcases settles with ⟨stored, holds, rfl⟩ | ⟨allowed, rfl⟩
  · cases stored with
    | some store =>
        obtain ⟨next, rfl, quiet, same, rfl⟩ := completes
        exact .pure (gives next quiet same holds)
    | none =>
        cases completes
        exact .pure (fails holds)
  · cases completes
    exact .inr ⟨allowed, rfl⟩

/-- A settled store is put in the place of the old one. -/
theorem Quiet.completes (quiet : ctx.Quiet) (settled : Except Unending (Option ConstraintStore))
    {f : Option ConstraintStore → Engine (Option Context)}
    (stores : ∀ store, f (some store) = some <$> ctx.set .constraints store)
    (stops : f none = pure none) :
    Completes ctx.substitution (Engine.ofBounded settled >>= f) settled := by
  match settled with
  | .ok (some store) =>
      refine ⟨ctx.put .constraints store, ?_, quiet.put rfl (by decide) (by decide), by simp,
        pending_put store⟩
      change f (some store) = _
      rw [stores, quiet.clear.set_eq rfl, map_pure]
  | .ok none => exact stops
  | .error _ => rfl

theorem Quiet.propagate_completes (quiet : ctx.Quiet) (v : Var) (t : Term) :
    Completes ctx.substitution (ctx.propagate v t)
      (settleEach ctx.substitution (ctx.freeVars t) ctx.pending (ctx.pending.idsFor v)) := by
  rw [propagate]
  split
  · rename_i none
    rw [pending, none]
    exact ⟨ctx, rfl, quiet, rfl, rfl⟩
  · rw [quiet.settleAll_eq]
    exact quiet.completes _ (fun _ => rfl) rfl

/-- A binding that is made settles the constraints that wait for the variable. -/
theorem Quiet.bindBy_completes {s : Substitution} (quiet : ctx.Quiet)
    (unify : Context → Term → Term → Engine (Option Context))
    (extended : ctx.substitution.extend v t = some s) :
    Completes s (bindBy unify ctx v t)
      (settleEach s (s.freeVars t) ctx.pending (ctx.pending.idsFor v)) := by
  have quietBound : (ctx.put .substitutions s).Quiet := quiet.put rfl (by decide) (by decide)
  rw [bindBy, extended]
  dsimp only
  rw [quiet.clear.trySet_eq rfl]
  change Completes s (pure _ >>= _) _
  rw [pure_bind, quietBound.clear.bump_eq, pure_bind]
  generalize counted : (ctx.put .substitutions s).put .counters _ = recorded
  have quietRecorded : recorded.Quiet := counted ▸ quietBound.put rfl (by decide) (by decide)
  have bindings : recorded.substitution = s := by
    rw [← counted]
    simp
  have store : recorded.pending = ctx.pending := by
    rw [← counted]
    simp
  rw [quietRecorded.fire_eq, pure_bind]
  have propagated := quietRecorded.propagate_completes v t
  rw [freeVars, bindings, store] at propagated
  apply propagated.bind
  · intro next quietNext
    dsimp only
    rw [quietNext.unhooked]
  · rfl

/-! ## Orderly contexts -/

/-- A quiet context whose bindings are acyclic and free of wildcards, and whose
constraints wait for what their variables reach and can still be met. -/
structure Orderly (Member : Constraint → Prop) (ctx : Context) : Prop where
  quiet : ctx.Quiet
  acyclic : ctx.substitution.Acyclic
  plain : ctx.substitution.WildcardFree
  attended : Attended Member ctx.substitution ctx.substitution ctx.pending []

/-- A context may come to hold constraints of more kinds. -/
theorem Orderly.mono {More : Constraint → Prop} (orderly : Orderly Member ctx)
    (more : ∀ c, Member c → More c) : Orderly More ctx :=
  { orderly with
    attended :=
      { orderly.attended with member := fun stored => more _ (orderly.attended.member stored) } }

/-- What a context says about assignments: its bindings hold, and its constraints
permit the set. -/
def reading (Member : Constraint → Prop) : Bindings.Reading Context where
  substitution := substitution
  Valid := Orderly Member
  Admits ctx Θ := Θ.Nonempty ∧ Θ ⊆ ctx.substitution.solutions ∧ ctx.pending.Admits Θ
  Spares ctx Θ := Θ.Nonempty ∧ Θ ⊆ ctx.substitution.solutions ∧ ctx.pending.Spares Θ

/-- An orderly context leaves room for its constraints, one by one. -/
theorem Orderly.admits (orderly : Orderly Member ctx) :
    (reading Member).Admits ctx ctx.substitution.solutions := by
  refine ⟨⟨_, resolution_mem orderly.acyclic⟩, Set.Subset.refl _, ?_⟩
  intro id c stored decides
  rw [permits_of_not_guard decides]
  exact (orderly.attended.settled stored decides List.not_mem_nil).2

theorem bindBy_settles (family : Family Member endless)
    (unify : Context → Term → Term → Engine (Option Context)) (orderly : Orderly Member ctx)
    (unbound : ctx.substitution.lookup v = none) (named : v ≠ .wildcard) (different : t ≠ .var v)
    (free : t.WildcardFree) (walked : ctx.substitution.Walked t)
    (apart : ¬ ctx.substitution.Reaches t v) :
    Settles endless (bindBy unify ctx v t) fun
      | some next =>
          Orderly Member next ∧ next.substitution = ctx.substitution.insert v t ∧
          Carries (ctx.substitution.insert v t).solutions ctx.pending next.pending
      | none => ∀ Θ ⊆ (ctx.substitution.insert v t).solutions, Θ.Nonempty →
          ¬ ctx.pending.Spares Θ := by
  have acyclic := acyclic_insert orderly.acyclic apart
  have plain := wildcardFree_insert orderly.plain named free
  have spreads := spreads_insert orderly.acyclic acyclic plain unbound free
  have waiting := orderly.attended.insert family orderly.acyclic acyclic unbound
  apply (orderly.quiet.bindBy_completes unify (extend_of_walked named walked different)).settles
    (settleEach_settles family acyclic plain spreads waiting)
  · rintro next quiet same ⟨attended, carries⟩
    refine ⟨⟨quiet, ?_, ?_, ?_⟩, same, carries⟩
    · rw [same]
      exact acyclic
    · rw [same]
      exact plain
    · rw [same]
      exact attended.renew
  · exact id

/-! ## One more constraint -/

theorem mem_watched {w : Var} : w ∈ ctx.watched c ↔
    w ∈ c.vars ∨ ∃ v ∈ c.vars, w ∈ ctx.freeVars (.var v) := mem_foldl_appendAllNew

theorem watched_reached (orderly : Orderly Member ctx) (named : ∀ v ∈ c.vars, v ≠ .wildcard) :
    ∀ v ∈ c.vars, ∀ w, (ctx.substitution.resolve (.var v)).mentions w = true →
      w ∈ ctx.watched c ∧ w ≠ .wildcard := by
  intro v inside w reached
  have free : (Term.var v).WildcardFree := by
    rw [Term.WildcardFree, ← Bool.not_eq_true, Term.mentions_var]
    exact named v inside
  have different : w ≠ .wildcard := by
    intro same
    rw [same, orderly.plain.resolve orderly.acyclic free] at reached
    contradiction
  constructor
  · rw [mem_watched]
    exact .inr ⟨v, inside, Term.mem_vars.mpr ⟨reached, different⟩⟩
  · exact different

/-- What adding a constraint to a context ends in. -/
def Constrained (Member : Constraint → Prop) (ctx : Context) (c : Constraint) :
    Option Context → Prop
  | some next =>
      Orderly Member next ∧ next.substitution = ctx.substitution ∧
      (∀ Θ, (reading Member).Spares ctx Θ → c.Permits Θ → (reading Member).Spares next Θ) ∧
      (∀ Θ, (reading Member).Admits next Θ →
        (reading Member).Admits ctx Θ ∧ (c.isGuard = false → c.Permits Θ))
  | none => ∀ Θ, (reading Member).Spares ctx Θ → ¬ c.Permits Θ

theorem Quiet.attach_eq (quiet : ctx.Quiet) (c : Constraint) :
    ctx.attach c = pure (ctx.put .constraints (ctx.pending.insert c (ctx.watched c)).1,
      ctx.pending.nextId) := by
  change (ctx.set .constraints (ctx.pending.insert c (ctx.watched c)).1 >>= fun next =>
    pure (next, (ctx.pending.insert c (ctx.watched c)).2)) = _
  rw [quiet.clear.set_eq rfl, pure_bind, insert_snd]

theorem check_eq (found : ctx.pending.get? id = some c) :
    ctx.check id = ctx.settle ctx.pending id c .wildcard [] >>= fun result =>
      match result with
      | none => pure none
      | some store => some <$> ctx.set .constraints store := by
  unfold pending at found
  rw [check, found]
  rfl

/-- A constraint that is added is settled. -/
theorem Quiet.constrain_completes (quiet : ctx.Quiet) (c : Constraint) :
    Completes ctx.substitution (ctx.constrain c)
      (settleEach ctx.substitution [] (ctx.pending.insert c (ctx.watched c)).1
        [ctx.pending.nextId]) := by
  rw [constrain, quiet.attach_eq, pure_bind]
  dsimp only
  generalize attached : (ctx.pending.insert c (ctx.watched c)).1 = store
  have found : store.get? ctx.pending.nextId = some c := by
    rw [← attached, get?_insert, if_pos rfl]
  have quietAttached : (ctx.put .constraints store).Quiet :=
    quiet.put rfl (by decide) (by decide)
  have completes := quietAttached.completes
    (settleEach ctx.substitution [] store [ctx.pending.nextId])
    (f := fun result => match result with
      | none => pure none
      | some next => some <$> (ctx.put .constraints store).set .constraints next)
    (fun _ => rfl) rfl
  rw [substitution_put_constraints] at completes
  rw [check_eq (by rw [pending_put]; exact found), pending_put, quietAttached.settle_eq found,
    substitution_put_constraints, ← settleEach_singleton]
  exact completes

/-- A constraint is violated if it rules out everything that was left, and otherwise
it is recorded and nothing else is. -/
theorem constrain_settles (family : Family Member endless) (orderly : Orderly Member ctx)
    (member : Member c) : Settles endless (ctx.constrain c) (Constrained Member ctx c) := by
  have waiting : Attended Member ctx.substitution ctx.substitution
      (ctx.pending.insert c (ctx.watched c)).1 [ctx.pending.nextId] := by
    apply orderly.attended.attach member
    intro decides
    exact watched_reached orderly fun v inside =>
      ne_wildcard_of_mem_vars (family.proper member decides) inside
  apply (orderly.quiet.constrain_completes c).settles (settleEach_settles family orderly.acyclic
    orderly.plain (fun v w _ reached => .inl reached) waiting)
  · rintro next quiet same ⟨attended, carries⟩
    refine ⟨⟨quiet, ?_, ?_, ?_⟩, same, ?_, ?_⟩
    · rw [same]
      exact orderly.acyclic
    · rw [same]
      exact orderly.plain
    · rw [same]
      exact attended
    · intro Θ spared permitted
      refine ⟨spared.1, same.symm ▸ spared.2.1, ?_⟩
      exact carries.spares Θ spared.2.1 (spares_insert spared.2.2 permitted)
    · intro Θ admitted
      have within : Θ ⊆ ctx.substitution.solutions := same ▸ admitted.2.1
      have kept := carries.admits Θ within admitted.1 admitted.2.2
      obtain ⟨before, new⟩ := admits_of_admits_insert orderly.attended.numbered kept
      exact ⟨⟨admitted.1, within, before⟩, new⟩
  · intro settled Θ spared permitted
    exact settled Θ spared.2.1 spared.1 (spares_insert spared.2.2 permitted)

end Context

end RelationalSolver
