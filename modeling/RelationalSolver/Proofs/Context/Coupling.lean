import RelationalSolver.Proofs.Context.Ground
import RelationalSolver.Proofs.Context.Propagation
import RelationalSolver.Proofs.Planning.Twins
import RelationalSolver.Proofs.Session.Coupling

/-!
# Contexts that differ in what was condensed

Two contexts match if their substitutions walk alike and the same observers look on, whatever
walk hooks they carry.  Constraints are stored, settled and propagated alike in both.
-/

namespace RelationalSolver

open Engine

namespace Context

variable {ctx other next nextOther : Context} {s : Substitution} {name : String}

/-- Those who are told about events, by key. -/
def observers (ctx : Context) : List (EventKey × List Observer) :=
  (ctx.hooks?.map (·.observers)).getD []

/-- The hooks of the context look on and condense, but do not take part in bindings.  The
occurrence test is made, names do not collide, and no variable leads back to itself. -/
structure Observed (ctx : Context) : Prop where
  free : ctx.BindsFreely
  checked : ctx.occursCheck = .enabled
  clear : ctx.Clear
  acyclic : ctx.substitution.Acyclic

theorem hooks?_put {key : FacetKey} {value : key.Value} (different : key ≠ .hooks) :
    (ctx.put key value).hooks? = ctx.hooks? := get?_put_of_ne different

theorem counter_put {key : FacetKey} {value : key.Value} (different : key ≠ .counters) :
    (ctx.put key value).counter name = ctx.counter name := by
  rw [counter, counter, get_put_of_ne different]

theorem Observed.put {key : FacetKey} {value : key.Value} (observed : ctx.Observed)
    (native : key.isNative = true) (notHooks : key ≠ .hooks) (notCheck : key ≠ .unification)
    (acyclic : (ctx.put key value).substitution.Acyclic) : (ctx.put key value).Observed where
  free := by
    intro registry found
    rw [hooks?_put notHooks] at found
    exact observed.free registry found
  checked := (get_put_of_ne notCheck).trans observed.checked
  clear := observed.clear.put native
  acyclic := acyclic

/-- Both contexts are observed by the same, walk alike and know the same, apart from how often
a chain was condensed. -/
structure Matches (ctx other : Context) : Prop where
  observed : ctx.Observed
  observedOther : other.Observed
  alike : ctx.substitution.Matches other.substitution
  observers : other.observers = ctx.observers
  counter : ∀ name, name ≠ "condensed" → other.counter name = ctx.counter name
  same : ∀ key : FacetKey, key ≠ .substitutions → key ≠ .counters → key ≠ .hooks →
    other.get? key = ctx.get? key

namespace Matches

theorem refl (observed : ctx.Observed) : ctx.Matches ctx where
  observed := observed
  observedOther := observed
  alike := .refl observed.acyclic.walksEnd
  observers := rfl
  counter _ _ := rfl
  same _ _ _ _ := rfl

theorem symm (alike : ctx.Matches other) : other.Matches ctx where
  observed := alike.observedOther
  observedOther := alike.observed
  alike := alike.alike.symm
  observers := alike.observers.symm
  counter name counted := (alike.counter name counted).symm
  same key notBindings notCounters notHooks :=
    (alike.same key notBindings notCounters notHooks).symm

theorem trans (first : ctx.Matches other) (second : other.Matches next) : ctx.Matches next where
  observed := first.observed
  observedOther := second.observedOther
  alike := first.alike.trans second.alike
  observers := second.observers.trans first.observers
  counter name counted := (second.counter name counted).trans (first.counter name counted)
  same key notBindings notCounters notHooks :=
    (second.same key notBindings notCounters notHooks).trans
      (first.same key notBindings notCounters notHooks)

theorem twins (alike : ctx.Matches other) : ctx.substitution.Twins other.substitution :=
  ⟨alike.observed.acyclic, alike.observedOther.acyclic, alike.alike⟩

theorem walk (alike : ctx.Matches other) (t : Term) : other.walk t = ctx.walk t :=
  alike.alike.walk t

theorem resolve (alike : ctx.Matches other) (t : Term) : other.resolve t = ctx.resolve t :=
  alike.twins.resolve t

theorem freeVars (alike : ctx.Matches other) (t : Term) : other.freeVars t = ctx.freeVars t :=
  alike.twins.freeVars t

theorem bindingsMade (alike : ctx.Matches other) : other.bindingsMade = ctx.bindingsMade :=
  alike.counter _ (by decide)

theorem pending (alike : ctx.Matches other) : other.get .constraints = ctx.get .constraints := by
  rw [get, get, alike.same .constraints (by decide) (by decide) (by decide)]

theorem planner (alike : ctx.Matches other) : other.get .planner = ctx.get .planner := by
  rw [get, get, alike.same .planner (by decide) (by decide) (by decide)]

/-! ## Writing alike -/

/-- Setting a facet of the solver alike, but for bindings and counters. -/
theorem put {key : FacetKey} {value valueOther : key.Value} (alike : ctx.Matches other)
    (native : key.isNative = true) (notHooks : key ≠ .hooks) (notCheck : key ≠ .unification)
    (twins : (ctx.put key value).substitution.Twins (other.put key valueOther).substitution)
    (counted : ∀ name, name ≠ "condensed" →
      (other.put key valueOther).counter name = (ctx.put key value).counter name)
    (kept : key ≠ .substitutions → key ≠ .counters → valueOther = value) :
    (ctx.put key value).Matches (other.put key valueOther) where
  observed := alike.observed.put native notHooks notCheck twins.acyclic
  observedOther := alike.observedOther.put native notHooks notCheck twins.acyclicOther
  alike := twins.alike
  observers := by
    rw [Context.observers, Context.observers, hooks?_put notHooks, hooks?_put notHooks]
    exact alike.observers
  counter := counted
  same read notBindings notCounters notRegistry := by
    by_cases here : key = read
    · subst here
      rw [get?_put_self, get?_put_self, kept notBindings notCounters]
    · rw [get?_put_of_ne here, get?_put_of_ne here]
      exact alike.same read notBindings notCounters notRegistry

/-- Bindings and counters may be set in one of the contexts only. -/
theorem put_right {key : FacetKey} {value : key.Value} (alike : ctx.Matches other)
    (written : key = .substitutions ∨ key = .counters)
    (twins : ctx.substitution.Twins (other.put key value).substitution)
    (counted : ∀ name, name ≠ "condensed" →
      (other.put key value).counter name = ctx.counter name) :
    ctx.Matches (other.put key value) where
  observed := alike.observed
  observedOther := by
    apply alike.observedOther.put _ _ _ twins.acyclicOther
    all_goals rcases written with rfl | rfl <;> decide
  alike := twins.alike
  observers := by
    rw [Context.observers, hooks?_put (by rcases written with rfl | rfl <;> decide)]
    exact alike.observers
  counter := counted
  same read notBindings notCounters notHooks := by
    rw [get?_put_of_ne]
    · exact alike.same read notBindings notCounters notHooks
    · rintro rfl
      exact written.elim notBindings notCounters

theorem put_constraints (alike : ctx.Matches other) (store : ConstraintStore) :
    (ctx.put .constraints store).Matches (other.put .constraints store) := by
  apply alike.put rfl (by decide) (by decide)
  · simpa using alike.twins
  · intro name different
    rw [counter_put (by decide), counter_put (by decide)]
    exact alike.counter name different
  · exact fun _ _ => rfl

theorem put_substitutions {sOther : Substitution} (alike : ctx.Matches other)
    (twins : s.Twins sOther) :
    (ctx.put .substitutions s).Matches (other.put .substitutions sOther) := by
  apply alike.put rfl (by decide) (by decide)
  · simpa using twins
  · intro name different
    rw [counter_put (by decide), counter_put (by decide)]
    exact alike.counter name different
  · exact fun changed => absurd rfl changed

theorem put_counters {counters countersOther : Counters} (alike : ctx.Matches other)
    (counted : ∀ name, name ≠ "condensed" →
      countersOther[name]?.getD 0 = counters[name]?.getD 0) :
    (ctx.put .counters counters).Matches (other.put .counters countersOther) := by
  apply alike.put rfl (by decide) (by decide)
  · simpa using alike.twins
  · intro name different
    rw [Context.counter, Context.counter, get_put_self, get_put_self]
    exact counted name different
  · exact fun _ changed => absurd rfl changed

theorem set_constraints (alike : ctx.Matches other) (store : ConstraintStore) :
    Agrees Matches (ctx.set .constraints store) (other.set .constraints store) := by
  rw [alike.observed.clear.set_eq rfl, alike.observedOther.clear.set_eq rfl]
  exact .pure (alike.put_constraints store)

theorem bump (alike : ctx.Matches other) (different : name ≠ "condensed") :
    Agrees Matches (ctx.bump name) (other.bump name) := by
  rw [alike.observed.clear.bump_eq, alike.observedOther.clear.bump_eq]
  refine .pure (alike.put_counters ?_)
  intro counted notCondensed
  rw [alike.counter name different, Std.TreeMap.getElem?_insert, Std.TreeMap.getElem?_insert]
  split
  · rfl
  · exact alike.counter counted notCondensed

end Matches

/-- An event is delivered to those who look on. -/
theorem fire_eq (ctx : Context) (key : EventKey) (payload : Payload) :
    ctx.fire key payload = Engine.fire ⟨ctx.observers, [], []⟩ key payload ctx.bindingsMade := by
  cases found : ctx.hooks? with
  | some registry =>
      rw [fire, observers, found]
      rfl
  | none =>
      have nobody : (Registry.mk ctx.observers [] []).receivers key = [] := by
        rw [observers, found]
        simp [Registry.receivers, Registry.observersOf]
      rw [fire, found, Engine.fire, nobody]
      rfl

namespace Matches

theorem fire (alike : ctx.Matches other) (key : EventKey) (payload : Payload) :
    Agrees Eq (ctx.fire key payload) (other.fire key payload) := by
  rw [fire_eq, fire_eq, alike.bindingsMade]
  exact .fire alike.observers.symm key payload _

/-! ## Constraints -/

theorem watched (alike : ctx.Matches other) (c : Constraint) :
    other.watched c = ctx.watched c := by
  unfold Context.watched
  simp only [alike.freeVars]

theorem attach (alike : ctx.Matches other) (c : Constraint) :
    Agrees (fun result resultOther => result.1.Matches resultOther.1 ∧ result.2 = resultOther.2)
      (ctx.attach c) (other.attach c) := by
  unfold Context.attach
  rw [alike.pending, alike.watched]
  apply (alike.set_constraints _).bind
  exact fun next nextOther matched => .pure ⟨matched, rfl⟩

theorem evaluate (alike : ctx.Matches other) (c : Constraint) :
    Agrees Eq (ctx.evaluate c) (other.evaluate c) := by
  rw [Context.evaluate, Context.evaluate, alike.observed.checked, alike.observedOther.checked,
    alike.twins.evaluate]
  exact .ofBounded_self _

theorem settle (alike : ctx.Matches other) (store : ConstraintStore) (id : Nat) (c : Constraint)
    (cause : Var) (follow : List Var) :
    Agrees Eq (ctx.settle store id c cause follow) (other.settle store id c cause follow) := by
  apply (alike.evaluate c).bind
  rintro verdict _ rfl
  cases verdict with
  | violated => exact (alike.fire _ _).bind fun _ _ _ => .pure rfl
  | satisfied => exact .pure rfl
  | simplified next => exact .pure rfl
  | pending => exact .pure rfl

theorem settleAll (alike : ctx.Matches other) (cause : Var) (follow : List Var) (ids : List Nat)
    (store : ConstraintStore) :
    Agrees Eq (ctx.settleAll cause follow store ids) (other.settleAll cause follow store ids) := by
  induction ids generalizing store with
  | nil => exact .pure rfl
  | cons id ids ih =>
      rw [Context.settleAll, Context.settleAll]
      cases store.get? id with
      | none => exact ih store
      | some c =>
          apply (alike.settle store id c cause follow).bind
          rintro result _ rfl
          cases result with
          | none => exact .pure rfl
          | some later => exact ih later

/-- Constraints that were settled alike are stored alike. -/
theorem restore (alike : ctx.Matches other) (result : Option ConstraintStore) :
    Agrees (Option.Rel Matches)
      (match result with
        | none => pure none
        | some store => some <$> ctx.set .constraints store)
      (match result with
        | none => pure none
        | some store => some <$> other.set .constraints store) := by
  cases result with
  | none => exact .pure .none
  | some store => exact (alike.set_constraints store).map fun _ _ matched => .some matched

theorem check (alike : ctx.Matches other) (id : Nat) :
    Agrees (Option.Rel Matches) (ctx.check id) (other.check id) := by
  unfold Context.check
  rw [alike.pending]
  dsimp only
  cases ConstraintStore.get? (ctx.get .constraints) id with
  | none => exact .pure (.some alike)
  | some c =>
      apply (alike.settle _ id c .wildcard []).bind
      rintro result _ rfl
      exact alike.restore result

theorem constrain (alike : ctx.Matches other) (c : Constraint) :
    Agrees (Option.Rel Matches) (ctx.constrain c) (other.constrain c) := by
  apply (alike.attach c).bind
  rintro ⟨next, id⟩ ⟨nextOther, _⟩ ⟨matched, rfl⟩
  exact matched.check id

theorem constrainAll (alike : ctx.Matches other) (constraints : List Constraint) :
    Agrees (Option.Rel Matches) (ctx.constrainAll constraints)
      (other.constrainAll constraints) := by
  induction constraints generalizing ctx other with
  | nil => exact .pure (.some alike)
  | cons c constraints ih =>
      apply (alike.constrain c).bind
      intro result resultOther holds
      cases holds with
      | none => exact .pure .none
      | some matched => exact ih matched

theorem propagate (alike : ctx.Matches other) (v : Var) (t : Term) :
    Agrees (Option.Rel Matches) (ctx.propagate v t) (other.propagate v t) := by
  unfold Context.propagate
  rw [alike.pending, alike.freeVars]
  dsimp only
  split
  · exact .pure (.some alike)
  · apply (alike.settleAll v _ _ _).bind
    rintro result _ rfl
    cases result with
    | none => exact alike.restore none
    | some store => exact alike.restore (some store)

end Matches

end Context

end RelationalSolver
