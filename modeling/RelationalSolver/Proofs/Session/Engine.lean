import Mathlib.Data.List.Forall2
import RelationalSolver.Session.Basic

/-!
# Runs of engine computations

A run starts a computation in a session and ends with a result in another one.
Most computations look at nothing in the session and leave its numbering of
variables alone: they are detached, and their result is the same in every session.  Others may
still give one result in all sessions.
-/

namespace RelationalSolver.Engine

variable {α β : Type} {x : Engine α} {f : α → Engine β} {before after : Session}

theorem except_bind_eq_ok {ε α β : Type} {x : Except ε α} {f : α → Except ε β} {b : β} :
    (x >>= f) = .ok b ↔ ∃ a, x = .ok a ∧ f a = .ok b := by
  cases x with
  | error e => exact ⟨nofun, nofun⟩
  | ok a => simp [bind, Except.bind]

theorem except_mapM_eq_ok {ε α β : Type} {f : α → Except ε β} {items : List α}
    {results : List β} : items.mapM f = .ok results ↔
      List.Forall₂ (fun item result => f item = .ok result) items results := by
  induction items generalizing results with
  | nil =>
      rw [List.mapM_nil, List.forall₂_nil_left_iff]
      simp [pure, Except.pure, eq_comm]
  | cons item items ih =>
      rw [List.mapM_cons, except_bind_eq_ok, List.forall₂_cons_left_iff]
      simp only [except_bind_eq_ok, ih]
      simp [pure, Except.pure, eq_comm]

/-- The computation, begun in the first session, gives the result and ends in the
second session. -/
def Runs (x : Engine α) (before : Session) (a : α) (after : Session) : Prop :=
  x.run.run before = (.ok a, after)

/-- The computation gives the result in some session. -/
def Returns (x : Engine α) (a : α) : Prop := ∃ before after, Runs x before a after

theorem Runs.returns {a : α} (ran : Runs x before a after) : Returns x a := ⟨before, after, ran⟩

/-- A computation that gives a result ends in some session. -/
theorem exists_runs {a : α} (gives : (x.run.run before).1 = .ok a) :
    ∃ after, Runs x before a after :=
  ⟨(x.run.run before).2, Prod.ext gives rfl⟩

theorem run_bind (x : Engine α) (f : α → Engine β) (before : Session) :
    (x >>= f).run.run before =
      match x.run.run before with
      | (.ok a, between) => (f a).run.run between
      | (.error halt, between) => (.error halt, between) := by
  change (ExceptT.bindCont f (x.run.run before).1).run (x.run.run before).2 = _
  cases x.run.run before with
  | mk outcome between => cases outcome <;> rfl

@[simp] theorem runs_pure {a b : α} : Runs (pure a) before b after ↔ a = b ∧ before = after := by
  constructor
  · intro ran
    cases ran
    exact ⟨rfl, rfl⟩
  · rintro ⟨rfl, rfl⟩
    rfl

theorem returns_pure (a : α) : Returns (pure a) a :=
  ⟨.start 0 0, .start 0 0, runs_pure.mpr ⟨rfl, rfl⟩⟩

theorem Returns.of_pure {a b : α} (gives : Returns (pure a) b) : a = b := by
  obtain ⟨before, after, ran⟩ := gives
  exact (runs_pure.mp ran).1

theorem pure_injective {a b : α} (same : (pure a : Engine α) = pure b) : a = b :=
  (same ▸ returns_pure b).of_pure

@[simp] theorem not_runs_throw {halt : Halt} {a : α} :
    ¬ Runs (throw halt : Engine α) before a after := by
  intro ran
  cases ran

theorem ofBounded_eq_pure {bounded : Except Unending α} {a : α} :
    ofBounded bounded = pure a ↔ bounded = .ok a := by
  constructor
  · intro same
    cases bounded with
    | ok b => rw [pure_injective (show (pure b : Engine α) = pure a from same)]
    | error e =>
        obtain ⟨before, after, ran⟩ := returns_pure a
        rw [← same] at ran
        exact absurd ran not_runs_throw
  · rintro rfl
    rfl

theorem runs_bind {b : β} : Runs (x >>= f) before b after ↔
    ∃ a between, Runs x before a between ∧ Runs (f a) between b after := by
  unfold Runs
  rw [run_bind]
  cases ran : x.run.run before with
  | mk outcome between =>
      cases outcome with
      | ok a =>
          constructor
          · exact fun rest => ⟨a, between, rfl, rest⟩
          · rintro ⟨_, _, same, rest⟩
            cases same
            exact rest
      | error halt =>
          constructor
          · intro stuck
            cases stuck
          · rintro ⟨_, _, stuck, _⟩
            cases stuck

theorem Returns.of_bind {b : β} (gives : Returns (x >>= f) b) :
    ∃ a, Returns x a ∧ Returns (f a) b := by
  obtain ⟨before, after, ran⟩ := gives
  obtain ⟨a, between, first, second⟩ := runs_bind.mp ran
  exact ⟨a, first.returns, second.returns⟩

/-- What goes on alike from every result of a computation goes on alike from it. -/
theorem bind_congr_of_returns {g : α → Engine β}
    (same : ∀ a, Returns x a → f a = g a) : x >>= f = x >>= g := by
  have pointwise : ∀ before, (x >>= f).run.run before = (x >>= g).run.run before := by
    intro before
    rw [run_bind, run_bind]
    cases ran : x.run.run before with
    | mk outcome between =>
        cases outcome with
        | error halt => rfl
        | ok a =>
            dsimp only
            rw [same a ⟨before, between, ran⟩]
  exact funext pointwise

theorem run_map (g : α → β) (x : Engine α) (before : Session) :
    (g <$> x).run.run before = ((x.run.run before).1.map g, (x.run.run before).2) := by
  rw [map_eq_pure_bind, run_bind]
  cases x.run.run before with
  | mk outcome after => cases outcome <;> rfl

theorem runs_map {g : α → β} {b : β} : Runs (g <$> x) before b after ↔
    ∃ a, Runs x before a after ∧ g a = b := by
  rw [map_eq_pure_bind, runs_bind]
  simp only [runs_pure]
  constructor
  · rintro ⟨a, between, ran, same, rfl⟩
    exact ⟨a, ran, same⟩
  · rintro ⟨a, ran, same⟩
    exact ⟨a, after, ran, same, rfl⟩

@[simp] theorem runs_ofBounded {bounded : Except Unending α} {a : α} :
    Runs (ofBounded bounded) before a after ↔ bounded = .ok a ∧ before = after := by
  cases bounded with
  | ok b => simp [ofBounded]
  | error e => simp [ofBounded]

theorem run_tryCatch (x : Engine α) (handle : Halt → Engine α) (before : Session) :
    (tryCatch x handle).run.run before =
      match x.run.run before with
      | (.ok a, after) => (.ok a, after)
      | (.error halt, after) => (handle halt).run.run after := by
  simp only [tryCatch, tryCatchThe, MonadExceptOf.tryCatch, ExceptT.tryCatch, ExceptT.mk,
    ExceptT.run, bind, StateT.bind, StateT.run, pure]
  cases x before with
  | mk outcome after => cases outcome <;> rfl

theorem run_attempt (x : Engine α) (before : Session) :
    (attempt x).run.run before =
      match x.run.run before with
      | (.ok a, after) => (.ok (.ok a), after)
      | (.error (.collision c), after) => (.ok (.error c), after)
      | (.error halt, after) => (.error halt, after) := by
  rw [attempt, run_tryCatch, run_bind]
  cases x.run.run before with
  | mk outcome after =>
      cases outcome with
      | ok a => rfl
      | error halt => cases halt <;> rfl

theorem runs_attempt_ok {a : α} :
    Runs (attempt x) before (.ok a) after ↔ Runs x before a after := by
  unfold Runs
  rw [run_attempt]
  cases x.run.run before with
  | mk outcome between =>
      cases outcome with
      | ok b =>
          constructor
          · intro same
            cases same
            rfl
          · intro same
            cases same
            rfl
      | error halt =>
          constructor
          · intro same
            cases halt <;> cases same
          · intro same
            cases same

/-! ## Detached computations -/

/-- The outcome is the same in every session, satisfies the condition if it is a
result, and the numbering of variables is left alone. -/
def Detached (x : Engine α) (condition : α → Prop) : Prop :=
  ∃ outcome : Except Halt α,
    (∀ before, (x.run.run before).1 = outcome ∧
      (x.run.run before).2.nextOrdinal = before.nextOrdinal) ∧
    ∀ a, outcome = .ok a → condition a

namespace Detached

variable {condition stronger : α → Prop} {result : β → Prop}

theorem pure {a : α} (holds : condition a) : Detached (Pure.pure a) condition := by
  refine ⟨.ok a, fun before => ⟨rfl, rfl⟩, ?_⟩
  intro b same
  cases same
  exact holds

theorem throw (halt : Halt) : Detached (MonadExcept.throw halt : Engine α) condition := by
  refine ⟨.error halt, fun before => ⟨rfl, rfl⟩, ?_⟩
  intro a same
  cases same

theorem bind (first : Detached x condition) (second : ∀ a, condition a → Detached (f a) result) :
    Detached (x >>= f) result := by
  obtain ⟨outcome, steady, holds⟩ := first
  cases outcome with
  | error halt =>
      refine ⟨.error halt, ?_, fun b same => by cases same⟩
      intro before
      have ran := steady before
      rw [run_bind]
      cases start : x.run.run before with
      | mk outcome between =>
          rw [start] at ran
          rcases ran with ⟨rfl, same⟩
          exact ⟨rfl, same⟩
  | ok a =>
      obtain ⟨last, steadyLast, holdsLast⟩ := second a (holds a rfl)
      refine ⟨last, ?_, holdsLast⟩
      intro before
      have ran := steady before
      rw [run_bind]
      cases start : x.run.run before with
      | mk outcome between =>
          rw [start] at ran
          rcases ran with ⟨rfl, same⟩
          have rest := steadyLast between
          exact ⟨rest.1, rest.2.trans same⟩

theorem mono (detached : Detached x stronger) (weaker : ∀ a, stronger a → condition a) :
    Detached x condition := by
  obtain ⟨outcome, steady, holds⟩ := detached
  exact ⟨outcome, steady, fun a same => weaker a (holds a same)⟩

/-- What holds for one reason and for another holds for both. -/
theorem and (first : Detached x condition) (second : Detached x stronger) :
    Detached x fun a => condition a ∧ stronger a := by
  rcases first with ⟨outcome, same, holds⟩
  rcases second with ⟨other, sameOther, holdsOther⟩
  have equal : outcome = other :=
    (same (.start 0 0)).1.symm.trans (sameOther (.start 0 0)).1
  subst equal
  exact ⟨outcome, same, fun a given => ⟨holds a given, holdsOther a given⟩⟩

theorem map {g : α → β} (detached : Detached x condition)
    (holds : ∀ a, condition a → result (g a)) : Detached (g <$> x) result := by
  rw [map_eq_pure_bind]
  exact detached.bind fun a given => .pure (holds a given)

theorem modifying {g : Session → Session} (keeps : ∀ s, (g s).nextOrdinal = s.nextOrdinal)
    {condition : Unit → Prop} (holds : condition ()) :
    Detached (modify g : Engine Unit) condition :=
  ⟨.ok (), fun before => ⟨rfl, keeps before⟩, fun _ _ => holds⟩

theorem ofBounded {bounded : Except Unending α} (holds : ∀ a, bounded = .ok a → condition a) :
    Detached (Engine.ofBounded bounded) condition := by
  cases bounded with
  | ok a => exact .pure (holds a rfl)
  | error e => exact .throw _

theorem ofCollision {attempted : Except Collision α}
    (holds : ∀ a, attempted = .ok a → condition a) :
    Detached (Engine.ofCollision attempted) condition := by
  cases attempted with
  | ok a => exact .pure (holds a rfl)
  | error c => exact .throw _

theorem orCrash {attempted : Except Collision α} (holds : ∀ a, attempted = .ok a → condition a) :
    Detached (Engine.orCrash attempted) condition := by
  cases attempted with
  | ok a => exact .pure (holds a rfl)
  | error c => exact .throw _

/-- An attempt makes a result of a collision. -/
def attempted : Except Halt α → Except Halt (Except Collision α)
  | .ok a => .ok (.ok a)
  | .error (.collision c) => .ok (.error c)
  | .error halt => .error halt

theorem attempt (detached : Detached x condition) :
    Detached (Engine.attempt x) fun attempted => ∀ a, attempted = .ok a → condition a := by
  obtain ⟨outcome, steady, holds⟩ := detached
  refine ⟨attempted outcome, ?_, ?_⟩
  · intro before
    have ran := steady before
    rw [run_attempt]
    cases start : x.run.run before with
    | mk outcome after =>
        rw [start] at ran
        rcases ran with ⟨rfl, same⟩
        cases outcome with
        | ok a => exact ⟨rfl, same⟩
        | error halt => cases halt <;> exact ⟨rfl, same⟩
  · intro attempted same a isOk
    subst isOk
    cases outcome with
    | ok b =>
        cases same
        exact holds a rfl
    | error halt => cases halt <;> cases same

/-- A detached computation has one result. -/
theorem eq_of_returns (detached : Detached x condition) {a b : α} (first : Returns x a)
    (second : Returns x b) : a = b := by
  obtain ⟨outcome, steady, _⟩ := detached
  obtain ⟨before, after, ran⟩ := first
  obtain ⟨beforeOther, afterOther, ranOther⟩ := second
  have same := (steady before).1
  have sameOther := (steady beforeOther).1
  rw [ran] at same
  rw [ranOther] at sameOther
  exact Except.ok.inj (same.trans sameOther.symm)

theorem of_returns (detached : Detached x condition) {a : α} (returned : Returns x a) :
    condition a := by
  obtain ⟨outcome, steady, holds⟩ := detached
  obtain ⟨before, after, ran⟩ := returned
  have same := (steady before).1
  rw [ran] at same
  exact holds a same.symm

theorem nextOrdinal_eq (detached : Detached x condition) {a : α} (ran : Runs x before a after) :
    after.nextOrdinal = before.nextOrdinal := by
  obtain ⟨outcome, steady, _⟩ := detached
  have kept := (steady before).2
  rw [ran] at kept
  exact kept

end Detached

/-! ## Results in every session -/

section Always

variable {a b : α}

/-- The result in every session. -/
def Always (x : Engine α) (a : α) : Prop := ∀ before, ∃ after, Runs x before a after

theorem always_pure (a : α) : Always (pure a) a := fun before => ⟨before, rfl⟩

theorem always_modify (change : Session → Session) :
    Always (modify change : Engine Unit) () := fun before => ⟨change before, rfl⟩

theorem Always.bind {result : β} (first : Always x a) (second : Always (f a) result) :
    Always (x >>= f) result := by
  intro before
  obtain ⟨between, ran⟩ := first before
  obtain ⟨after, ranLater⟩ := second between
  exact ⟨after, runs_bind.mpr ⟨a, between, ran, ranLater⟩⟩

theorem Always.map (g : α → β) (always : Always x a) : Always (g <$> x) (g a) := by
  rw [map_eq_pure_bind]
  exact always.bind (always_pure (g a))

theorem Always.unique (one : Always x a) (other : Always x b) : a = b := by
  obtain ⟨_, ran⟩ := one (.start 0 0)
  obtain ⟨_, ranOther⟩ := other (.start 0 0)
  exact Except.ok.inj (Prod.mk.inj (ran.symm.trans ranOther)).1

theorem Always.returns (always : Always x a) : Returns x a := by
  obtain ⟨after, ran⟩ := always (.start 0 0)
  exact ran.returns

theorem Always.attempt (always : Always x a) : Always (attempt x) (.ok a) := by
  intro before
  obtain ⟨after, ran⟩ := always before
  exact ⟨after, runs_attempt_ok.mpr ran⟩

namespace Detached

variable {condition : α → Prop}

/-- A result of a detached computation is its result in every session. -/
theorem always (detached : Detached x condition) (returned : Returns x a) : Always x a := by
  obtain ⟨outcome, steady, _⟩ := detached
  obtain ⟨start, finish, ran⟩ := returned
  intro before
  have result : outcome = .ok a := by
    rw [← (steady start).1, ran]
  exact ⟨(x.run.run before).2, Prod.ext ((steady before).1.trans result) rfl⟩

/-- Detached computations go on from each other's results in whatever session. -/
theorem returns_bind {result : β → Prop} {b : β} (detached : Detached x condition)
    (later : ∀ a, condition a → Detached (f a) result) :
    Returns (x >>= f) b ↔ ∃ a, Returns x a ∧ Returns (f a) b := by
  constructor
  · rintro ⟨before, after, ran⟩
    obtain ⟨a, between, first, rest⟩ := runs_bind.mp ran
    exact ⟨a, first.returns, rest.returns⟩
  · rintro ⟨a, first, rest⟩
    have laterHere := later a (detached.of_returns first)
    exact ((detached.always first).bind (laterHere.always rest)).returns

end Detached

end Always

end RelationalSolver.Engine

/-! ## Computations that do not stop in certain ways

A computation may stop short for several reasons.  To avoid some of them is a property
that passes from the parts of a computation to the whole.
-/

namespace RelationalSolver

/-- A facet collided, and there is nobody to report it to. -/
def Halt.Clashes : Halt → Prop
  | .crash (.collision _) => True
  | _ => False

/-- A facet collided. -/
def Halt.Collides : Halt → Prop
  | .collision _ => True
  | .crash (.collision _) => True
  | _ => False

namespace Engine

variable {α β : Type} {x : Engine α} {f : α → Engine β} {bad : Halt → Prop}
variable {condition stronger : α → Prop} {result : β → Prop}

/-- In no session does the computation stop in a bad way, and its results satisfy the
condition. -/
def Avoids (bad : Halt → Prop) (x : Engine α) (condition : α → Prop) : Prop :=
  ∀ before, match (x.run.run before).1 with
    | .ok a => condition a
    | .error halt => ¬ bad halt

namespace Avoids

theorem pure {a : α} (holds : condition a) : Avoids bad (Pure.pure a) condition := fun _ => holds

theorem throw {halt : Halt} (good : ¬ bad halt) :
    Avoids bad (MonadExcept.throw halt : Engine α) condition := fun _ => good

theorem bind (first : Avoids bad x condition)
    (second : ∀ a, condition a → Avoids bad (f a) result) : Avoids bad (x >>= f) result := by
  intro before
  have here := first before
  rw [run_bind]
  cases ran : x.run.run before with
  | mk outcome between =>
      rw [ran] at here
      cases outcome with
      | error halt => exact here
      | ok a => exact second a here between

theorem mono (avoids : Avoids bad x stronger) (weaker : ∀ a, stronger a → condition a) :
    Avoids bad x condition := by
  intro before
  have here := avoids before
  cases ran : (x.run.run before).1 with
  | error halt =>
      rw [ran] at here
      exact here
  | ok a =>
      rw [ran] at here
      exact weaker a here

theorem map {g : α → β} (avoids : Avoids bad x condition)
    (holds : ∀ a, condition a → result (g a)) : Avoids bad (g <$> x) result := by
  rw [map_eq_pure_bind]
  exact avoids.bind fun a given => .pure (holds a given)

theorem modifying (change : Session → Session) :
    Avoids bad (modify change : Engine Unit) fun _ => True := fun _ => trivial

theorem ofBounded {bounded : Except Unending α} (good : ¬ bad .unending)
    (holds : ∀ a, bounded = .ok a → condition a) :
    Avoids bad (Engine.ofBounded bounded) condition := by
  cases bounded with
  | ok a => exact .pure (holds a rfl)
  | error e => exact .throw good

theorem ofCollision {attempted : Except Collision α} (good : ∀ c, ¬ bad (.collision c))
    (holds : ∀ a, attempted = .ok a → condition a) :
    Avoids bad (Engine.ofCollision attempted) condition := by
  cases attempted with
  | ok a => exact .pure (holds a rfl)
  | error c => exact .throw (good c)

/-- Handling collisions leaves none, if those that cannot be handled are avoided. -/
theorem attempt (avoids : Avoids Halt.Clashes x condition) :
    Avoids Halt.Collides (attempt x) fun attempted => ∀ a, attempted = .ok a → condition a := by
  intro before
  have here := avoids before
  rw [run_attempt]
  cases ran : x.run.run before with
  | mk outcome after =>
      rw [ran] at here
      cases outcome with
      | ok a =>
          intro b same
          exact Except.ok.inj same ▸ here
      | error halt =>
          match halt, here with
          | .collision c, _ => exact nofun
          | .crash (.collision c), clash => exact absurd trivial clash
          | .crash (.arity e), _ => exact not_false
          | .crash (.undefinedCall name), _ => exact not_false
          | .unending, _ => exact not_false

end Avoids

end Engine

end RelationalSolver
