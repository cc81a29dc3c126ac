import RelationalSolver.Proofs.Session.Engine
import RelationalSolver.Proofs.Unification.Coupling

/-!
# Runs that agree but for condensing

Two computations, begun in sessions in which observers were told the same but for condensed
chains, agree if they end in the same way in such sessions again.  Computations whose parts
agree do so, and a computation that does nothing but condense can be left out.
-/

namespace RelationalSolver

/-! ## What was observed of condensing -/

/-- The counts without the condensed chains. -/
def Tally.uncondensed (t : Tally) : Tally := { t with condensed := 0 }

/-- An observer was told that a chain was condensed. -/
def Notice.isCondensed : Notice → Bool
  | .observed _ key _ => key = .condensed
  | _ => false

namespace Session

variable {s other : Session}

/-- The session without what observers were told about condensed chains. -/
def uncondensed (s : Session) : Session :=
  { s with
    recorded := s.recorded.filter (·.key ≠ .condensed)
    tallies := s.tallies.map .uncondensed
    log := s.log.filter (!·.isCondensed) }

/-- Nothing but what observers were told about condensed chains is different. -/
def Matches (s other : Session) : Prop := s.uncondensed = other.uncondensed

theorem Matches.nextOrdinal_eq (alike : s.Matches other) : s.nextOrdinal = other.nextOrdinal := by
  have same := congrArg nextOrdinal alike
  exact same

theorem uncondensed_write (s : Session) (notice : Notice) :
    (s.write notice).uncondensed =
      if notice.isCondensed then s.uncondensed else s.uncondensed.write notice := by
  simp only [uncondensed, write, Array.filter_push]
  cases notice.isCondensed <;> rfl

theorem uncondensed_count (t : Tally) (key : EventKey) :
    (t.count key).uncondensed =
      if key = .condensed then t.uncondensed else t.uncondensed.count key := by
  split_ifs with condensed
  · have notFresh : key ≠ .varsFresh := condensed ▸ by decide
    have notBound : key ≠ .bound := condensed ▸ by decide
    rw [Tally.count, if_neg notFresh, if_neg notBound, if_pos condensed]
    rfl
  · unfold Tally.count
    rw [if_neg condensed, if_neg condensed]
    simp only [apply_ite Tally.uncondensed]
    rfl

theorem map_modify_uncondensed (tallies : List Tally) (number : Nat) {f g : Tally → Tally}
    (same : ∀ t, (f t).uncondensed = g t.uncondensed) :
    (tallies.modify number f).map Tally.uncondensed =
      (tallies.map Tally.uncondensed).modify number g := by
  apply List.ext_getElem?
  intro i
  simp only [List.getElem?_map, List.getElem?_modify, Option.map_eq_map, Option.map_map]
  congr 1
  funext t
  by_cases here : number = i <;> simp [here, same]

theorem uncondensed_modify (tallies : List Tally) (number : Nat) (key : EventKey) :
    (tallies.modify number (·.count key)).map Tally.uncondensed =
      if key = .condensed then tallies.map Tally.uncondensed
      else (tallies.map Tally.uncondensed).modify number (·.count key) := by
  split_ifs with condensed
  · rw [map_modify_uncondensed (g := id), List.modify_id]
    intro t
    rw [uncondensed_count, if_pos condensed, id]
  · apply map_modify_uncondensed
    intro t
    rw [uncondensed_count, if_neg condensed]

/-- What an observer receives is remembered unless it is about a condensed chain. -/
theorem uncondensed_receive (s : Session) (key : EventKey) (payload : Payload) (bindings : Nat)
    (observer : Observer) :
    (s.receive key payload bindings observer).uncondensed =
      if key = .condensed then s.uncondensed
      else s.uncondensed.receive key payload bindings observer := by
  cases observer with
  | recorder number =>
      simp only [receive, uncondensed, Array.filter_push, decide_not, Bool.not_eq_true',
        decide_eq_false_iff_not]
      split_ifs <;> simp_all
  | tally number =>
      simp only [receive, uncondensed, uncondensed_modify]
      split_ifs <;> rfl
  | logger label =>
      simp only [receive, uncondensed_write, Notice.isCondensed, decide_eq_true_eq]

/-- Whoever is told, what is told of a condensed chain makes no difference. -/
theorem uncondensed_foldl_receive (key : EventKey) (payload : Payload) (bindings : Nat)
    (observers : List Observer) (s : Session) :
    (observers.foldl (·.receive key payload bindings ·) s).uncondensed =
      if key = .condensed then s.uncondensed
      else observers.foldl (·.receive key payload bindings ·) s.uncondensed := by
  induction observers generalizing s with
  | nil => simp
  | cons observer observers ih =>
      rw [List.foldl_cons, ih, uncondensed_receive, List.foldl_cons]
      split_ifs <;> rfl

end Session

namespace Engine

variable {α β : Type} {R : α → β → Prop}

/-- Both computations have ended in the same way, in sessions that match. -/
inductive Ends (R : α → β → Prop) : Except Halt α × Session → Except Halt β × Session → Prop
  | result {a : α} {b : β} {s other : Session} : R a b → s.Matches other →
      Ends R (.ok a, s) (.ok b, other)
  | halted (halt : Halt) {s other : Session} : s.Matches other →
      Ends R (.error halt, s) (.error halt, other)

/-- Begun in matching sessions, the computations end in the same way. -/
def Agrees (R : α → β → Prop) (x : Engine α) (y : Engine β) : Prop :=
  ∀ s other : Session, s.Matches other → Ends R (x.run.run s) (y.run.run other)

theorem Agrees.pure {a : α} {b : β} (holds : R a b) :
    Agrees R (Pure.pure a) (Pure.pure b) := fun _ _ alike => .result holds alike

theorem Agrees.bind {γ δ : Type} {S : γ → δ → Prop} {x : Engine α} {y : Engine β}
    {f : α → Engine γ} {g : β → Engine δ} (first : Agrees R x y)
    (later : ∀ a b, R a b → Agrees S (f a) (g b)) : Agrees S (x >>= f) (y >>= g) := by
  intro s other alike
  have ended := first s other alike
  rw [run_bind, run_bind]
  generalize x.run.run s = ran at *
  generalize y.run.run other = ranOther at *
  cases ended with
  | result holds between => exact later _ _ holds _ _ between
  | halted halt between => exact .halted halt between

/-- Computations that end in the same way but for what is observed of condensing. -/
def agreeing : Coupling Engine where
  Related := Agrees
  pure := .pure
  bind := .bind

namespace Agrees

variable {x : Engine α} {y : Engine β}

theorem mono {S : α → β → Prop} (agrees : Agrees R x y) (weaker : ∀ a b, R a b → S a b) :
    Agrees S x y := agreeing.mono agrees weaker

theorem map {γ δ : Type} {S : γ → δ → Prop} {f : α → γ} {g : β → δ} (agrees : Agrees R x y)
    (holds : ∀ a b, R a b → S (f a) (g b)) : Agrees S (f <$> x) (g <$> y) :=
  agreeing.map agrees holds

/-- What is related are results that the computations return. -/
theorem returned (agrees : Agrees R x y) :
    Agrees (fun a b => R a b ∧ Returns x a ∧ Returns y b) x y := by
  intro s other alike
  have ended := agrees s other alike
  cases ran : x.run.run s with
  | mk outcome after =>
      cases ranOther : y.run.run other with
      | mk outcomeOther afterOther =>
          rw [ran, ranOther] at ended
          cases ended with
          | result holds matched =>
              exact .result ⟨holds, ⟨s, after, ran⟩, ⟨other, afterOther, ranOther⟩⟩ matched
          | halted halt matched => exact .halted halt matched

theorem throw (halt : Halt) : Agrees R (MonadExcept.throw halt) (MonadExcept.throw halt) :=
  fun _ _ alike => .halted halt alike

theorem ofBounded {x : Except Unending α} {y : Except Unending β}
    (agrees : Coupling.alike.Related R x y) :
    Agrees R (Engine.ofBounded x) (Engine.ofBounded y) := by
  rcases agrees with ⟨a, b, holds, rfl, rfl⟩ | ⟨rfl, rfl⟩
  · exact .pure holds
  · exact .throw _

theorem ofBounded_self (x : Except Unending α) :
    Agrees Eq (Engine.ofBounded x) (Engine.ofBounded x) := by
  cases x with
  | ok a => exact .pure rfl
  | error e => exact .throw _

/-- Both attempts have come to results that are related, or to the same error. -/
inductive Tried {ε : Type} (R : α → β → Prop) : Except ε α → Except ε β → Prop
  | result {a : α} {b : β} : R a b → Tried R (.ok a) (.ok b)
  | failed (e : ε) : Tried R (.error e) (.error e)

theorem attempt (agrees : Agrees R x y) :
    Agrees (Tried R) (Engine.attempt x) (Engine.attempt y) := by
  intro s other alike
  have ended := agrees s other alike
  rw [run_attempt, run_attempt]
  generalize x.run.run s = ran at *
  generalize y.run.run other = ranOther at *
  cases ended with
  | result holds after => exact .result (.result holds) after
  | halted halt after =>
      cases halt with
      | collision c => exact .result (.failed c) after
      | crash cause => exact .halted _ after
      | unending => exact .halted _ after

/-! ## Computations that write into the session -/

theorem modifying {f g : Session → Session}
    (keeps : ∀ s other, s.Matches other → (f s).Matches (g other)) :
    Agrees Eq (modify f : Engine Unit) (modify g) :=
  fun s other alike => .result rfl (keeps s other alike)

theorem notify (notice : Notice) : Agrees Eq (Engine.notify notice) (Engine.notify notice) := by
  apply modifying
  intro s other alike
  unfold Session.Matches at alike ⊢
  rw [Session.uncondensed_write, Session.uncondensed_write, alike]

theorem notifyAll (notices : List Notice) :
    Agrees Eq (notices.forM Engine.notify) (notices.forM Engine.notify) := by
  induction notices with
  | nil => exact .pure rfl
  | cons notice notices ih => exact (notify notice).bind fun _ _ _ => ih

/-- Events are delivered to the same observers. -/
theorem fire {registry registryOther : Registry}
    (observers : registry.observers = registryOther.observers) (key : EventKey)
    (payload : Payload) (bindings : Nat) :
    Agrees Eq (Engine.fire registry key payload bindings)
      (Engine.fire registryOther key payload bindings) := by
  have receivers : registry.receivers key = registryOther.receivers key := by
    unfold Registry.receivers Registry.observersOf
    rw [observers]
  apply modifying
  intro s other alike
  unfold Session.Matches at alike ⊢
  rw [Session.uncondensed_foldl_receive, Session.uncondensed_foldl_receive, receivers, alike]

theorem freshVars (count : Nat) : Agrees Eq (Engine.freshVars count) (Engine.freshVars count) := by
  intro s other alike
  have same := alike.nextOrdinal_eq
  refine .result (congrArg (fun first => (List.range count).map fun i => Var.numbered (first + i))
    same) ?_
  change Session.uncondensed { s with nextOrdinal := s.nextOrdinal + count } =
    Session.uncondensed { other with nextOrdinal := other.nextOrdinal + count }
  rw [same]
  exact congrArg (fun t : Session => { t with nextOrdinal := other.nextOrdinal + count }) alike

end Agrees

/-! ## Computations that only condense -/

/-- The computation gives a result that satisfies the condition, and nothing but what
observers are told about condensed chains is different afterwards. -/
def Silent (x : Engine α) (condition : α → Prop) : Prop :=
  ∀ before, ∃ a after, Runs x before a after ∧ before.Matches after ∧ condition a

namespace Silent

variable {x : Engine α} {y : Engine β} {condition : α → Prop} {conditionOther : β → Prop}

theorem pure {a : α} (holds : condition a) : Silent (Pure.pure a) condition :=
  fun before => ⟨a, before, runs_pure.mpr ⟨rfl, rfl⟩, rfl, holds⟩

theorem bind {result : β → Prop} {f : α → Engine β} (first : Silent x condition)
    (later : ∀ a, condition a → Silent (f a) result) : Silent (x >>= f) result := by
  intro before
  obtain ⟨a, between, ran, alike, holds⟩ := first before
  obtain ⟨b, after, rest, still, holdsLater⟩ := later a holds between
  exact ⟨b, after, runs_bind.mpr ⟨a, between, ran, rest⟩, alike.trans still, holdsLater⟩

theorem mono {stronger : α → Prop} (silent : Silent x stronger)
    (weaker : ∀ a, stronger a → condition a) : Silent x condition := by
  intro before
  obtain ⟨a, after, ran, alike, holds⟩ := silent before
  exact ⟨a, after, ran, alike, weaker a holds⟩

/-- Firing a condensed chain is all that is different. -/
theorem fire (registry : Registry) (payload : Payload) (bindings : Nat) :
    Silent (Engine.fire registry .condensed payload bindings) fun _ => True := by
  intro before
  refine ⟨(), _, rfl, ?_, trivial⟩
  change _ = Session.uncondensed _
  rw [Session.uncondensed_foldl_receive, if_pos rfl]

/-- What only condenses agrees with what only condenses. -/
theorem agrees (silent : Silent x condition) (silentOther : Silent y conditionOther) :
    Agrees (fun a b => condition a ∧ conditionOther b) x y := by
  intro s other alike
  obtain ⟨a, after, ran, same, holds⟩ := silent s
  obtain ⟨b, afterOther, ranOther, sameOther, holdsOther⟩ := silentOther other
  unfold Runs at ran ranOther
  rw [ran, ranOther]
  exact .result ⟨holds, holdsOther⟩ (same.symm.trans (alike.trans sameOther))

end Silent

end Engine

end RelationalSolver
