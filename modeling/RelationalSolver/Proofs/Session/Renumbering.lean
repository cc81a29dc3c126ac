import RelationalSolver.Proofs.Context.Detached
import RelationalSolver.Proofs.Session.Coupling
import RelationalSolver.Proofs.Session.Lifecycle
import RelationalSolver.Proofs.Term.Renumbering

/-!
# Sessions under other numbers

Two computations run in two sessions, whatever these have received before.  Under other
numbers they do the same: what reaches one session reaches the other, with the variables of
one in the place of those of the other.
-/

namespace RelationalSolver

/-! ## What reaches a session -/

/-- The same payload about variables under other numbers. -/
def Payload.renumber (ρ : ℕ → ℕ) : Payload → Payload
  | .fresh vars => .fresh (vars.map (·.renumber ρ))
  | .bind v t => .bind (v.renumber ρ) (t.renumber ρ)
  | .condense value chain => .condense (value.renumber ρ) (chain.map (·.renumber ρ))
  | .violation v constraint => .violation (v.renumber ρ) constraint
  | payload => payload

/-- The same event about variables under other numbers. -/
def Event.renumber (ρ : ℕ → ℕ) (event : Event) : Event :=
  { event with payload := event.payload.renumber ρ }

/-- The same notice about variables under other numbers. -/
def Notice.renumber (ρ : ℕ → ℕ) : Notice → Notice
  | .emptyRelation v => .emptyRelation (v.renumber ρ)
  | .emptyDomain v => .emptyDomain (v.renumber ρ)
  | .observed label key payload => .observed label key (payload.renumber ρ)
  | notice => notice

/-- The same solution over variables under other numbers. -/
def Solution.renumber (ρ : ℕ → ℕ) (solution : Solution) : Solution :=
  { solution with
    bindings := solution.bindings.map fun (v, t) => (v.renumber ρ, t.renumber ρ) }

/-- What a computation does to its session. -/
inductive Signal where
  | wrote (notice : Notice)
  | told (observer : Observer) (event : Event)
  /-- So many variables were introduced. -/
  | introduced (count : Nat)
  /-- A run ended. -/
  | ended (statistics : Statistics)
  | yielded (solution : Solution)

/-- The same about variables under other numbers. -/
def Signal.renumber (ρ : ℕ → ℕ) : Signal → Signal
  | .wrote notice => .wrote (notice.renumber ρ)
  | .told observer event => .told observer (event.renumber ρ)
  | .introduced count => .introduced count
  | .ended statistics => .ended statistics
  | .yielded solution => .yielded (solution.renumber ρ)

/-! A renumbering can be taken back. -/

section Cancelling

variable {ρ τ : ℕ → ℕ} (inverse : ∀ ordinal, τ (ρ ordinal) = ordinal)
include inverse

theorem Payload.renumber_cancel (payload : Payload) :
    (payload.renumber ρ).renumber τ = payload := by
  cases payload with
  | fresh vars => exact congrArg fresh (Var.map_renumber_cancel inverse vars)
  | bind v t =>
      exact congrArg₂ bind (Var.renumber_cancel inverse v) (Term.renumber_cancel inverse t)
  | condense value chain =>
      exact congrArg₂ condense (Term.renumber_cancel inverse value)
        (Var.map_renumber_cancel inverse chain)
  | violation v name => exact congrArg (violation · name) (Var.renumber_cancel inverse v)
  | _ => rfl

theorem Notice.renumber_cancel (notice : Notice) : (notice.renumber ρ).renumber τ = notice := by
  cases notice with
  | emptyRelation v => exact congrArg emptyRelation (Var.renumber_cancel inverse v)
  | emptyDomain v => exact congrArg emptyDomain (Var.renumber_cancel inverse v)
  | observed label key payload =>
      exact congrArg (observed label key) (Payload.renumber_cancel inverse payload)
  | _ => rfl

theorem Solution.renumber_cancel (solution : Solution) :
    (solution.renumber ρ).renumber τ = solution := by
  obtain ⟨index, bindings, made⟩ := solution
  refine congrArg (Solution.mk index · made) (List.map_map.trans ?_)
  refine (List.map_congr_left fun entry _ => ?_).trans (List.map_id' bindings)
  exact Prod.ext (Var.renumber_cancel inverse entry.1) (Term.renumber_cancel inverse entry.2)

theorem Signal.renumber_cancel (signal : Signal) : (signal.renumber ρ).renumber τ = signal := by
  cases signal with
  | wrote notice => exact congrArg wrote (Notice.renumber_cancel inverse notice)
  | told observer event =>
      exact congrArg (fun payload => told observer { event with payload := payload })
        (Payload.renumber_cancel inverse event.payload)
  | introduced count => rfl
  | ended statistics => rfl
  | yielded solution => exact congrArg yielded (Solution.renumber_cancel inverse solution)

theorem Signal.map_renumber_cancel (signals : List Signal) :
    (signals.map (·.renumber ρ)).map (·.renumber τ) = signals := by
  rw [List.map_map]
  exact (List.map_congr_left fun signal _ => Signal.renumber_cancel inverse signal).trans
    (List.map_id' signals)

end Cancelling

namespace Session

/-- The session afterwards. -/
def heed (s : Session) : Signal → Session
  | .wrote notice => s.write notice
  | .told observer event => s.receive event.key event.payload event.bindings observer
  | .introduced count => { s with nextOrdinal := s.nextOrdinal + count }
  | .ended statistics => { s with statistics := statistics }
  | .yielded solution => { s with latest := some solution }

/-- The session after several signals. -/
def heedAll (s : Session) (signals : List Signal) : Session := signals.foldl heed s

/-- The variables to be created are renumbered in the order of their creation. -/
def Shifts (ρ : ℕ → ℕ) (s other : Session) : Prop :=
  ∀ i, ρ (s.nextOrdinal + i) = other.nextOrdinal + i

theorem heedAll_append (s : Session) (signals later : List Signal) :
    s.heedAll (signals ++ later) = (s.heedAll signals).heedAll later := List.foldl_append

theorem Shifts.heedAll {ρ : ℕ → ℕ} {s other : Session} (shifts : s.Shifts ρ other)
    (signals : List Signal) :
    (s.heedAll signals).Shifts ρ (other.heedAll (signals.map (·.renumber ρ))) := by
  induction signals generalizing s other with
  | nil => exact shifts
  | cons signal signals ih =>
      apply ih
      intro i
      cases signal with
      | wrote notice => exact shifts i
      | told observer event =>
          change ρ ((s.receive _ _ _ observer).nextOrdinal + i) =
            (other.receive _ _ _ observer).nextOrdinal + i
          rw [Context.nextOrdinal_receive, Context.nextOrdinal_receive, shifts]
      | introduced count =>
          change ρ (s.nextOrdinal + count + i) = other.nextOrdinal + count + i
          rw [Nat.add_assoc, shifts, Nat.add_assoc]
      | ended statistics => exact shifts i
      | yielded solution => exact shifts i

end Session

/-! ## Computations under other numbers -/

namespace Engine

open Agrees (Tried)

variable {ρ : ℕ → ℕ} {α β γ δ : Type} {R : α → β → Prop} {x : Engine α} {y : Engine β}

/-- Run in the two sessions, the computations end in the same way, after the same signals under
other numbers. -/
def EndAlike (ρ : ℕ → ℕ) (R : α → β → Prop) (x : Engine α) (y : Engine β) (s other : Session) :
    Prop :=
  ∃ signals : List Signal, Tried R (x.run.run s).1 (y.run.run other).1 ∧
    (x.run.run s).2 = s.heedAll signals ∧
    (y.run.run other).2 = other.heedAll (signals.map (·.renumber ρ))

/-- The computations end alike in any sessions whose new variables are renumbered in step. -/
def Renumbers (ρ : ℕ → ℕ) (R : α → β → Prop) (x : Engine α) (y : Engine β) : Prop :=
  ∀ s other : Session, s.Shifts ρ other → EndAlike ρ R x y s other

/-- Seen from the other session. -/
theorem EndAlike.symm {τ : ℕ → ℕ} {S : β → α → Prop} {s other : Session}
    (inverse : ∀ ordinal, τ (ρ ordinal) = ordinal) (turned : ∀ a b, R a b → S b a)
    (alike : EndAlike ρ R x y s other) : EndAlike τ S y x other s := by
  obtain ⟨signals, outcome, received, receivedOther⟩ := alike
  refine ⟨signals.map (·.renumber ρ), ?_, receivedOther, ?_⟩
  · generalize (x.run.run s).1 = ended at outcome
    generalize (y.run.run other).1 = endedOther at outcome
    cases outcome with
    | result holds => exact .result (turned _ _ holds)
    | failed halt => exact .failed halt
  · rw [Signal.map_renumber_cancel inverse]
    exact received

theorem Renumbers.pure {a : α} {b : β} (holds : R a b) :
    Renumbers ρ R (Pure.pure a) (Pure.pure b) := fun _ _ _ => ⟨[], .result holds, rfl, rfl⟩

theorem Renumbers.bind {S : γ → δ → Prop} {f : α → Engine γ} {g : β → Engine δ}
    (first : Renumbers ρ R x y) (later : ∀ a b, R a b → Renumbers ρ S (f a) (g b)) :
    Renumbers ρ S (x >>= f) (y >>= g) := by
  intro s other shifts
  obtain ⟨signals, outcome, received, receivedOther⟩ := first s other shifts
  unfold EndAlike
  rw [run_bind, run_bind]
  generalize x.run.run s = ran at *
  generalize y.run.run other = ranOther at *
  obtain ⟨result, between⟩ := ran
  obtain ⟨resultOther, betweenOther⟩ := ranOther
  dsimp only at received receivedOther
  subst received receivedOther
  cases outcome with
  | failed halt => exact ⟨signals, .failed halt, rfl, rfl⟩
  | result holds =>
      obtain ⟨more, ended, last, lastOther⟩ := later _ _ holds _ _ (shifts.heedAll signals)
      refine ⟨signals ++ more, ended, ?_, ?_⟩
      · rw [Session.heedAll_append]
        exact last
      · rw [List.map_append, Session.heedAll_append]
        exact lastOther

/-- Computations that do the same under other numbers. -/
def renumbering (ρ : ℕ → ℕ) : Coupling Engine where
  Related := Renumbers ρ
  pure := .pure
  bind := .bind

namespace Renumbers

theorem mono {S : α → β → Prop} (same : Renumbers ρ R x y) (weaker : ∀ a b, R a b → S a b) :
    Renumbers ρ S x y := (renumbering ρ).mono same weaker

theorem map {S : γ → δ → Prop} {f : α → γ} {g : β → δ} (same : Renumbers ρ R x y)
    (holds : ∀ a b, R a b → S (f a) (g b)) : Renumbers ρ S (f <$> x) (g <$> y) :=
  (renumbering ρ).map same holds

theorem throw (halt : Halt) :
    Renumbers ρ R (MonadExcept.throw halt) (MonadExcept.throw halt) :=
  fun _ _ _ => ⟨[], .failed halt, rfl, rfl⟩

theorem ofBounded {x : Except Unending α} {y : Except Unending β}
    (same : Coupling.alike.Related R x y) :
    Renumbers ρ R (Engine.ofBounded x) (Engine.ofBounded y) := by
  rcases same with ⟨a, b, holds, rfl, rfl⟩ | ⟨rfl, rfl⟩
  · exact .pure holds
  · exact .throw _

theorem ofCollision {x : Except Collision α} {y : Except Collision β} (same : Tried R x y) :
    Renumbers ρ R (Engine.ofCollision x) (Engine.ofCollision y) := by
  cases same with
  | result holds => exact .pure holds
  | failed c => exact .throw _

theorem orCrash {x : Except Collision α} {y : Except Collision β} (same : Tried R x y) :
    Renumbers ρ R (Engine.orCrash x) (Engine.orCrash y) := by
  cases same with
  | result holds => exact .pure holds
  | failed c => exact .throw _

theorem attempt (same : Renumbers ρ R x y) :
    Renumbers ρ (Tried R) (Engine.attempt x) (Engine.attempt y) := by
  intro s other shifts
  obtain ⟨signals, outcome, received, receivedOther⟩ := same s other shifts
  unfold EndAlike
  rw [run_attempt, run_attempt]
  generalize x.run.run s = ran at *
  generalize y.run.run other = ranOther at *
  obtain ⟨result, after⟩ := ran
  obtain ⟨resultOther, afterOther⟩ := ranOther
  dsimp only at received receivedOther
  cases outcome with
  | result holds => exact ⟨signals, .result (.result holds), received, receivedOther⟩
  | failed halt =>
      cases halt with
      | collision c => exact ⟨signals, .result (.failed c), received, receivedOther⟩
      | crash cause => exact ⟨signals, .failed _, received, receivedOther⟩
      | unending => exact ⟨signals, .failed _, received, receivedOther⟩

/-! ## Computations that write into the session -/

/-- One change of the session is a signal. -/
theorem signal {f g : Session → Session} (signal : Signal) (here : ∀ s, f s = s.heed signal)
    (there : ∀ s, g s = s.heed (signal.renumber ρ)) :
    Renumbers ρ Eq (modify f : Engine Unit) (modify g) :=
  fun s other _ => ⟨[signal], .result rfl, here s, there other⟩

theorem notify (notice : Notice) :
    Renumbers ρ Eq (Engine.notify notice) (Engine.notify (notice.renumber ρ)) :=
  signal (.wrote notice) (fun _ => rfl) fun _ => rfl

theorem notifyAll (notices : List Notice) :
    Renumbers ρ Eq (notices.forM Engine.notify)
      ((notices.map (·.renumber ρ)).forM Engine.notify) := by
  induction notices with
  | nil => exact .pure rfl
  | cons notice notices ih => exact (notify notice).bind fun _ _ _ => ih

/-- An event is delivered to the same observers. -/
theorem fire (registry : Registry) (key : EventKey) (payload : Payload) (bindings : Nat) :
    Renumbers ρ Eq (Engine.fire registry key payload bindings)
      (Engine.fire registry key (payload.renumber ρ) bindings) := by
  have delivered : ∀ (payload : Payload) (observers : List Observer) (s : Session),
      observers.foldl (·.receive key payload bindings ·) s =
        s.heedAll (observers.map fun observer => .told observer ⟨key, payload, bindings⟩) := by
    intro payload observers s
    rw [Session.heedAll, List.foldl_map]
    rfl
  intro s other _
  refine ⟨(registry.receivers key).map fun observer => .told observer ⟨key, payload, bindings⟩,
    .result rfl, delivered payload _ s, ?_⟩
  rw [List.map_map]
  exact delivered (payload.renumber ρ) _ other

/-- New variables are renumbered one by one. -/
theorem freshVars (count : Nat) :
    Renumbers ρ (fun vars others => others = vars.map (·.renumber ρ)) (Engine.freshVars count)
      (Engine.freshVars count) := by
  intro s other shifts
  refine ⟨[.introduced count], .result ?_, rfl, rfl⟩
  change (List.range count).map (fun i => Var.numbered (other.nextOrdinal + i)) =
    ((List.range count).map fun i => Var.numbered (s.nextOrdinal + i)).map (·.renumber ρ)
  rw [List.map_map]
  exact List.map_congr_left fun i _ => congrArg Var.numbered (shifts i).symm

end Renumbers

end Engine

end RelationalSolver
