import RelationalSolver.Proofs.Session.Engine

/-!
# What a session shows of whole runs

The events of whole runs go to the same observers as those of the searches in them.  Seen
without what searches fire, write and number, a session is changed by the former only.
-/

namespace RelationalSolver

namespace EventKey

/-- The events that searches fire. -/
def OfSearch (key : EventKey) : Prop :=
  key ∈ [varsFresh, bound, condensed, violated, rowSucceeded, rowFailed]

instance (key : EventKey) : Decidable (OfSearch key) :=
  inferInstanceAs (Decidable (key ∈ [varsFresh, bound, condensed, violated, rowSucceeded,
    rowFailed]))

/-- The event is about a run as a whole. -/
def isLifecycle (key : EventKey) : Bool := key ∈ [queryStarted, querySolution, queryEnded]

theorem OfSearch.isLifecycle_eq {key : EventKey} (searches : OfSearch key) :
    isLifecycle key = false := by
  simp only [OfSearch, List.mem_cons, List.not_mem_nil, or_false] at searches
  rcases searches with rfl | rfl | rfl | rfl | rfl | rfl <;> decide

end EventKey

/-- The notices that searches write. -/
def Notice.OfSearch : Notice → Prop
  | .planned _ _ _ | .conjunction _ | .emptyRelation _ | .emptyDomain _ | .zeroCardinality _
  | .rowSucceeded _ _ | .rowFailed _ _ => True
  | _ => False

/-- A logging observer was told about a run as a whole. -/
def Notice.isLifecycle : Notice → Bool
  | .observed _ key _ => EventKey.isLifecycle key
  | _ => false

/-- The counts of the events of whole runs. -/
def Tally.lifecycle (t : Tally) : Tally :=
  { Tally.zero with
    queriesStarted := t.queriesStarted
    solutions := t.solutions
    queriesEnded := t.queriesEnded }

theorem Tally.lifecycle_count (t : Tally) (key : EventKey) :
    (t.count key).lifecycle =
      if EventKey.isLifecycle key then t.lifecycle.count key else t.lifecycle := by
  by_cases started : key = .queryStarted
  · subst started
    rfl
  by_cases solved : key = .querySolution
  · subst solved
    rfl
  by_cases ended : key = .queryEnded
  · subst ended
    rfl
  have other : EventKey.isLifecycle key = false := by
    simp [EventKey.isLifecycle, started, solved, ended]
  rw [other, if_neg Bool.false_ne_true]
  simp only [count, started, solved, ended, if_false, apply_ite lifecycle]
  simp only [lifecycle, ite_self]

/-- What is fired to those who are subscribed. -/
structure Event where
  key : EventKey
  payload : Payload
  /-- Bindings that the branch had made. -/
  bindings : Nat

namespace Session

variable {s mid other : Session}

/-- The session without new variables, and without what observers were told of searches. -/
def lifecycle (s : Session) : Session :=
  { s with
    nextOrdinal := 0
    recorded := s.recorded.filter fun received => EventKey.isLifecycle received.key
    tallies := s.tallies.map .lifecycle
    log := s.log.filter Notice.isLifecycle }

/-- Deliver an event to those who are subscribed to it, if there are hooks. -/
def tell (hooks : Option Registry) (event : Event) (s : Session) : Session :=
  match hooks with
  | some registry =>
      (registry.receivers event.key).foldl
        (·.receive event.key event.payload event.bindings ·) s
  | none => s

/-- Deliver events one after the other. -/
def tellAll (hooks : Option Registry) (events : List Event) (s : Session) : Session :=
  events.foldl (fun s event => s.tell hooks event) s

theorem lifecycle_write (s : Session) {notice : Notice} (other : notice.isLifecycle = false) :
    (s.write notice).lifecycle = s.lifecycle := by
  simp only [lifecycle, write, Array.filter_push, other, Bool.false_eq_true, if_false]

theorem lifecycle_modify (tallies : List Tally) (number : Nat) (key : EventKey) :
    (tallies.modify number (·.count key)).map Tally.lifecycle =
      if EventKey.isLifecycle key then (tallies.map Tally.lifecycle).modify number (·.count key)
      else tallies.map Tally.lifecycle := by
  have counted : ∀ tally : Tally, (tally.count key).lifecycle = _ := (·.lifecycle_count key)
  apply List.ext_getElem?
  intro i
  simp only [apply_ite (·[i]?), List.getElem?_map, List.getElem?_modify, Option.map_eq_map,
    Option.map_map]
  cases tallies[i]? with
  | none => simp
  | some tally => by_cases here : number = i <;> simp [here, counted, apply_ite some]

/-- Only events about whole runs are seen. -/
theorem lifecycle_receive (s : Session) (key : EventKey) (payload : Payload) (bindings : Nat)
    (observer : Observer) :
    (s.receive key payload bindings observer).lifecycle =
      if EventKey.isLifecycle key then s.lifecycle.receive key payload bindings observer
      else s.lifecycle := by
  cases observer with
  | recorder number =>
      simp only [receive, lifecycle, Array.filter_push]
      split <;> rfl
  | tally number =>
      simp only [receive, lifecycle, lifecycle_modify]
      split <;> rfl
  | logger label =>
      have told : (Notice.observed label key payload).isLifecycle = EventKey.isLifecycle key := rfl
      simp only [receive, lifecycle, write, Array.filter_push, told]
      split <;> rfl

theorem lifecycle_tell (s : Session) (hooks : Option Registry) (event : Event) :
    (s.tell hooks event).lifecycle =
      if EventKey.isLifecycle event.key then s.lifecycle.tell hooks event else s.lifecycle := by
  cases hooks with
  | none => simp [tell]
  | some registry =>
      unfold tell
      dsimp only
      generalize registry.receivers event.key = observers
      induction observers generalizing s with
      | nil => simp
      | cons observer observers ih =>
          rw [List.foldl_cons, ih, lifecycle_receive, List.foldl_cons]
          split <;> rfl

/-! ## What stays received -/

/-- What observers have received and what was logged in one session has been so in another,
and before anything else. -/
structure Extends (s other : Session) : Prop where
  recorded : s.recorded.toList <+: other.recorded.toList
  log : s.log.toList <+: other.log.toList

namespace Extends

theorem refl (s : Session) : s.Extends s := ⟨List.prefix_rfl, List.prefix_rfl⟩

theorem trans (first : s.Extends mid) (second : mid.Extends other) : s.Extends other :=
  ⟨first.recorded.trans second.recorded, first.log.trans second.log⟩

theorem write (s : Session) (notice : Notice) : s.Extends (s.write notice) := by
  refine ⟨List.prefix_rfl, ?_⟩
  rw [Session.write, Array.toList_push]
  exact List.prefix_append _ _

theorem receive (s : Session) (key : EventKey) (payload : Payload) (bindings : Nat)
    (observer : Observer) : s.Extends (s.receive key payload bindings observer) := by
  cases observer with
  | recorder number =>
      refine ⟨?_, List.prefix_rfl⟩
      rw [Session.receive, Array.toList_push]
      exact List.prefix_append _ _
  | tally number => exact ⟨List.prefix_rfl, List.prefix_rfl⟩
  | logger label => exact write s _

theorem tell (hooks : Option Registry) (event : Event) (s : Session) :
    s.Extends (s.tell hooks event) := by
  cases hooks with
  | none => exact refl s
  | some registry =>
      unfold Session.tell
      dsimp only
      generalize registry.receivers event.key = observers
      induction observers generalizing s with
      | nil => exact refl s
      | cons observer observers ih => exact (receive s ..).trans (ih _)

end Extends

end Session

namespace Engine

variable {α β : Type} {x : Engine α} {f : α → Engine β}

/-- Nothing is taken back, and what the session shows of whole runs is left alone. -/
def Discreet (x : Engine α) : Prop :=
  ∀ before, (x.run.run before).2.lifecycle = before.lifecycle ∧
    before.Extends (x.run.run before).2

namespace Discreet

theorem pure (a : α) : Discreet (Pure.pure a) := fun before => ⟨rfl, .refl before⟩

theorem throw (halt : Halt) : Discreet (MonadExcept.throw halt : Engine α) :=
  fun before => ⟨rfl, .refl before⟩

theorem bind (first : Discreet x) (later : ∀ a, Discreet (f a)) : Discreet (x >>= f) := by
  intro before
  have here := first before
  rw [run_bind]
  cases ran : x.run.run before with
  | mk outcome between =>
      rw [ran] at here
      cases outcome with
      | error halt => exact here
      | ok a =>
          have rest := later a between
          exact ⟨rest.1.trans here.1, here.2.trans rest.2⟩

theorem attempt (discreet : Discreet x) : Discreet (Engine.attempt x) := by
  intro before
  have here := discreet before
  rw [run_attempt]
  cases ran : x.run.run before with
  | mk outcome after =>
      rw [ran] at here
      cases outcome with
      | ok a => exact here
      | error halt => cases halt <;> exact here

theorem notify {notice : Notice} (other : notice.isLifecycle = false) :
    Discreet (Engine.notify notice) :=
  fun before => ⟨before.lifecycle_write other, .write before notice⟩

theorem freshVars (count : Nat) : Discreet (Engine.freshVars count) :=
  fun _ => ⟨rfl, List.prefix_rfl, List.prefix_rfl⟩

end Discreet

end Engine

end RelationalSolver
