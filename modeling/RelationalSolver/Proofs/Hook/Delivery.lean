import Mathlib.Data.List.Induction
import RelationalSolver.Proofs.Session.Engine

/-!
# Delivery of events

A registry keeps its observers under their keys, and an event of one key is told under every
key above it.  What a registry tells can be read from the history of its registrations: an
event goes to the subscriptions of its key and of everything above it, once for each of them,
from the special to the general, and those of one key are told in the order of their
registration.
-/

namespace RelationalSolver

/-- One call that registers something. -/
inductive Registration where
  | subscribe (key : EventKey) (observer : Observer)
  | bindHook (hook : BindHook)
  | walkHook (hook : WalkHook)

/-- A subscription, with its place among the calls that register something. -/
structure Subscription where
  number : Nat
  key : EventKey
  observer : Observer

namespace Subscription

variable {a b : Subscription}

/-- Subscriptions of longer keys come first, and those of one key in the order of their
registration. -/
def Precedes (a b : Subscription) : Prop :=
  b.key.length < a.key.length ∨ a.key = b.key ∧ a.number < b.number

theorem Precedes.ne (before : Precedes a b) : a ≠ b := by
  rintro rfl
  rcases before with longer | ⟨_, earlier⟩
  · exact Nat.lt_irrefl _ longer
  · exact Nat.lt_irrefl _ earlier

/-- The subscription is told about events of the key. -/
def Hears (a : Subscription) (key : EventKey) : Prop := a.key <+: key

instance (key : EventKey) : DecidablePred (Hears · key) :=
  fun a => inferInstanceAs (Decidable (a.key <+: key))

end Subscription

/-- The subscription that a call makes, if it is one that makes a subscription. -/
def Registration.subscription? (number : Nat) : Registration → Option Subscription
  | .subscribe key observer => some ⟨number, key, observer⟩
  | .bindHook _ | .walkHook _ => none

theorem Registration.number_eq {call : Registration} {number : Nat} {a : Subscription}
    (made : call.subscription? number = some a) : a.number = number := by
  cases call with
  | subscribe key observer =>
      cases made
      rfl
  | bindHook _ | walkHook _ => cases made

/-- The subscriptions of a history, in the order of their registration. -/
def subscriptions (calls : List Registration) : List Subscription :=
  calls.zipIdx.filterMap fun (call, number) => call.subscription? number

/-- The subscriptions of a history to exactly this key. -/
def subscriptionsTo (calls : List Registration) (key : EventKey) : List Subscription :=
  (subscriptions calls).filter (·.key = key)

/-- Subscriptions in the order in which they are told about an event. -/
def audience (calls : List Registration) (key : EventKey) : List Subscription :=
  (Registry.segments key).flatMap (subscriptionsTo calls)

namespace Registry

variable {key segment : EventKey}

/-- Register what a call registers. -/
def register (r : Registry) : Registration → Registry
  | .subscribe key observer => r.subscribe key observer
  | .bindHook hook => r.addBindHook hook
  | .walkHook hook => r.addWalkHook hook

/-- The registry after a history of registrations. -/
def ofRegistrations (calls : List Registration) : Registry := calls.foldl register empty

theorem mem_segments : segment ∈ segments key ↔ segment <+: key := by
  simp only [segments, List.mem_map, List.mem_reverse, List.mem_range]
  constructor
  · rintro ⟨length, _, rfl⟩
    exact List.take_prefix length key
  · intro start
    exact ⟨segment.length, Nat.lt_succ_of_le start.length_le,
      (List.prefix_iff_eq_take.mp start).symm⟩

theorem segments_decreasing (key : EventKey) :
    (segments key).Pairwise fun longer shorter => shorter.length < longer.length := by
  rw [segments, List.pairwise_map, List.pairwise_reverse]
  refine List.pairwise_lt_range.imp_of_mem fun {shorter longer} _ member less => ?_
  have bounded := List.mem_range.mp member
  simp only [List.length_take]
  omega

theorem lookup_subscribeIn (key other : EventKey) (observer : Observer)
    (entries : List (EventKey × List Observer)) :
    (subscribeIn key observer entries).lookup other =
      if other = key then some ((entries.lookup key).getD [] ++ [observer])
      else entries.lookup other := by
  fun_induction subscribeIn key observer entries with
  | case1 =>
      by_cases same : other = key
      · simp [same]
      · simp [List.lookup_cons, beq_eq_false_iff_ne.mpr same, same]
  | case2 observers rest =>
      by_cases same : other = key
      · simp [same]
      · simp [List.lookup_cons, beq_eq_false_iff_ne.mpr same, same]
  | case3 first observers rest different ih =>
      have apart : (key == first) = false := beq_eq_false_iff_ne.mpr (Ne.symm different)
      by_cases here : other = first
      · simp [here, different]
      · simp [List.lookup_cons, beq_eq_false_iff_ne.mpr here, apart, ih]

end Registry

section History

variable {calls : List Registration} {key : EventKey}

theorem subscriptions_append_singleton (calls : List Registration) (call : Registration) :
    subscriptions (calls ++ [call]) =
      subscriptions calls ++ (call.subscription? calls.length).toList := by
  simp only [subscriptions, List.zipIdx_append, List.filterMap_append, Nat.zero_add]
  cases call <;> rfl

theorem subscriptions_increasing (calls : List Registration) :
    (subscriptions calls).Pairwise fun a b => a.number < b.number := by
  have numbered : calls.zipIdx.Pairwise fun earlier later => earlier.2 < later.2 := by
    rw [← List.pairwise_map (f := Prod.snd), List.zipIdx_map_snd]
    exact List.pairwise_lt_range'
  rw [subscriptions, List.pairwise_filterMap]
  refine numbered.imp fun {earlier later} less a found b found' => ?_
  rw [Registration.number_eq found, Registration.number_eq found']
  exact less

theorem subscriptionsTo_append_singleton (calls : List Registration) (call : Registration) :
    subscriptionsTo (calls ++ [call]) key =
      subscriptionsTo calls key ++
        ((call.subscription? calls.length).toList.filter (·.key = key)) := by
  rw [subscriptionsTo, subscriptions_append_singleton, List.filter_append]
  rfl

/-- What a registry keeps under a key are the observers that were subscribed to it. -/
theorem Registry.lookup_ofRegistrations (calls : List Registration) (key : EventKey) :
    (ofRegistrations calls).observers.lookup key =
      if subscriptionsTo calls key = [] then none
      else some ((subscriptionsTo calls key).map Subscription.observer) := by
  induction calls using List.reverseRecOn with
  | nil => rfl
  | append_singleton calls call ih =>
      rw [ofRegistrations, List.foldl_append, subscriptionsTo_append_singleton]
      change ((ofRegistrations calls).register call).observers.lookup key = _
      cases call with
      | bindHook hook | walkHook hook =>
          simp [Registration.subscription?, register, addBindHook, addWalkHook, ih]
      | subscribe other observer =>
          rw [register, subscribe, lookup_subscribeIn]
          by_cases same : key = other
          · subst other
            rw [ih]
            by_cases first : subscriptionsTo calls key = []
            · simp [first, Registration.subscription?]
            · simp [first, Registration.subscription?]
          · simp [same, Ne.symm same, ih, Registration.subscription?]

theorem Registry.observersOf_ofRegistrations (calls : List Registration) (key : EventKey) :
    (ofRegistrations calls).observersOf key =
      (subscriptionsTo calls key).map Subscription.observer := by
  rw [observersOf, lookup_ofRegistrations]
  split
  · rename_i unheard
    simp [unheard]
  · rfl

/-- An event reaches the observers of its audience, in the order of the audience. -/
theorem Registry.receivers_ofRegistrations (calls : List Registration) (key : EventKey) :
    (ofRegistrations calls).receivers key = (audience calls key).map Subscription.observer := by
  rw [receivers, audience, List.map_flatMap, funext (observersOf_ofRegistrations calls)]

theorem mem_subscriptionsTo {a : Subscription} :
    a ∈ subscriptionsTo calls key ↔ a ∈ subscriptions calls ∧ a.key = key := by
  simp [subscriptionsTo]

theorem audience_ordered (calls : List Registration) (key : EventKey) :
    (audience calls key).Pairwise Subscription.Precedes := by
  rw [audience, List.pairwise_flatMap]
  constructor
  · intro segment _
    refine ((subscriptions_increasing calls).filter _).imp_of_mem
      fun {a b} member member' less => ?_
    have key_eq := (mem_subscriptionsTo.mp member).2.trans (mem_subscriptionsTo.mp member').2.symm
    exact .inr ⟨key_eq, less⟩
  · refine (Registry.segments_decreasing key).imp fun {longer shorter} less a member b member' => ?_
    rw [← (mem_subscriptionsTo.mp member).2, ← (mem_subscriptionsTo.mp member').2] at less
    exact .inl less

theorem mem_audience {a : Subscription} :
    a ∈ audience calls key ↔ a ∈ subscriptions calls ∧ a.Hears key := by
  simp only [audience, List.mem_flatMap, Registry.mem_segments, mem_subscriptionsTo,
    Subscription.Hears]
  constructor
  · rintro ⟨segment, above, made, rfl⟩
    exact ⟨made, above⟩
  · rintro ⟨made, above⟩
    exact ⟨a.key, above, made, rfl⟩

/-- Nobody who is to be told about an event is left out, and nobody is told twice. -/
theorem audience_perm (calls : List Registration) (key : EventKey) :
    (audience calls key).Perm ((subscriptions calls).filter (·.Hears key)) := by
  have audience_nodup : (audience calls key).Nodup :=
    (audience_ordered calls key).imp Subscription.Precedes.ne
  have subscriptions_nodup : (subscriptions calls).Nodup :=
    (subscriptions_increasing calls).imp fun less =>
      ne_of_apply_ne Subscription.number (Nat.ne_of_lt less)
  rw [List.perm_ext_iff_of_nodup audience_nodup (subscriptions_nodup.filter _)]
  intro a
  simp [mem_audience]

/-- Somebody is told exactly if the registry says that the key is observed. -/
theorem Registry.isObserved_ofRegistrations (calls : List Registration) (key : EventKey) :
    (ofRegistrations calls).isObserved key = true ↔ audience calls key ≠ [] := by
  simp only [isObserved, audience, List.any_eq_true, lookup_ofRegistrations, ne_eq,
    List.flatMap_eq_nil_iff, not_forall, exists_prop]
  refine exists_congr fun segment => and_congr_right fun _ => ?_
  split
  · rename_i unheard
    simp [unheard]
  · rename_i heard
    simp [heard]

/-- An event is told to the subscriptions of its key and of everything above it, once to each
of them, from the special to the general and for one key in the order of registration; and
the key counts as observed exactly if there is somebody to tell. -/
theorem Registry.fire_delivers (calls : List Registration) (key : EventKey) :
    ∃ told : List Subscription,
      told.Perm ((subscriptions calls).filter (·.Hears key)) ∧
      told.Pairwise Subscription.Precedes ∧
      (ofRegistrations calls).receivers key = told.map Subscription.observer ∧
      (∀ payload bindings before,
        Engine.Runs (Engine.fire (ofRegistrations calls) key payload bindings) before ()
          (told.foldl (fun s a => s.receive key payload bindings a.observer) before)) ∧
      ((ofRegistrations calls).isObserved key = true ↔ told ≠ []) := by
  refine ⟨audience calls key, audience_perm calls key, audience_ordered calls key,
    receivers_ofRegistrations calls key, ?_, isObserved_ofRegistrations calls key⟩
  intro payload bindings before
  rw [← List.foldl_map, ← receivers_ofRegistrations]
  rfl

end History

end RelationalSolver
