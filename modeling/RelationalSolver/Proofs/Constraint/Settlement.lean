import RelationalSolver.Proofs.Constraint.Storage
import RelationalSolver.Proofs.Constraint.Verdicts

/-!
# Settling stored constraints

A stored constraint waits for every variable that its own reach, and some
solution satisfies it.  A verdict on one of them keeps this up while the others
remain to be settled, and neither loses nor adds anything that the constraints
say about the solutions.
-/

namespace RelationalSolver

open Substitution Constraint

namespace ConstraintStore

variable {Member : Constraint → Prop} {before after : Substitution}
variable {store next last : ConstraintStore} {id : Nat} {ids : List Nat} {c : Constraint}
variable {follow : List Var} {verdict : Verdict} {endless : Prop}

/-- Every stored constraint permits the set. -/
def Spares (store : ConstraintStore) (Θ : Set Assignment) : Prop :=
  ∀ id c, store.get? id = some c → c.Permits Θ

/-- Every stored constraint that does not only prune permits the set. -/
def Admits (store : ConstraintStore) (Θ : Set Assignment) : Prop :=
  ∀ id c, store.get? id = some c → c.isGuard = false → c.Permits Θ

theorem Spares.admits {Θ : Set Assignment} (spared : store.Spares Θ) : store.Admits Θ :=
  fun id c found _ => spared id c found

/-- The constraint waits for every variable that its own reach. -/
def Awake (store : ConstraintStore) (s : Substitution) (id : Nat) (c : Constraint) : Prop :=
  ∀ v ∈ c.vars, ∀ w, (s.resolve (.var v)).mentions w = true → id ∈ store.idsFor w

/-- Stored constraints wait for what their variables reached before, and those that
do not remain to be settled also for what they reach now. -/
structure Attended (Member : Constraint → Prop) (before after : Substitution)
    (store : ConstraintStore) (remaining : List Nat) : Prop where
  numbered : ∀ {id c}, store.get? id = some c → id < store.nextId
  member : ∀ {id c}, store.get? id = some c → Member c
  watched : ∀ {id c}, store.get? id = some c → c.isGuard = false → store.Awake before id c
  settled : ∀ {id c}, store.get? id = some c → c.isGuard = false → id ∉ remaining →
    store.Awake after id c ∧ ∃ θ ∈ after.solutions, c.Holds θ

/-- Whatever variables reach now, they reached before or it is listed. -/
def Spreads (before after : Substitution) (follow : List Var) : Prop :=
  ∀ v w, v ≠ .wildcard → (after.resolve (.var v)).mentions w = true →
    (before.resolve (.var v)).mentions w = true ∨ (w ∈ follow ∧ w ≠ .wildcard)

/-- Where the bindings hold, the stores say the same: what the first permits the
second does, and what the second leaves open the first did. -/
structure Carries (solutions : Set Assignment) (store next : ConstraintStore) : Prop where
  spares : ∀ Θ ⊆ solutions, store.Spares Θ → next.Spares Θ
  admits : ∀ Θ ⊆ solutions, Θ.Nonempty → next.Admits Θ → store.Admits Θ

theorem Carries.refl (solutions : Set Assignment) (store : ConstraintStore) :
    Carries solutions store store :=
  ⟨fun _ _ spared => spared, fun _ _ _ admitted => admitted⟩

theorem Carries.trans {solutions : Set Assignment} (first : Carries solutions store next)
    (second : Carries solutions next last) : Carries solutions store last where
  spares Θ within spared := second.spares Θ within (first.spares Θ within spared)
  admits Θ within nonempty admitted :=
    first.admits Θ within nonempty (second.admits Θ within nonempty admitted)

/-! ## One verdict -/

/-- What becomes of a store by a verdict on one of its constraints. -/
def afterVerdict (store : ConstraintStore) (id : Nat) (follow : List Var) :
    Verdict → Option ConstraintStore
  | .violated => none
  | .satisfied => some (store.remove id)
  | .simplified next => some (store.replace id next (next.vars ++ follow))
  | .pending => some (store.indexUnder id follow)

/-- A violation leaves nothing to be spared. -/
theorem not_spares_of_violated (found : store.get? id = some c)
    (judged : Judged Member after c .violated) {Θ : Set Assignment} (within : Θ ⊆ after.solutions)
    (nonempty : Θ.Nonempty) : ¬ store.Spares Θ := by
  intro spared
  have permitted := spared id c found
  unfold Permits at permitted
  split at permitted
  · obtain ⟨θ, member⟩ := nonempty
    exact judged θ (within member) (permitted θ member)
  · obtain ⟨θ, member, holds⟩ := permitted
    exact judged θ (within member) holds

theorem carries_afterVerdict (found : store.get? id = some c)
    (judged : Judged Member after c verdict)
    (kept : store.afterVerdict id follow verdict = some next) :
    Carries after.solutions store next := by
  cases verdict with
  | violated => simp [afterVerdict] at kept
  | satisfied =>
      simp only [afterVerdict, Option.some.injEq] at kept
      subst kept
      constructor
      · intro Θ _ spared other d stored
        rw [get?_remove] at stored
        split at stored
        · contradiction
        · exact spared other d stored
      · intro Θ within ⟨θ, inside⟩ admitted other d stored decides
        by_cases same : id = other
        · subst same
          rw [found] at stored
          cases stored
          rw [permits_of_not_guard decides]
          exact ⟨θ, inside, judged decides θ (within inside)⟩
        · apply admitted other d _ decides
          rw [get?_remove, if_neg same]
          exact stored
  | simplified simpler =>
      obtain ⟨_, simplerDecides, decides, _, _, same⟩ := judged
      have equivalent : ∀ Θ ⊆ after.solutions, (simpler.Permits Θ ↔ c.Permits Θ) := by
        intro Θ within
        rw [permits_of_not_guard simplerDecides, permits_of_not_guard decides]
        exact exists_congr fun θ => and_congr_right fun inside => same θ (within inside)
      simp only [afterVerdict, Option.some.injEq] at kept
      subst kept
      constructor
      · intro Θ within spared other d stored
        rw [get?_replace] at stored
        split at stored
        · cases stored
          exact (equivalent Θ within).mpr (spared id c found)
        · exact spared other d stored
      · intro Θ within _ admitted other d stored otherDecides
        by_cases equal : id = other
        · subst equal
          rw [found] at stored
          cases stored
          apply (equivalent Θ within).mp
          apply admitted id simpler _ simplerDecides
          rw [get?_replace, if_pos rfl]
        · apply admitted other d _ otherDecides
          rw [get?_replace, if_neg equal]
          exact stored
  | pending =>
      simp only [afterVerdict, Option.some.injEq] at kept
      subst kept
      constructor
      · intro Θ _ spared other d stored
        rw [get?_indexUnder] at stored
        exact spared other d stored
      · intro Θ _ _ admitted other d stored decides
        apply admitted other d _ decides
        rw [get?_indexUnder]
        exact stored

/-- A constraint whose turn has come is settled if it waits for the listed
variables too. -/
theorem Attended.revise {d : Constraint} {extra : List Var}
    (attended : Attended Member before after store (id :: ids))
    (spreads : Spreads before after follow) (found : store.get? id = some c) (member : Member d)
    (kind : d.isGuard = c.isGuard) (proper : d.isGuard = false → d.Proper)
    (fewer : d.vars ⊆ c.vars) (left : d.isGuard = false → ∃ θ ∈ after.solutions, d.Holds θ)
    (number : next.nextId = store.nextId)
    (entries : ∀ other, next.get? other = if id = other then some d else store.get? other)
    (index : ∀ other w, other ∈ next.idsFor w ↔
      other ∈ store.idsFor w ∨ (other = id ∧ w ∈ extra ∧ w ≠ .wildcard))
    (follows : follow ⊆ extra) : Attended Member before after next ids := by
  constructor
  · intro other e stored
    rw [entries] at stored
    rw [number]
    split at stored
    · rename_i same
      exact same ▸ attended.numbered found
    · exact attended.numbered stored
  · intro other e stored
    rw [entries] at stored
    split at stored
    · cases stored
      exact member
    · exact attended.member stored
  · intro other e stored decides v inside w reached
    rw [index]
    left
    rw [entries] at stored
    split at stored
    · rename_i same
      cases stored
      exact same ▸ attended.watched found (kind ▸ decides) v (fewer inside) w reached
    · exact attended.watched stored decides v inside w reached
  · intro other e stored decides absent
    rw [entries] at stored
    split at stored
    · rename_i same
      cases stored
      refine ⟨?_, left decides⟩
      intro v inside w reached
      rw [index]
      rcases spreads v w (ne_wildcard_of_mem_vars (proper decides) inside) reached with
        old | ⟨listed, named⟩
      · exact .inl (same ▸ attended.watched found (kind ▸ decides) v (fewer inside) w old)
      · exact .inr ⟨same.symm, follows listed, named⟩
    · rename_i different
      obtain ⟨awake, holds⟩ := attended.settled stored decides (by
        rw [List.mem_cons, not_or]
        exact ⟨Ne.symm different, absent⟩)
      refine ⟨?_, holds⟩
      intro v inside w reached
      rw [index]
      exact .inl (awake v inside w reached)

theorem Attended.afterVerdict (family : Family Member endless)
    (attended : Attended Member before after store (id :: ids))
    (spreads : Spreads before after follow) (found : store.get? id = some c)
    (judged : Judged Member after c verdict)
    (kept : store.afterVerdict id follow verdict = some next) :
    Attended Member before after next ids := by
  have member := attended.member found
  cases verdict with
  | violated => simp [ConstraintStore.afterVerdict] at kept
  | satisfied =>
      simp only [ConstraintStore.afterVerdict, Option.some.injEq] at kept
      subst kept
      have remains : ∀ {other d}, (store.remove id).get? other = some d →
          id ≠ other ∧ store.get? other = some d := by
        intro other d stored
        rw [get?_remove] at stored
        split at stored
        · contradiction
        · rename_i different
          exact ⟨different, stored⟩
      constructor
      · intro other d stored
        exact attended.numbered (remains stored).2
      · intro other d stored
        exact attended.member (remains stored).2
      · intro other d stored decides v inside w reached
        rw [mem_idsFor_remove (Ne.symm (remains stored).1)]
        exact attended.watched (remains stored).2 decides v inside w reached
      · intro other d stored decides absent
        obtain ⟨different, before⟩ := remains stored
        obtain ⟨awake, holds⟩ := attended.settled before decides (by
          rw [List.mem_cons, not_or]
          exact ⟨Ne.symm different, absent⟩)
        refine ⟨?_, holds⟩
        intro v inside w reached
        rw [mem_idsFor_remove (Ne.symm different)]
        exact awake v inside w reached
  | simplified simpler =>
      simp only [ConstraintStore.afterVerdict, Option.some.injEq] at kept
      subst kept
      obtain ⟨simplerMember, simplerDecides, decides, fewer, ⟨θ, solves, holds⟩, same⟩ := judged
      exact attended.revise spreads found simplerMember (simplerDecides.trans decides.symm)
        (family.proper simplerMember) fewer (fun _ => ⟨θ, solves, (same θ solves).mpr holds⟩)
        nextId_replace (fun _ => get?_replace) (fun _ _ => mem_idsFor_replace)
        (List.subset_append_right _ _)
  | pending =>
      simp only [ConstraintStore.afterVerdict, Option.some.injEq] at kept
      subst kept
      apply attended.revise spreads found member rfl (family.proper member)
        (List.Subset.refl _) judged nextId_indexUnder _ (fun _ _ => mem_idsFor_indexUnder)
        (List.Subset.refl _)
      intro other
      rw [get?_indexUnder]
      split
      · rename_i same
        exact same ▸ found
      · rfl

/-- Once nothing remains to be settled, the bindings of now take the place of those
of before. -/
theorem Attended.renew (attended : Attended Member before after store []) :
    Attended Member after after store [] where
  numbered := attended.numbered
  member := attended.member
  watched stored decides := (attended.settled stored decides List.not_mem_nil).1
  settled := attended.settled

/-! ## One verdict after the other -/

/-- Settle the constraint with the id under the bindings, if it is still stored. -/
def settleOne (s : Substitution) (follow : List Var) (store : ConstraintStore) (id : Nat) :
    Except Unending (Option ConstraintStore) :=
  match store.get? id with
  | none => .ok (some store)
  | some c => store.afterVerdict id follow <$> c.evaluate .enabled s

/-- Settle the constraints with the given ids, one after the other. -/
def settleEach (s : Substitution) (follow : List Var) :
    ConstraintStore → List Nat → Except Unending (Option ConstraintStore)
  | store, [] => .ok (some store)
  | store, id :: ids => do
      match ← settleOne s follow store id with
      | some next => settleEach s follow next ids
      | none => .ok none

theorem settleOne_absent {s : Substitution} (absent : store.get? id = none) :
    settleOne s follow store id = .ok (some store) := by
  rw [settleOne, absent]

theorem settleOne_found {s : Substitution} (found : store.get? id = some c) :
    settleOne s follow store id = store.afterVerdict id follow <$> c.evaluate .enabled s := by
  rw [settleOne, found]

theorem settleEach_singleton (s : Substitution) (follow : List Var) (store : ConstraintStore)
    (id : Nat) : settleEach s follow store [id] = settleOne s follow store id := by
  rw [settleEach]
  match settleOne s follow store id with
  | .ok (some _) => rfl
  | .ok none => rfl
  | .error _ => rfl

/-- What settling some constraints of a store comes to. -/
def SettledTo (Member : Constraint → Prop) (before after : Substitution) (store : ConstraintStore)
    (remaining : List Nat) : Option ConstraintStore → Prop
  | some next => Attended Member before after next remaining ∧ Carries after.solutions store next
  | none => ∀ Θ ⊆ after.solutions, Θ.Nonempty → ¬ store.Spares Θ

theorem Attended.skip (attended : Attended Member before after store (id :: ids))
    (absent : store.get? id = none) : Attended Member before after store ids := by
  refine ⟨attended.numbered, attended.member, attended.watched, ?_⟩
  intro other c stored decides outside
  apply attended.settled stored decides
  rw [List.mem_cons, not_or]
  refine ⟨?_, outside⟩
  rintro rfl
  rw [absent] at stored
  cases stored

theorem settleOne_settles (family : Family Member endless) (acyclic : after.Acyclic)
    (plain : after.WildcardFree) (spreads : Spreads before after follow)
    (attended : Attended Member before after store (id :: ids)) :
    Settles endless (settleOne after follow store id)
      (SettledTo Member before after store ids) := by
  cases found : store.get? id with
  | none =>
      rw [settleOne_absent found]
      exact Settles.pure ⟨attended.skip found, .refl _ _⟩
  | some c =>
      rw [settleOne_found found, map_eq_pure_bind]
      apply (family.judged acyclic plain (attended.member found)).bind
      intro verdict judged
      apply Settles.pure
      cases kept : store.afterVerdict id follow verdict with
      | some next =>
          exact ⟨attended.afterVerdict family spreads found judged kept,
            carries_afterVerdict found judged kept⟩
      | none =>
          cases verdict with
          | violated => exact fun Θ within => not_spares_of_violated found judged within
          | _ => simp [ConstraintStore.afterVerdict] at kept

/-- Settling constraint after constraint settles them all. -/
theorem settleEach_settles (family : Family Member endless) (acyclic : after.Acyclic)
    (plain : after.WildcardFree) (spreads : Spreads before after follow) :
    ∀ {ids : List Nat} {store : ConstraintStore}, Attended Member before after store ids →
      Settles endless (settleEach after follow store ids) (SettledTo Member before after store [])
  | [], store, attended => Settles.pure ⟨attended, .refl _ _⟩
  | id :: ids, store, attended => by
      apply (settleOne_settles family acyclic plain spreads attended).bind
      intro result settled
      cases result with
      | none => exact Settles.pure settled
      | some next =>
          obtain ⟨attendedNext, carries⟩ := settled
          apply (settleEach_settles family acyclic plain spreads attendedNext).mono
          intro result rest
          cases result with
          | some last => exact ⟨rest.1, carries.trans rest.2⟩
          | none =>
              exact fun Θ within nonempty spared =>
                rest Θ within nonempty (carries.spares Θ within spared)

/-! ## One more binding -/

variable {s : Substitution} {v : Var} {t : Term}

theorem spreads_insert (acyclic : s.Acyclic) (acyclicNext : (s.insert v t).Acyclic)
    (plainNext : (s.insert v t).WildcardFree) (unbound : s.lookup v = none)
    (free : t.WildcardFree) : Spreads s (s.insert v t) ((s.insert v t).freeVars t) := by
  intro u w _ reached
  rcases mentions_of_mentions_resolve_insert acyclic acyclicNext unbound reached with old | new
  · exact .inl old
  · have named : w ≠ .wildcard := by
      rintro rfl
      rw [plainNext.resolve acyclicNext free] at new
      contradiction
    exact .inr ⟨Term.mem_vars.mpr ⟨new, named⟩, named⟩

/-- A binding leaves alone the constraints that do not wait for its variable. -/
theorem Attended.insert (family : Family Member endless) (acyclic : s.Acyclic)
    (acyclicNext : (s.insert v t).Acyclic) (unbound : s.lookup v = none)
    (attended : Attended Member s s store []) :
    Attended Member s (s.insert v t) store (store.idsFor v) := by
  refine ⟨attended.numbered, attended.member, attended.watched, ?_⟩
  intro id c stored decides absent
  obtain ⟨awake, θ, solves, holds⟩ := attended.settled stored decides List.not_mem_nil
  have unchanged : ∀ u ∈ c.vars, (s.insert v t).resolve (.var u) = s.resolve (.var u) := by
    intro u inside
    apply resolve_insert_of_not_mentions acyclic acyclicNext unbound
    exact fun reached => absent (awake u inside v reached)
  constructor
  · intro u inside w reached
    rw [unchanged u inside] at reached
    exact awake u inside w reached
  · refine ⟨_, mapVars_resolution_mem acyclicNext θ, ?_⟩
    apply (holds_congr (family.proper (attended.member stored) decides) _).mp holds
    intro u inside
    rw [unchanged u inside, mapVars_resolve acyclic solves, Term.mapVars_var]

/-! ## One more constraint -/

variable {vars : List Var}

/-- A new constraint that waits for what its variables reach remains to be settled. -/
theorem Attended.attach (attended : Attended Member s s store []) (member : Member c)
    (waits : c.isGuard = false → ∀ v ∈ c.vars, ∀ w,
      (s.resolve (.var v)).mentions w = true → w ∈ vars ∧ w ≠ .wildcard) :
    Attended Member s s (store.insert c vars).1 [store.nextId] := by
  have cases : ∀ {id d}, (store.insert c vars).1.get? id = some d →
      (id = store.nextId ∧ d = c) ∨ (id ≠ store.nextId ∧ store.get? id = some d) := by
    intro id d stored
    rw [get?_insert] at stored
    split at stored
    · rename_i same
      cases stored
      exact .inl ⟨same.symm, rfl⟩
    · rename_i different
      exact .inr ⟨Ne.symm different, stored⟩
  constructor
  · intro id d stored
    rw [nextId_insert]
    rcases cases stored with ⟨rfl, _⟩ | ⟨_, old⟩
    · exact Nat.lt_succ_self _
    · exact Nat.lt_succ_of_lt (attended.numbered old)
  · intro id d stored
    rcases cases stored with ⟨_, rfl⟩ | ⟨_, old⟩
    · exact member
    · exact attended.member old
  · intro id d stored decides v inside w reached
    rw [mem_idsFor_insert]
    rcases cases stored with ⟨same, rfl⟩ | ⟨_, old⟩
    · exact .inr ⟨same, waits decides v inside w reached⟩
    · exact .inl (attended.watched old decides v inside w reached)
  · intro id d stored decides absent
    rcases cases stored with ⟨same, _⟩ | ⟨_, old⟩
    · exact absurd (List.mem_singleton.mpr same) absent
    · obtain ⟨awake, holds⟩ := attended.settled old decides List.not_mem_nil
      refine ⟨?_, holds⟩
      intro v inside w reached
      rw [mem_idsFor_insert]
      exact .inl (awake v inside w reached)

theorem spares_insert {Θ : Set Assignment} (spared : store.Spares Θ) (permitted : c.Permits Θ) :
    (store.insert c vars).1.Spares Θ := by
  intro id d stored
  rw [get?_insert] at stored
  split at stored
  · cases stored
    exact permitted
  · exact spared id d stored

theorem admits_of_admits_insert {Θ : Set Assignment}
    (numbered : ∀ {id c}, store.get? id = some c → id < store.nextId)
    (admitted : (store.insert c vars).1.Admits Θ) :
    store.Admits Θ ∧ (c.isGuard = false → c.Permits Θ) := by
  constructor
  · intro id d stored decides
    apply admitted id d _ decides
    have older := numbered stored
    rw [get?_insert, if_neg (by omega)]
    exact stored
  · intro decides
    apply admitted store.nextId c _ decides
    rw [get?_insert, if_pos rfl]

end ConstraintStore

end RelationalSolver
