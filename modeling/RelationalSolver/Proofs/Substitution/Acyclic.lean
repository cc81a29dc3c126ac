import Mathlib.Data.Finset.Card
import Mathlib.Logic.Relation
import RelationalSolver.Proofs.Term.Variables
import RelationalSolver.Substitution.Resolve

/-!
# Acyclic substitutions

A variable leads to those that stand in the term it is bound to.  In an acyclic
substitution no variable leads back to itself, so every variable has a rank: the
number of bound variables that it leads to.  The rank falls along every binding
and is bounded by the number of bindings, which is what bounded walks count on.
-/

namespace RelationalSolver.Substitution

variable {s next : Substitution} {v w : Var} {t : Term}

/-- The second variable stands in the term that the first is bound to. -/
def Binds (s : Substitution) (v w : Var) : Prop :=
  ∃ t, s.lookup v = some t ∧ t.mentions w = true

/-- No variable is reachable from its own binding. -/
def Acyclic (s : Substitution) : Prop := ∀ v, ¬ Relation.TransGen s.Binds v v

/-- The variable stands in the term, or is reachable from one that does. -/
def Reaches (s : Substitution) (t : Term) (w : Var) : Prop :=
  ∃ v, t.mentions v = true ∧ Relation.ReflTransGen s.Binds v w

/-- Every binding is kept. -/
def Extends (next s : Substitution) : Prop :=
  ∀ v t, s.lookup v = some t → next.lookup v = some t

/-- The wildcard is neither bound nor does it stand in a bound term. -/
def WildcardFree (s : Substitution) : Prop :=
  ∀ v t, s.lookup v = some t → v ≠ .wildcard ∧ t.WildcardFree

theorem Extends.refl (s : Substitution) : s.Extends s := fun _ _ bound => bound

theorem Extends.trans {last : Substitution} (later : last.Extends next)
    (earlier : next.Extends s) : last.Extends s :=
  fun v t bound => later v t (earlier v t bound)

theorem Reaches.of_extends (extended : next.Extends s) (reached : s.Reaches t w) :
    next.Reaches t w := by
  obtain ⟨v, inside, path⟩ := reached
  have kept : s.Binds ≤ next.Binds := fun x y ⟨u, bound, within⟩ => ⟨u, extended x u bound, within⟩
  exact ⟨v, inside, Relation.ReflTransGen.mono kept v w path⟩

theorem extends_insert (t : Term) (unbound : s.lookup v = none) : (s.insert v t).Extends s := by
  intro w u bound
  rw [lookup_insert]
  split
  · rename_i same
    rw [same, bound] at unbound
    contradiction
  · exact bound

theorem acyclic_empty : empty.Acyclic := by
  intro v cycle
  obtain ⟨_, ⟨_, bound, _⟩, _⟩ := Relation.TransGen.head'_iff.mp cycle
  simp at bound

theorem wildcardFree_empty : empty.WildcardFree := by
  intro v t bound
  simp at bound

theorem WildcardFree.ne_wildcard {v : Var} (plain : s.WildcardFree) (bound : s.lookup v ≠ none) :
    v ≠ .wildcard := by
  obtain ⟨t, entry⟩ := Option.ne_none_iff_exists'.mp bound
  exact (plain v t entry).1

theorem WildcardFree.lookup_wildcard (plain : s.WildcardFree) : s.lookup .wildcard = none := by
  by_contra bound
  exact plain.ne_wildcard bound rfl

/-- A number that falls along every binding excludes cycles. -/
theorem acyclic_of_rank (rank : Var → Nat)
    (falls : ∀ v w, s.Binds v w → rank w < rank v) : s.Acyclic := by
  have fallsAll : ∀ {v w}, Relation.TransGen s.Binds v w → rank w < rank v := by
    intro v w path
    induction path with
    | single binds => exact falls _ _ binds
    | tail _ binds ih => exact Nat.lt_trans (falls _ _ binds) ih
  intro v cycle
  exact Nat.lt_irrefl _ (fallsAll cycle)

/-! ## Ranks -/

/-- The bound variables. -/
def boundVars (s : Substitution) : Finset Var := s.bindings.keys.toFinset

@[simp] theorem mem_boundVars : v ∈ s.boundVars ↔ (s.lookup v).isSome = true := by
  rw [boundVars, List.mem_toFinset, Std.TreeMap.mem_keys, lookup,
    Std.TreeMap.mem_iff_isSome_getElem?]

theorem card_boundVars (s : Substitution) : s.boundVars.card = s.size := by
  rw [size, ← Std.TreeMap.length_keys]
  exact List.toFinset_card_of_nodup s.bindings.nodup_keys

open Classical in
/-- The number of bound variables that a variable leads to, itself included. -/
noncomputable def rank (s : Substitution) (v : Var) : Nat :=
  (s.boundVars.filter (Relation.ReflTransGen s.Binds v)).card

theorem rank_le_size (s : Substitution) (v : Var) : s.rank v ≤ s.size := by
  classical
  exact Nat.le_trans (Finset.card_filter_le _ _) s.card_boundVars.le

theorem rank_lt (acyclic : s.Acyclic) (binds : s.Binds v w) : s.rank w < s.rank v := by
  classical
  apply Finset.card_lt_card
  rw [Finset.ssubset_iff_of_subset]
  · refine ⟨v, ?_, ?_⟩
    · obtain ⟨t, bound, _⟩ := binds
      simp [bound, Relation.ReflTransGen.refl]
    · intro member
      rw [Finset.mem_filter] at member
      exact acyclic v (Relation.TransGen.head' binds member.2)
  · intro u member
    rw [Finset.mem_filter] at member ⊢
    exact ⟨member.1, member.2.head binds⟩

theorem rank_pos (bound : s.lookup v = some t) : 0 < s.rank v := by
  classical
  apply Finset.card_pos.mpr
  exact ⟨v, by simp [bound, Relation.ReflTransGen.refl]⟩

/-- Induction along the bindings of an acyclic substitution. -/
theorem Acyclic.induction (acyclic : s.Acyclic) {motive : Var → Prop}
    (step : ∀ v, (∀ t, s.lookup v = some t → ∀ w, t.mentions w = true → motive w) → motive v)
    (v : Var) : motive v := by
  induction rank : s.rank v using Nat.strong_induction_on generalizing v with
  | _ n ih =>
      apply step
      intro t bound w inside
      exact ih (s.rank w) (rank ▸ rank_lt acyclic ⟨t, bound, inside⟩) w rfl

/-! ## Walks -/

/-- The top level of the term is resolved. -/
def Walked (s : Substitution) (t : Term) : Prop := ∀ v, t = .var v → s.lookup v = none

theorem walked_walkWithin (acyclic : s.Acyclic) :
    ∀ {steps : Nat} {t : Term}, (∀ v, t = .var v → s.rank v ≤ steps) →
      s.Walked (s.walkWithin steps t) := by
  intro steps
  induction steps with
  | zero =>
      intro t enough v start
      replace start : t = .var v := by
        cases t with
        | var w => exact start
        | atom a => simp at start
        | compound f args => simp at start
      cases bound : s.lookup v with
      | none => rfl
      | some u =>
          have positive := rank_pos bound
          have none := enough v start
          omega
  | succ steps ih =>
      intro t enough
      cases t with
      | atom a => simp [Walked]
      | compound f args => simp [Walked]
      | var v =>
          rw [walkWithin]
          cases bound : s.lookup v with
          | none =>
              intro w same
              cases same
              exact bound
          | some u =>
              apply ih
              rintro w rfl
              have falls := rank_lt acyclic ⟨_, bound, Term.mentions_var.mpr rfl⟩
              have start := enough v rfl
              omega

theorem walked_walk (acyclic : s.Acyclic) (t : Term) : s.Walked (s.walk t) :=
  walked_walkWithin acyclic fun v _ => s.rank_le_size v

theorem walkWithin_of_walked (walked : s.Walked t) (steps : Nat) :
    s.walkWithin steps t = t := by
  cases t with
  | atom a => simp
  | compound f args => simp
  | var v =>
      cases steps with
      | zero => rfl
      | succ steps => rw [walkWithin, walked v rfl]

theorem walk_of_walked (walked : s.Walked t) : s.walk t = t := walkWithin_of_walked walked _

/-- A walked term can be bound to every other variable but the wildcard. -/
theorem extend_of_walked (named : v ≠ .wildcard) (walked : s.Walked t) (different : t ≠ .var v) :
    s.extend v t = some (s.insert v t) := by
  rw [extend, walk_of_walked walked]
  simp [named, different]

/-- A walk may take more steps than it needs. -/
theorem walkWithin_congr (acyclic : s.Acyclic) : ∀ {v : Var} {steps others : Nat},
    s.rank v ≤ steps → s.rank v ≤ others →
    s.walkWithin steps (.var v) = s.walkWithin others (.var v) := by
  intro v
  induction v using acyclic.induction with
  | step v ih =>
      intro steps others enough otherEnough
      cases bound : s.lookup v with
      | none =>
          have walked : s.Walked (.var v) := by
            rintro w same
            cases same
            exact bound
          rw [walkWithin_of_walked walked, walkWithin_of_walked walked]
      | some t =>
          have positive := rank_pos bound
          obtain ⟨steps, rfl⟩ := Nat.exists_eq_succ_of_ne_zero (n := steps) (by omega)
          obtain ⟨others, rfl⟩ := Nat.exists_eq_succ_of_ne_zero (n := others) (by omega)
          simp only [walkWithin, bound]
          cases t with
          | atom a => simp
          | compound f args => simp
          | var w =>
              have inside : (Term.var w).mentions w = true := Term.mentions_var.mpr rfl
              have falls := rank_lt acyclic ⟨_, bound, inside⟩
              exact ih _ bound w inside (by omega) (by omega)

theorem walk_of_bound (acyclic : s.Acyclic) (bound : s.lookup v = some t) :
    s.walk (.var v) = s.walk t := by
  have enough : s.rank v ≤ s.size + 1 := Nat.le_succ_of_le (s.rank_le_size v)
  rw [walk, walkWithin_congr acyclic (s.rank_le_size v) enough, walkWithin, bound, walk]

/-- Walking further with more bindings ends where walking with them at once does. -/
theorem walk_walk_of_extends (acyclic : next.Acyclic) (extended : next.Extends s) (t : Term) :
    next.walk (s.walk t) = next.walk t := by
  have steps : ∀ (steps : Nat) (t : Term), next.walk (s.walkWithin steps t) = next.walk t := by
    intro steps
    induction steps with
    | zero =>
        intro t
        cases t <;> rfl
    | succ steps ih =>
        intro t
        cases t with
        | atom a => simp
        | compound f args => simp
        | var v =>
            rw [walkWithin]
            cases bound : s.lookup v with
            | none => rfl
            | some u => rw [ih u, walk_of_bound acyclic (extended v u bound)]
  exact steps s.size t

/-- Walking leads from a term to itself or to a term bound in the substitution. -/
theorem walkWithin_mem (terms : Term → Prop) (closed : ∀ v t, s.lookup v = some t → terms t) :
    ∀ {steps : Nat} {t : Term}, terms t → terms (s.walkWithin steps t) := by
  intro steps
  induction steps with
  | zero =>
      intro t member
      cases t <;> exact member
  | succ steps ih =>
      intro t member
      cases t with
      | atom a => exact member
      | compound f args => exact member
      | var v =>
          rw [walkWithin]
          cases bound : s.lookup v with
          | none => exact member
          | some u => exact ih (closed v u bound)

theorem walk_mem (terms : Term → Prop) (closed : ∀ v t, s.lookup v = some t → terms t)
    (member : terms t) : terms (s.walk t) := walkWithin_mem terms closed member

/-! ## One more binding -/

theorem wildcardFree_insert (plain : s.WildcardFree) (different : v ≠ .wildcard)
    (free : t.WildcardFree) : (s.insert v t).WildcardFree := by
  intro w u bound
  rw [lookup_insert] at bound
  split at bound
  · rename_i same
    cases bound
    exact ⟨same ▸ different, free⟩
  · exact plain w u bound

/-- A binding to a term that does not lead back to the variable makes no cycle. -/
theorem acyclic_insert (acyclic : s.Acyclic) (apart : ¬ s.Reaches t v) :
    (s.insert v t).Acyclic := by
  classical
  -- Variables that lead to the new binding are lifted above all others.
  apply acyclic_of_rank fun x =>
    if Relation.ReflTransGen s.Binds x v then s.rank x + (s.size + 1) else s.rank x
  rintro x y ⟨u, bound, inside⟩
  rw [lookup_insert] at bound
  split at bound
  · rename_i same
    cases bound
    subst same
    have distant : ¬ Relation.ReflTransGen s.Binds y v := fun path => apart ⟨y, inside, path⟩
    have small := s.rank_le_size y
    simp only [distant, Relation.ReflTransGen.refl, if_true, if_false]
    omega
  · have binds : s.Binds x y := ⟨u, bound, inside⟩
    have falls := rank_lt acyclic binds
    by_cases path : Relation.ReflTransGen s.Binds y v
    · simp only [path, path.head binds, if_true]
      omega
    · simp only [path, if_false]
      split <;> omega

end RelationalSolver.Substitution
