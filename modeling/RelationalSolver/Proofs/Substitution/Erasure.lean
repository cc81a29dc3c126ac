import RelationalSolver.Proofs.Term.Erasure
import RelationalSolver.Proofs.Unification.Lockstep

/-!
# Substitutions with wildcards and with new variables

One substitution has wildcards where another has new variables.  Walking and resolving go
the same way in both.  A binding replaces its variable in the equations that are left, and
the new variables go on occurring once at most, as long as the variables that come to
stand for them do not occur too often.
-/

namespace RelationalSolver

open Equation

namespace Substitution

variable {fresh : Finset Var} {full s next final : Substitution} {v w : Var} {t : Term}

/-- The second substitution has wildcards where the first has variables of their own. -/
structure Erases (fresh : Finset Var) (full s : Substitution) : Prop where
  acyclic : full.Acyclic
  plain : full.WildcardFree
  unbound : ∀ v ∈ fresh, full.lookup v = none
  lookup : ∀ v, s.lookup v = (full.lookup v).map (Term.erase fresh)

namespace Erases

theorem empty : Erases fresh empty empty :=
  ⟨acyclic_empty, wildcardFree_empty, by simp, by simp⟩

theorem anonymous (erases : Erases fresh full s) : s.lookup .wildcard = none := by
  rw [erases.lookup, Option.map_eq_none_iff]
  cases bound : full.lookup .wildcard with
  | none => rfl
  | some t => exact absurd rfl (erases.plain _ t bound).1

/-- A bound variable is none of the new ones. -/
theorem notMem (erases : Erases fresh full s) (bound : full.lookup v = some t) : v ∉ fresh := by
  intro member
  rw [erases.unbound v member] at bound
  cases bound

theorem acyclic_erased (erases : Erases fresh full s) : s.Acyclic := by
  apply acyclic_of_rank fun v => if v = .wildcard then 0 else full.rank v + 1
  rintro v w ⟨t, bound, inside⟩
  rw [erases.lookup, Option.map_eq_some_iff] at bound
  obtain ⟨u, bound, rfl⟩ := bound
  have named := (erases.plain v u bound).1
  simp only [named, if_false]
  split
  · omega
  · rename_i namedInside
    obtain ⟨x, within, found⟩ := Term.mentions_mapVars.mp inside
    split at found
    · rw [Term.mentions_var] at found
      exact absurd found.symm namedInside
    · rw [Term.mentions_var] at found
      subst found
      have := rank_lt erases.acyclic ⟨u, bound, within⟩
      omega

theorem walk (erases : Erases fresh full s) (t : Term) :
    s.walk (t.erase fresh) = (full.walk t).erase fresh := by
  obtain ⟨count, chain⟩ := erases.acyclic.walksEnd.exists_ends t
  generalize full.walk t = last at chain
  suffices s.Ends count (t.erase fresh) (last.erase fresh) from this.walk_eq
  induction chain with
  | @here t walked =>
      apply Ends.here
      intro v same
      by_cases named : v = .wildcard
      · exact named ▸ erases.anonymous
      · obtain ⟨rfl, _⟩ := Term.eq_of_erase_eq_var named same
        rw [erases.lookup, walked v rfl]
        rfl
  | @next v t u count bound _ ih =>
      rw [Term.erase_of_notMem (erases.notMem bound)]
      exact ih.next (by rw [erases.lookup, bound]; rfl)

theorem resolve (erases : Erases fresh full s) (t : Term) :
    s.resolve (t.erase fresh) = (full.resolve t).erase fresh := by
  have onVars : ∀ v, s.resolve ((Term.var v).erase fresh) =
      (full.resolve (.var v)).erase fresh := by
    intro v
    induction v using erases.acyclic.induction with
    | step v ih =>
        cases bound : full.lookup v with
        | none =>
            rw [resolve_of_unbound bound]
            by_cases member : v ∈ fresh
            · rw [Term.erase_of_mem member, resolve_of_unbound erases.anonymous]
            · rw [Term.erase_of_notMem member, resolve_of_unbound]
              rw [erases.lookup, bound]
              rfl
        | some t =>
            have entry : s.lookup v = some (t.erase fresh) := by
              rw [erases.lookup, bound]
              rfl
            rw [Term.erase_of_notMem (erases.notMem bound),
              resolve_of_bound erases.acyclic_erased entry,
              resolve_of_bound erases.acyclic bound, ← mapVars_resolution, ← mapVars_resolution,
              Term.erase, Term.erase, Term.mapVars_mapVars, Term.mapVars_mapVars]
            exact Term.mapVars_congr fun w inside =>
              (mapVars_resolution ..).trans (ih t bound w inside)
  rw [← mapVars_resolution, ← mapVars_resolution, Term.erase, Term.erase, Term.mapVars_mapVars,
    Term.mapVars_mapVars]
  exact Term.mapVars_congr fun w _ => (mapVars_resolution ..).trans (onVars w)

theorem insert (erases : Erases fresh full s) (unbound : full.lookup v = none)
    (named : v ≠ .wildcard) (absent : v ∉ fresh) (free : t.WildcardFree)
    (apart : (full.resolve t).mentions v = false) :
    Erases fresh (full.insert v t) (s.insert v (t.erase fresh)) where
  acyclic := erases.acyclic.insert_apart apart unbound
  plain := wildcardFree_insert erases.plain named free
  unbound n member := by
    rw [lookup_insert, if_neg, erases.unbound n member]
    rintro rfl
    exact absent member
  lookup w := by
    rw [lookup_insert, lookup_insert, erases.lookup]
    split <;> rfl

end Erases

@[simp] theorem resolve_empty (t : Term) : empty.resolve t = t := by
  rw [← mapVars_resolution]
  exact (Term.mapVars_congr fun v _ => resolve_of_unbound (by simp)).trans (Term.mapVars_id t)

/-- A new binding replaces its variable in what terms resolve to. -/
theorem resolve_insert (acyclic : s.Acyclic) (unbound : s.lookup v = none)
    (apart : (s.resolve t).mentions v = false) (u : Term) :
    (s.insert v t).resolve u = (s.resolve u).mapVars (Term.only v (s.resolve t)) := by
  have acyclicNext := acyclic.insert_apart apart unbound
  rw [resolve_eq_of_extends acyclic acyclicNext (extends_insert t unbound)]
  apply Term.mapVars_congr
  intro w inside
  by_cases same : w = v
  · subst same
    have bound : (s.insert w t).lookup w = some t := by simp [lookup_insert]
    rw [Term.only_self, resolution, resolve_of_bound acyclicNext bound]
    exact resolve_insert_of_not_mentions acyclic acyclicNext unbound (by simp [apart])
  · rw [Term.only_of_ne same]
    exact resolution_insert_of_unbound same ((mentions_resolve acyclic).mp inside).2

/-! ## No term with a wildcard is met twice -/

/-- The variable comes to stand for a term with a wildcard. -/
def Tainted (final : Substitution) (v : Var) : Prop :=
  v ≠ .wildcard ∧ (final.resolve (.var v)).mentions .wildcard = true

/-- New variables occur at most once, and variables that come to stand for a term with a
wildcard at most twice. -/
def Frugal (fresh : Finset Var) (final : Substitution) (es : List Equation) : Prop :=
  ∀ v, v ∈ fresh ∨ final.Tainted v → occurrencesIn v es ≤ if v ∈ fresh then 1 else 2

variable {es others rest : List Equation}

theorem Frugal.mono (frugal : Frugal fresh final es)
    (fewer : ∀ v, v ∈ fresh ∨ final.Tainted v → occurrencesIn v others ≤ occurrencesIn v es) :
    Frugal fresh final others :=
  fun v marked => (fewer v marked).trans (frugal v marked)

theorem Frugal.own (frugal : Frugal fresh final es) : ∀ v ∈ fresh, occurrencesIn v es ≤ 1 := by
  intro v member
  have few := frugal v (.inl member)
  rwa [if_pos member] at few

theorem Frugal.tail {e : Equation} (frugal : Frugal fresh final (e :: es)) :
    Frugal fresh final es :=
  frugal.mono fun _ _ => by rw [occurrencesIn_cons]; omega

theorem Frugal.swap {u : Term} (frugal : Frugal fresh final ((t, u) :: es)) :
    Frugal fresh final ((u, t) :: es) :=
  frugal.mono fun _ _ => by simp only [occurrencesIn_cons]; omega

/-- Replacing a variable by the other side of its equation keeps the limits: either its
term goes to one place, or there is nothing in it to count. -/
theorem Frugal.eliminate (frugal : Frugal fresh final ((.var v, t) :: es)) (absent : v ∉ fresh)
    (apart : t.mentions v = false)
    (clean : ¬ final.Tainted v → ∀ w, w ∈ fresh ∨ final.Tainted w → t.mentions w = false) :
    Frugal fresh final (es.map (mapVars (Term.only v t))) := by
  apply frugal.mono
  intro w marked
  by_cases same : w = v
  · subst same
    rw [occurrencesIn_mapVars_only_self apart]
    exact Nat.zero_le _
  · simp only [occurrencesIn_mapVars_only same, occurrencesIn_cons]
    by_cases tainted : final.Tainted v
    · have few := frugal v (.inr tainted)
      simp only [if_neg absent, occurrencesIn_cons, Term.occurrences_var, if_true] at few
      have single : occurrencesIn v es ≤ 1 := by omega
      have := Nat.mul_le_mul_right (t.occurrences w) single
      omega
    · rw [Term.occurrences_eq_zero.mpr (clean tainted w marked)]
      omega

/-- What a variable without a wildcard is bound to has none either. -/
theorem Erases.clean (erases : Erases fresh full s) (acyclicFinal : final.Acyclic)
    (anonymousFinal : final.lookup .wildcard = none)
    (extended : final.Extends (s.insert v (t.erase fresh))) (unbound : s.lookup v = none)
    (named : v ≠ .wildcard) (sound : ¬ final.Tainted v) :
    ∀ w, w ∈ fresh ∨ final.Tainted w → (full.resolve t).mentions w = false := by
  have bound : final.lookup v = some (t.erase fresh) := extended v _ (by simp [lookup_insert])
  have value : final.resolve (.var v) =
      ((full.resolve t).erase fresh).mapVars final.resolution := by
    rw [resolve_of_bound acyclicFinal bound, ← erases.resolve]
    exact resolve_eq_of_extends erases.acyclic_erased acyclicFinal
      (extended.trans (extends_insert _ unbound)) _
  rw [Tainted, value, Term.mentions_mapVars] at sound
  intro w marked
  rw [← Bool.not_eq_true]
  intro inside
  refine sound ⟨named, ?_⟩
  by_cases member : w ∈ fresh
  · refine ⟨.wildcard, Term.mentions_wildcard_erase member inside, ?_⟩
    rw [resolution, resolve_of_unbound anonymousFinal, Term.mentions_var]
  · obtain ⟨namedInside, tainted⟩ := marked.resolve_left member
    exact ⟨w, (Term.mentions_erase member namedInside).trans inside, tainted⟩

end Substitution

end RelationalSolver
