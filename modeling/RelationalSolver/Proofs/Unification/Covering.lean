import RelationalSolver.Proofs.Unification.Lockstep

/-!
# Terms that cover others

A term with wildcards covers the terms that it becomes when its variables take their
values and every wildcard takes a value of its own.  Two terms that cover the same term
are unified, since the wildcard is in the way of nothing: as long as every binding covers
the value of its variable, no round fails.
-/

namespace RelationalSolver

/-- The second term is the first with values for its variables and anything in the place
of each wildcard. -/
inductive Term.Covers (θ : Assignment) : Term → Term → Prop where
  | wildcard (u : Term) : Covers θ (.var .wildcard) u
  | var (v : Var) : Covers θ (.var v) (θ v)
  | atom (a : Atom) : Covers θ (.atom a) (.atom a)
  | compound (f : String) {args values : List Term} (each : List.Forall₂ (Covers θ) args values) :
      Covers θ (.compound f args) (.compound f values)

/-- The two terms cover one and the same. -/
def Term.Overlap (θ : Assignment) (a b : Term) : Prop := ∃ u, a.Covers θ u ∧ b.Covers θ u

namespace Term

variable {θ image : Assignment} {t u a b : Term} {v : Var} {f : String} {args : List Term}

theorem Covers.eq_of_var (covers : Covers θ (.var v) u) (named : v ≠ .wildcard) : u = θ v := by
  cases covers with
  | wildcard => exact absurd rfl named
  | var => rfl

/-- Covering is kept where the images of the variables cover their values. -/
theorem Covers.mapVars (covers : Covers θ t u) (anonymous : image .wildcard = .var .wildcard)
    (images : ∀ v, t.mentions v = true → v ≠ .wildcard → Covers θ (image v) (θ v)) :
    Covers θ (t.mapVars image) u := by
  induction t using rec_args generalizing u with
  | var v =>
      by_cases named : v = .wildcard
      · subst named
        rw [mapVars_var, anonymous]
        exact .wildcard u
      · rw [covers.eq_of_var named]
        exact images v (mentions_var.mpr rfl) named
  | atom a => exact covers
  | compound f args ih =>
      cases covers with
      | @compound _ _ values each =>
          rw [mapVars_compound]
          apply Covers.compound f
          rw [List.forall₂_map_left_iff]
          have among := List.forall₂_and_left args values |>.mpr ⟨fun _ inside => inside, each⟩
          apply among.imp
          rintro arg value ⟨inside, covers⟩
          exact ih arg inside covers fun v within =>
            images v (mentions_compound.mpr ⟨arg, inside, within⟩)

/-- Each argument of a compound covers a smaller term. -/
theorem Covers.exists_arg (covers : Covers θ (.compound f args) u) (member : t ∈ args) :
    ∃ value, Covers θ t value ∧ value.size < u.size := by
  cases covers with
  | @compound _ _ values each =>
      have among : ∃ value ∈ values, Covers θ t value := by
        clear f
        induction each with
        | nil => cases member
        | @cons arg value _ _ first _ ih =>
            rcases List.mem_cons.mp member with rfl | later
            · exact ⟨value, by simp, first⟩
            · obtain ⟨found, inside, covers⟩ := ih later
              exact ⟨found, List.mem_cons_of_mem value inside, covers⟩
      obtain ⟨value, inside, covers⟩ := among
      exact ⟨value, covers, size_lt_of_mem inside⟩

/-- The value of a variable is not larger than what a term with it covers. -/
theorem Covers.size_le (covers : Covers θ t u) (named : v ≠ .wildcard)
    (inside : t.mentions v = true) : (θ v).size ≤ u.size := by
  induction t using rec_args generalizing u with
  | var w =>
      rw [mentions_var] at inside
      subst inside
      rw [covers.eq_of_var named]
  | atom a => cases inside
  | compound f args ih =>
      obtain ⟨arg, member, within⟩ := mentions_compound.mp inside
      obtain ⟨value, coversArg, smaller⟩ := covers.exists_arg member
      exact (ih arg member coversArg within).trans smaller.le

/-- A compound with a variable does not cover the value of the variable. -/
theorem Covers.not_mentions (covers : Covers θ (.compound f args) (θ v)) (named : v ≠ .wildcard) :
    (Term.compound f args).mentions v = false := by
  rw [← Bool.not_eq_true, mentions_compound]
  rintro ⟨arg, member, within⟩
  obtain ⟨value, coversArg, smaller⟩ := covers.exists_arg member
  exact absurd (coversArg.size_le named within) (by omega)

theorem Overlap.parts {bs : List Term} {g : String}
    (overlap : Overlap θ (.compound f args) (.compound g bs)) :
    f = g ∧ List.Forall₂ (Overlap θ) args bs := by
  obtain ⟨u, left, right⟩ := overlap
  cases left with
  | @compound _ _ values each =>
      cases right with
      | compound _ others =>
          refine ⟨rfl, ?_⟩
          induction each generalizing bs with
          | nil =>
              cases others
              exact .nil
          | cons first _ ih =>
              cases others with
              | cons second rest => exact .cons ⟨_, first, second⟩ (ih rest)

/-- Terms with a clash at the top do not overlap. -/
theorem Overlap.not_clash (overlap : Overlap θ a b) : ¬ Bindings.Clash a b := by
  intro clash
  cases clash with
  | atoms different =>
      obtain ⟨u, left, right⟩ := overlap
      cases left
      cases right
      exact different rfl
  | atomCompound =>
      obtain ⟨u, left, right⟩ := overlap
      cases left
      cases right
  | compoundAtom =>
      obtain ⟨u, left, right⟩ := overlap
      cases right
      cases left
  | shapes different =>
      obtain ⟨same, each⟩ := overlap.parts
      exact different ⟨each.length_eq, same⟩

end Term

namespace Substitution

variable {s next : Substitution} {θ : Assignment} {t u a b : Term} {v : Var}

/-- Every binding covers the value of its variable. -/
structure Fits (θ : Assignment) (s : Substitution) : Prop where
  acyclic : s.Acyclic
  anonymous : s.lookup .wildcard = none
  covers : ∀ v t, s.lookup v = some t → t.Covers θ (θ v)

namespace Fits

theorem empty : Fits θ empty := ⟨acyclic_empty, by simp, by simp⟩

theorem resolution (fits : s.Fits θ) : v ≠ .wildcard → (s.resolution v).Covers θ (θ v) := by
  induction v using fits.acyclic.induction with
  | step v ih =>
      intro named
      cases bound : s.lookup v with
      | none =>
          rw [Substitution.resolution, resolve_of_unbound bound]
          exact .var v
      | some t =>
          rw [Substitution.resolution, resolve_of_bound fits.acyclic bound, ← mapVars_resolution]
          apply (fits.covers v t bound).mapVars (resolve_of_unbound fits.anonymous)
          exact fun w inside => ih t bound w inside

theorem resolve (fits : s.Fits θ) (covers : t.Covers θ u) : (s.resolve t).Covers θ u := by
  rw [← mapVars_resolution]
  apply covers.mapVars (resolve_of_unbound fits.anonymous)
  exact fun v _ => fits.resolution

theorem walk (fits : s.Fits θ) (covers : t.Covers θ u) : (s.walk t).Covers θ u := by
  obtain ⟨count, chain⟩ := fits.acyclic.walksEnd.exists_ends t
  generalize s.walk t = last at chain
  induction chain with
  | here _ => exact covers
  | @next v t _ _ bound _ ih =>
      have named : v ≠ .wildcard := by
        rintro rfl
        rw [fits.anonymous] at bound
        cases bound
      rw [covers.eq_of_var named] at ih
      have := covers.eq_of_var named
      subst this
      exact ih (fits.covers v t bound)

theorem overlap_walk (fits : s.Fits θ) (overlap : a.Overlap θ b) :
    (s.walk a).Overlap θ (s.walk b) := by
  obtain ⟨u, left, right⟩ := overlap
  exact ⟨u, fits.walk left, fits.walk right⟩

end Fits

/-- The occurrence test decides about the binding of an unbound variable to a walked
term. -/
theorem bindVar_enabled (acyclic : s.Acyclic) (named : v ≠ .wildcard) (walked : s.Walked t)
    (different : t ≠ .var v) : (store .enabled).bindVar s v t =
      .ok (if (s.resolve t).mentions v then none else some (s.insert v t)) := by
  have extended := extend_of_walked named walked different
  have simple := apart_of_walked walked different
  cases t with
  | var w =>
      rw [simple (by simp)]
      exact congrArg Except.ok extended
  | atom a =>
      rw [simple (by simp)]
      exact congrArg Except.ok extended
  | compound f args =>
      have tested : (store .enabled).forbids s v (.compound f args) =
          .ok ((s.resolve (.compound f args)).mentions v) := occurs_eq_mentions acyclic v _
      rw [Bindings.bindVar, tested]
      cases (s.resolve (.compound f args)).mentions v with
      | true => rfl
      | false => exact congrArg Except.ok extended

/-- If the attempt ends, it succeeds, and its bindings cover the values. -/
def Fitting (θ : Assignment) (attempt : Except Unending (Option Substitution)) : Prop :=
  ∀ result, attempt = .ok result → ∃ next, result = some next ∧ next.Fits θ

theorem Fitting.same (fits : s.Fits θ) : Fitting θ (.ok (some s)) := by
  intro result ended
  cases ended
  exact ⟨s, rfl, fits⟩

theorem bindVar_fitting (fits : s.Fits θ) (named : v ≠ .wildcard) (unbound : s.lookup v = none)
    (walked : s.Walked t) (different : t ≠ .var v) (overlap : (Term.var v).Overlap θ t) :
    Fitting θ ((store .enabled).bindVar s v t) := by
  obtain ⟨u, left, covers⟩ := overlap
  have value := left.eq_of_var named
  subst value
  have apart : (s.resolve t).mentions v = false := by
    cases t with
    | var w => exact apart_of_walked walked different (by simp)
    | atom a => rfl
    | compound f args =>
        have resolved := fits.resolve covers
        rw [resolve_compound] at resolved ⊢
        exact resolved.not_mentions named
  rw [bindVar_enabled fits.acyclic named walked different, apart]
  apply Fitting.same
  refine ⟨fits.acyclic.insert_apart apart unbound, ?_, ?_⟩
  · rw [lookup_insert, if_neg named]
    exact fits.anonymous
  · intro w u bound
    rw [lookup_insert] at bound
    split at bound
    · rename_i same
      cases bound
      exact same ▸ covers
    · exact fits.covers w u bound

section Rounds

variable {unify : Substitution → Term → Term → Except Unending (Option Substitution)}

theorem unifyPairs_fitting (fitting : ∀ s a b, s.Fits θ → a.Overlap θ b → Fitting θ (unify s a b))
    {as bs : List Term} (overlap : List.Forall₂ (Term.Overlap θ) as bs) (fits : s.Fits θ) :
    Fitting θ (Bindings.unifyPairs unify s as bs) := by
  induction overlap generalizing s with
  | nil => exact .same fits
  | @cons a b as bs first _ ih =>
      intro result ended
      obtain ⟨found, here, rest⟩ := ok_of_bind ended
      obtain ⟨next, rfl, fitsNext⟩ := fitting s a b fits first found here
      exact ih fitsNext result rest

theorem unifyRound_fitting (fitting : ∀ s a b, s.Fits θ → a.Overlap θ b → Fitting θ (unify s a b))
    (fits : s.Fits θ) (overlap : a.Overlap θ b) :
    Fitting θ ((store .enabled).unifyRound unify s a b) := by
  have walked := fits.overlap_walk overlap
  have ended := walked_walk fits.acyclic
  apply Bindings.unifyRound_cases
  · exact fun _ => .same fits
  · exact fun _ => .same fits
  · rintro v t ⟨named, different, ⟨atVar, rfl⟩ | ⟨atVar, rfl⟩⟩
    · refine bindVar_fitting fits named (ended a v atVar) (ended b) different ?_
      rwa [← show s.walk a = .var v from atVar]
    · refine bindVar_fitting fits named (ended b v atVar) (ended a) different ?_
      rw [← show s.walk b = .var v from atVar]
      obtain ⟨u, left, right⟩ := walked
      exact ⟨u, right, left⟩
  · intro f as bs atLeft atRight _
    rw [show s.walk a = _ from atLeft, show s.walk b = _ from atRight] at walked
    exact unifyPairs_fitting fitting walked.parts.2 fits
  · exact fun clash => absurd clash walked.not_clash

end Rounds

theorem unifyWithin_fitting (depth : Nat) (s : Substitution) (a b : Term) (fits : s.Fits θ)
    (overlap : a.Overlap θ b) : Fitting θ (unifyWithin .enabled depth s a b) := by
  induction depth generalizing s a b with
  | zero =>
      intro result ended
      cases ended
  | succ depth ih => exact unifyRound_fitting ih fits overlap

/-- Terms that cover a common term are unified. -/
theorem unify_of_overlap (fits : s.Fits θ) (overlap : a.Overlap θ b) :
    ∃ next, s.unify .enabled a b = .ok (some next) ∧ next.Fits θ := by
  obtain ⟨result, ended, _⟩ := unify_ends fits.acyclic a b
  rw [unify_eq] at ended
  obtain ⟨next, rfl, fitsNext⟩ := unifyWithin_fitting _ s a b fits overlap result ended
  exact ⟨next, (unify_eq ..).trans ended, fitsNext⟩

end Substitution

end RelationalSolver
