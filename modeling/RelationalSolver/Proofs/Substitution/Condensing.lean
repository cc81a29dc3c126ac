import RelationalSolver.Proofs.Substitution.Chains
import RelationalSolver.Proofs.Substitution.Descent

/-!
# Substitutions that walk alike

Condensing a chain shortens walks and changes none of their ends.  Two substitutions whose
walks end alike bind the same variables, and if no variable leads back to itself they
resolve every term alike.  A further binding keeps them so.
-/

namespace RelationalSolver.Substitution

variable {s next other last : Substitution} {v w : Var} {t u value : Term} {count : Nat}

/-- Every walk comes to an end.  Cycles through compounds are allowed. -/
def WalksEnd (s : Substitution) : Prop := ∀ t, s.Walked (s.walk t)

theorem Acyclic.walksEnd (acyclic : s.Acyclic) : s.WalksEnd := walked_walk acyclic

theorem WalksEnd.exists_ends (ends : s.WalksEnd) (t : Term) :
    ∃ count, s.Ends count t (s.walk t) := exists_ends_walkWithin (ends t)

/-- Every walk comes to an end, the same one in both substitutions. -/
structure Matches (s other : Substitution) : Prop where
  ends : s.WalksEnd
  endsOther : other.WalksEnd
  walk : ∀ t, other.walk t = s.walk t

/-- Chains of one substitution end where chains of the other do. -/
theorem matches_of_ends (ends : s.WalksEnd)
    (follows : ∀ count t u, s.Ends count t u → ∃ many, other.Ends many t u) :
    s.Matches other := by
  have reaches : ∀ t, ∃ many, other.Ends many t (s.walk t) := by
    intro t
    obtain ⟨count, chain⟩ := ends.exists_ends t
    exact follows count t _ chain
  have walks : ∀ t, other.walk t = s.walk t := by
    intro t
    obtain ⟨many, chain⟩ := reaches t
    exact chain.walk_eq
  refine ⟨ends, ?_, walks⟩
  intro t
  obtain ⟨many, chain⟩ := reaches t
  rw [walks]
  exact chain.walked

namespace Matches

theorem refl (ends : s.WalksEnd) : s.Matches s := ⟨ends, ends, fun _ => rfl⟩

theorem symm (alike : s.Matches other) : other.Matches s :=
  ⟨alike.endsOther, alike.ends, fun t => (alike.walk t).symm⟩

theorem trans (first : s.Matches other) (second : other.Matches last) : s.Matches last :=
  ⟨first.ends, second.endsOther, fun t => (second.walk t).trans (first.walk t)⟩

end Matches

/-- A variable is unbound if it walks to itself. -/
theorem WalksEnd.lookup_eq_none_iff (ends : s.WalksEnd) :
    s.lookup v = none ↔ s.walk (.var v) = .var v := by
  constructor
  · intro unbound
    apply walk_of_walked
    intro w same
    cases same
    exact unbound
  · exact fun walks => ends (.var v) v walks

theorem Matches.lookup_eq_none_iff (alike : s.Matches other) :
    other.lookup v = none ↔ s.lookup v = none := by
  rw [alike.ends.lookup_eq_none_iff, alike.endsOther.lookup_eq_none_iff, alike.walk]

theorem Matches.walked (alike : s.Matches other) (walked : s.Walked t) : other.Walked t := by
  rintro v rfl
  exact alike.lookup_eq_none_iff.mpr (walked v rfl)

/-- As many variables are bound in one as in the other. -/
theorem Matches.size_eq (alike : s.Matches other) : other.size = s.size := by
  rw [← card_boundVars, ← card_boundVars]
  congr 1
  ext v
  rw [mem_boundVars, mem_boundVars, Option.isSome_iff_ne_none, Option.isSome_iff_ne_none, ne_eq,
    ne_eq, alike.lookup_eq_none_iff]

/-! ## One more binding -/

theorem Walked.insert (walked : s.Walked t) (different : t ≠ .var v) :
    (s.insert v u).Walked t := by
  rintro w rfl
  rw [lookup_insert, if_neg, walked w rfl]
  rintro rfl
  exact different rfl

/-- Only what walked to the variable walks on, to what it is bound to. -/
theorem Ends.insert (chain : s.Ends count t u) (unbound : s.lookup v = none)
    (walked : s.Walked value) (different : value ≠ .var v) :
    ∃ many, (s.insert v value).Ends many t (if u = .var v then value else u) := by
  induction chain with
  | @here t ended =>
      by_cases same : t = .var v
      · subst same
        rw [if_pos rfl]
        exact ⟨1, (Ends.here (walked.insert different)).next (by simp [lookup_insert])⟩
      · rw [if_neg same]
        exact ⟨0, .here (ended.insert same)⟩
  | @next w t u count bound _ ih =>
      obtain ⟨many, rest⟩ := ih
      refine ⟨many + 1, rest.next ?_⟩
      rw [lookup_insert, if_neg, bound]
      rintro rfl
      rw [unbound] at bound
      cases bound

theorem WalksEnd.walk_insert (ends : s.WalksEnd) (unbound : s.lookup v = none)
    (walked : s.Walked value) (different : value ≠ .var v) (t : Term) :
    (s.insert v value).walk t = (if s.walk t = .var v then value else s.walk t) ∧
      (s.insert v value).Walked ((s.insert v value).walk t) := by
  obtain ⟨count, chain⟩ := ends.exists_ends t
  obtain ⟨many, reaches⟩ := chain.insert unbound walked different
  have same := reaches.walk_eq
  exact ⟨same, same ▸ reaches.walked⟩

theorem Matches.insert (alike : s.Matches other) (unbound : s.lookup v = none)
    (walked : s.Walked value) (different : value ≠ .var v) :
    (s.insert v value).Matches (other.insert v value) := by
  have unboundOther := alike.lookup_eq_none_iff.mpr unbound
  have here := alike.ends.walk_insert unbound walked different
  have there := alike.endsOther.walk_insert unboundOther (alike.walked walked) different
  refine ⟨fun t => (here t).2, fun t => (there t).2, ?_⟩
  intro t
  rw [(here t).1, (there t).1, alike.walk]

/-! ## Resolving alike -/

section Resolving

variable (alike : s.Matches other) (acyclic : s.Acyclic) (acyclicOther : other.Acyclic)
include alike acyclic acyclicOther

theorem Matches.resolve (t : Term) : other.resolve t = s.resolve t := by
  induction size : (s.resolve t).size using Nat.strong_induction_on generalizing t with
  | _ n ih =>
      rw [← resolve_walk acyclic] at size
      rw [← resolve_walk acyclic, ← resolve_walk acyclicOther, alike.walk]
      cases walked : s.walk t with
      | atom a => rfl
      | var v =>
          have unbound := alike.ends t v walked
          rw [resolve_of_unbound unbound,
            resolve_of_unbound (alike.lookup_eq_none_iff.mpr unbound)]
      | compound f args =>
          rw [walked, resolve_compound] at size
          rw [resolve_compound, resolve_compound]
          congr 1
          apply List.map_congr_left
          intro arg member
          exact ih _ (size ▸ Term.size_lt_of_mem (List.mem_map_of_mem member)) arg rfl

theorem Matches.freeVars (t : Term) : other.freeVars t = s.freeVars t := by
  rw [Substitution.freeVars, Substitution.freeVars, alike.resolve acyclic acyclicOther]

theorem Matches.occurs (v : Var) (t : Term) : other.occurs v t = s.occurs v t := by
  rw [occurs_eq_mentions acyclic, occurs_eq_mentions acyclicOther,
    alike.resolve acyclic acyclicOther]

end Resolving

/-! ## Condensing -/

/-- A variable that is bound straight to the end of its walk. -/
theorem WalksEnd.matches_insert (ends : s.WalksEnd) (bound : s.lookup v ≠ none)
    (walks : s.walk (.var v) = value) : s.Matches (s.insert v value) := by
  have different : ∀ {u}, s.Walked u → u ≠ .var v := by
    rintro _ walked rfl
    exact bound (walked v rfl)
  apply matches_of_ends ends
  intro count t u chain
  induction chain with
  | here walked => exact ⟨0, .here (walked.insert (different walked))⟩
  | @next w t u count entry rest ih =>
      by_cases same : v = w
      · subst same
        have reached : u = value := (rest.next entry).walk_eq.symm.trans walks
        subst reached
        have ended := rest.walked
        exact ⟨1, (Ends.here (ended.insert (different ended))).next (by simp [lookup_insert])⟩
      · obtain ⟨many, rest⟩ := ih
        exact ⟨many + 1, rest.next (by rw [lookup_insert, if_neg same, entry])⟩

/-- The first variable of a chain leads to all variables of its end. -/
theorem Ends.transGen_binds (chain : s.Ends (count + 1) (.var v) u) (inside : u.mentions w) :
    Relation.TransGen s.Binds v w := by
  induction count generalizing v with
  | zero =>
      cases chain with
      | next bound rest =>
          cases rest with
          | here _ => exact .single ⟨_, bound, inside⟩
  | succ count ih =>
      cases chain with
      | next bound rest =>
          cases rest with
          | next boundLater later =>
              exact .head ⟨_, bound, Term.mentions_var.mpr rfl⟩ (ih (later.next boundLater))

theorem Acyclic.insert_walk (acyclic : s.Acyclic) (bound : s.lookup v ≠ none)
    (walks : s.walk (.var v) = value) : (s.insert v value).Acyclic := by
  have kept : ∀ x y, (s.insert v value).Binds x y → Relation.TransGen s.Binds x y := by
    rintro x y ⟨u, entry, inside⟩
    rw [lookup_insert] at entry
    split at entry
    · rename_i same
      cases entry
      subst same
      obtain ⟨count, chain⟩ := acyclic.walksEnd.exists_ends (.var v)
      rw [walks] at chain
      cases chain with
      | here walked => exact absurd (walked v rfl) bound
      | next entry rest => exact (rest.next entry).transGen_binds inside
    · exact .single ⟨u, entry, inside⟩
  have led : ∀ x y, Relation.TransGen (s.insert v value).Binds x y →
      Relation.TransGen s.Binds x y := by
    intro x y path
    induction path with
    | single binds => exact kept _ _ binds
    | tail _ binds ih => exact ih.trans (kept _ _ binds)
  exact fun x cycle => acyclic x (led x x cycle)

/-- Variables that are bound and walk to one value do so in every substitution that walks
alike. -/
theorem Matches.passed {chain : List Var} (alike : s.Matches other)
    (passed : ∀ v ∈ chain, s.lookup v ≠ none ∧ s.walk (.var v) = value) :
    ∀ v ∈ chain, other.lookup v ≠ none ∧ other.walk (.var v) = value := by
  intro v member
  rw [ne_eq, alike.lookup_eq_none_iff, alike.walk]
  exact passed v member

theorem WalksEnd.ne_var (ends : s.WalksEnd) (bound : s.lookup v ≠ none)
    (walks : s.walk (.var v) = value) : value ≠ .var v := by
  rintro rfl
  exact bound (ends.lookup_eq_none_iff.mpr walks)

/-- Binding variables straight to the end of their walks changes no walk. -/
theorem WalksEnd.condense {chain : List Var} (ends : s.WalksEnd)
    (passed : ∀ v ∈ chain, s.lookup v ≠ none ∧ s.walk (.var v) = value) :
    s.Matches (s.condense chain value) := by
  unfold Substitution.condense
  induction chain generalizing s with
  | nil => exact .refl ends
  | cons v chain ih =>
      rw [List.forall_mem_cons] at passed
      obtain ⟨⟨bound, walks⟩, others⟩ := passed
      have first := ends.matches_insert bound walks
      rw [List.foldl_cons, if_neg (ends.ne_var bound walks)]
      exact first.trans (ih first.endsOther (first.passed others))

theorem Acyclic.condense {chain : List Var} (acyclic : s.Acyclic)
    (passed : ∀ v ∈ chain, s.lookup v ≠ none ∧ s.walk (.var v) = value) :
    (s.condense chain value).Acyclic := by
  unfold Substitution.condense
  induction chain generalizing s with
  | nil => exact acyclic
  | cons v chain ih =>
      rw [List.forall_mem_cons] at passed
      obtain ⟨⟨bound, walks⟩, others⟩ := passed
      have first := acyclic.walksEnd.matches_insert bound walks
      rw [List.foldl_cons, if_neg (acyclic.walksEnd.ne_var bound walks)]
      exact ih (acyclic.insert_walk bound walks) (first.passed others)

/-- Condensing changes no walk and makes no cycle. -/
theorem condense_matches {chain : List Var} (acyclic : s.Acyclic)
    (passed : ∀ v ∈ chain, s.lookup v ≠ none ∧ s.walk (.var v) = value) :
    s.Matches (s.condense chain value) ∧ (s.condense chain value).Acyclic :=
  ⟨acyclic.walksEnd.condense passed, acyclic.condense passed⟩

/-- The variables that a walk passes are bound and walk to its end. -/
theorem mem_walkChainWithin {steps : Nat} (ended : s.Walked (s.walkWithin steps t))
    (member : v ∈ (s.walkChainWithin steps t).2) :
    s.lookup v ≠ none ∧ s.walk (.var v) = s.walkWithin steps t := by
  induction steps generalizing t with
  | zero => cases t <;> cases member
  | succ steps ih =>
      cases t with
      | atom a => cases member
      | compound f args => cases member
      | var w =>
          rw [walkChainWithin] at member
          rw [walkWithin] at ended ⊢
          cases bound : s.lookup w with
          | none =>
              rw [bound] at member
              cases member
          | some t =>
              rw [bound] at member ended
              rcases List.mem_cons.mp member with rfl | later
              · obtain ⟨count, chain⟩ := exists_ends_walkWithin ended
                exact ⟨by simp [bound], (chain.next bound).walk_eq⟩
              · exact ih ended later

end RelationalSolver.Substitution
