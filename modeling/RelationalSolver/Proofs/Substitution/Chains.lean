import RelationalSolver.Proofs.Substitution.Solutions

/-!
# Chains of bindings

A walk follows bindings one after the other.  A chain that comes to an end passes no
variable twice, so it has no more bindings than the substitution and the walk reaches its
end.  Cycles through compounds do not concern a walk.
-/

namespace RelationalSolver.Substitution

variable {s : Substitution} {v w : Var} {t u : Term} {count other : Nat}

/-- So many bindings lead from the first term to the second, where the walk ends. -/
inductive Ends (s : Substitution) : Nat → Term → Term → Prop where
  | here {t : Term} (walked : s.Walked t) : s.Ends 0 t t
  | next {v : Var} {t u : Term} {count : Nat} (bound : s.lookup v = some t)
      (rest : s.Ends count t u) : s.Ends (count + 1) (.var v) u

namespace Ends

theorem walked (ends : s.Ends count t u) : s.Walked u := by
  induction ends with
  | here walked => exact walked
  | next _ _ ih => exact ih

theorem unique (ends : s.Ends count t u) {last : Term} (others : s.Ends other t last) :
    count = other ∧ u = last := by
  induction ends generalizing other with
  | here walked =>
      cases others with
      | here _ => exact ⟨rfl, rfl⟩
      | next bound _ =>
          rw [walked _ rfl] at bound
          cases bound
  | next bound _ ih =>
      cases others with
      | here walked =>
          rw [walked _ rfl] at bound
          cases bound
      | next boundOther rest =>
          rw [bound] at boundOther
          cases boundOther
          obtain ⟨same, sameEnd⟩ := ih rest
          exact ⟨congrArg (· + 1) same, sameEnd⟩

/-- The bound variables that a chain passes differ from each other. -/
theorem exists_passed (ends : s.Ends count t u) :
    ∃ passed ⊆ s.boundVars, passed.card = count ∧
      ∀ v ∈ passed, ∃ left ≤ count, s.Ends left (.var v) u := by
  induction ends with
  | here _ => exact ⟨∅, by simp⟩
  | @next v t u count bound rest ih =>
      obtain ⟨passed, inside, size, behind⟩ := ih
      have new : v ∉ passed := by
        intro member
        obtain ⟨left, few, ends⟩ := behind v member
        have same := (ends.unique (rest.next bound)).1
        omega
      refine ⟨Insert.insert v passed, ?_, ?_, ?_⟩
      · exact Finset.insert_subset (mem_boundVars.mpr (by simp [bound])) inside
      · rw [Finset.card_insert_of_notMem new, size]
      · intro w member
        rcases Finset.mem_insert.mp member with rfl | before
        · exact ⟨count + 1, Nat.le_refl _, rest.next bound⟩
        · obtain ⟨left, few, ends⟩ := behind w before
          exact ⟨left, by omega, ends⟩

/-- A chain that ends is not longer than there are bindings. -/
theorem le_size (ends : s.Ends count t u) : count ≤ s.size := by
  obtain ⟨passed, inside, size, _⟩ := ends.exists_passed
  rw [← size, ← card_boundVars]
  exact Finset.card_le_card inside

theorem walkWithin_eq (ends : s.Ends count t u) {steps : Nat} (enough : count ≤ steps) :
    s.walkWithin steps t = u := by
  induction ends generalizing steps with
  | here walked => exact walkWithin_of_walked walked steps
  | next bound _ ih =>
      obtain ⟨steps, rfl⟩ := Nat.exists_eq_succ_of_ne_zero (n := steps) (by omega)
      rw [walkWithin, bound]
      exact ih (by omega)

/-- A walk reaches the end of a chain. -/
theorem walk_eq (ends : s.Ends count t u) : s.walk t = u := ends.walkWithin_eq ends.le_size

end Ends

theorem exists_ends_walkWithin {steps : Nat} (walked : s.Walked (s.walkWithin steps t)) :
    ∃ count, s.Ends count t (s.walkWithin steps t) := by
  induction steps generalizing t with
  | zero =>
      have same : s.walkWithin 0 t = t := by cases t <;> rfl
      rw [same] at walked ⊢
      exact ⟨0, .here walked⟩
  | succ steps ih =>
      cases t with
      | atom a => exact ⟨0, by simpa using Ends.here walked⟩
      | compound f args => exact ⟨0, by simpa using Ends.here walked⟩
      | var v =>
          rw [walkWithin] at walked ⊢
          cases bound : s.lookup v with
          | none =>
              rw [bound] at walked
              exact ⟨0, .here walked⟩
          | some t =>
              rw [bound] at walked
              obtain ⟨count, ends⟩ := ih walked
              exact ⟨count + 1, ends.next bound⟩

/-- What is left of a chain after so many bindings. -/
theorem ends_of_ends_walkWithin {steps : Nat} (bound : ¬ s.Walked (s.walkWithin steps t))
    (ends : s.Ends count (s.walkWithin steps t) u) : s.Ends (steps + count) t u := by
  induction steps generalizing t with
  | zero => cases t <;> simpa [walkWithin] using ends
  | succ steps ih =>
      cases t with
      | atom a => simp [Walked] at bound
      | compound f args => simp [Walked] at bound
      | var v =>
          rw [walkWithin] at ends bound
          cases entry : s.lookup v with
          | none =>
              rw [entry] at bound
              refine absurd ?_ bound
              intro w same
              cases same
              exact entry
          | some t =>
              rw [entry] at ends bound
              rw [Nat.add_right_comm]
              exact (ih bound ends).next entry

/-- A walk that has not ended has no end. -/
theorem not_ends_walk (bound : ¬ s.Walked (s.walk t)) : ¬ s.Ends count (s.walk t) u := by
  intro ends
  have long := (ends_of_ends_walkWithin bound ends).le_size
  have none : count = 0 := by omega
  subst none
  cases ends with
  | here walked => exact bound walked

/-! ## Terms that resolve to ground terms -/

theorem expand_of_mem {expanding : List Var} (member : v ∈ expanding) (budget : Nat) :
    s.expand budget expanding v = .var v := by
  rw [expand.eq_def]
  simp [member]

@[simp] theorem expand_zero (expanding : List Var) : s.expand 0 expanding v = .var v := by
  rw [expand.eq_def]
  cases s.lookup v <;> simp

/-- A variable whose chain has no end resolves to a variable. -/
theorem isGround_expand_of_not_ends {budget : Nat} {expanding : List Var}
    (endless : ∀ count u, ¬ s.Ends count (.var v) u) :
    (s.expand budget expanding v).isGround = false := by
  induction budget generalizing v expanding with
  | zero =>
      rw [expand_zero]
      rfl
  | succ budget ih =>
      by_cases member : v ∈ expanding
      · rw [expand_of_mem member]
        rfl
      · cases bound : s.lookup v with
        | none =>
            rw [expand_of_unbound bound]
            rfl
        | some t =>
            rw [expand_of_bound member bound]
            have walking : ∀ count u, ¬ s.Ends count t u :=
              fun count u rest => endless (count + 1) u (rest.next bound)
            cases t with
            | var w => exact ih walking
            | atom a => exact absurd (Ends.here (by simp [Walked])) (walking 0 (.atom a))
            | compound f args =>
                exact absurd (Ends.here (by simp [Walked])) (walking 0 (.compound f args))

/-- What walks to a variable does not resolve to a ground term, even in a cyclic
substitution. -/
theorem isGround_expand_of_walk_eq_var (walks : s.walk t = .var v) (budget : Nat)
    (expanding : List Var) : (s.expand budget expanding v).isGround = false := by
  by_cases walked : s.Walked (.var v)
  · rw [expand_of_unbound (walked v rfl)]
    rfl
  · apply isGround_expand_of_not_ends
    intro count u
    rw [← walks] at walked ⊢
    exact not_ends_walk walked

/-- An expansion to a ground term has all it needs: more bindings may be followed, fewer
variables may be held back, and what is bound otherwise does not matter if none of it is
part of such an expansion. -/
theorem expand_eq_of_isGround {next : Substitution} {few many : Nat} {held fewer : List Var}
    (keeps : ∀ w t, s.lookup w = some t →
      (∃ budget expanding, (s.expand budget expanding w).isGround = true) →
      next.lookup w = some t)
    (ground : (s.expand few held v).isGround = true) (enough : few ≤ many)
    (inside : fewer ⊆ held) : next.expand many fewer v = s.expand few held v := by
  induction few generalizing v many held fewer with
  | zero =>
      rw [expand_zero] at ground
      cases ground
  | succ few ih =>
      obtain ⟨many, rfl⟩ := Nat.exists_eq_succ_of_ne_zero (n := many) (by omega)
      have absent : v ∉ held := by
        intro member
        rw [expand_of_mem member] at ground
        cases ground
      cases bound : s.lookup v with
      | none =>
          rw [expand_of_unbound bound] at ground
          cases ground
      | some t =>
          have kept := keeps v t bound ⟨_, _, ground⟩
          rw [expand_of_bound absent bound] at ground ⊢
          rw [expand_of_bound (fun member => absent (inside member)) kept]
          apply Term.mapVars_congr
          intro w mentioned
          apply ih _ (by omega) (List.cons_subset_cons v inside)
          exact Term.isGround_mapVars.mp ground w mentioned

end RelationalSolver.Substitution
