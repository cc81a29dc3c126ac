import RelationalSolver.Proofs.Substitution.Descent
import RelationalSolver.Proofs.Term.Renumbering

/-!
# Substitutions under other numbers

A substitution binds the same variables to the same terms under other numbers.  It is walked,
resolved and extended as the one it stands for.
-/

namespace RelationalSolver.Substitution

/-- The same bindings over variables under other numbers. -/
def Renumbers (ρ : ℕ → ℕ) (s other : Substitution) : Prop :=
  other.toList = s.toList.map fun entry => (entry.1.renumber ρ, entry.2.renumber ρ)

variable {ρ : ℕ ↪o ℕ} {s other : Substitution} {v : Var} {t : Term}

theorem mem_toList {entry : Var × Term} :
    entry ∈ s.toList ↔ s.lookup entry.1 = some entry.2 :=
  Std.TreeMap.mem_toList_iff_getElem?_eq_some

theorem pairwise_toList (s : Substitution) :
    s.toList.Pairwise fun a b => Ord.compare a.1 b.1 = .lt :=
  Std.TreeMap.ordered_keys_toList

theorem nodup_toList (s : Substitution) : s.toList.Nodup :=
  s.pairwise_toList.imp fun {a b} less same => by simp [same] at less

/-- A substitution is told by what its variables are bound to. -/
theorem renumbers_iff : s.Renumbers ρ other ↔ ∀ w u, other.lookup w = some u ↔
    ∃ v t, s.lookup v = some t ∧ v.renumber ρ = w ∧ t.renumber ρ = u := by
  have listed : ∀ entry : Var × Term,
      (entry ∈ s.toList.map fun entry => (entry.1.renumber ρ, entry.2.renumber ρ)) ↔
        ∃ v t, s.lookup v = some t ∧ v.renumber ρ = entry.1 ∧ t.renumber ρ = entry.2 := by
    intro entry
    simp only [List.mem_map, mem_toList, Prod.exists, Prod.ext_iff]
  unfold Renumbers
  constructor
  · intro same w u
    rw [← listed (w, u), ← same, mem_toList]
  · intro bound
    have injective : Function.Injective fun entry : Var × Term =>
        (entry.1.renumber ρ, entry.2.renumber ρ) :=
      (Var.renumber_injective ρ).prodMap (Term.renumber_injective ρ)
    refine List.Perm.eq_of_pairwise ?_ other.pairwise_toList ?_ ?_
    · intro a b _ _ less greater
      rw [Std.OrientedOrd.eq_swap, greater] at less
      contradiction
    · rw [List.pairwise_map]
      exact s.pairwise_toList.imp fun {a b} less => Var.compare_renumber.trans less
    · rw [List.perm_ext_iff_of_nodup other.nodup_toList
        (List.Nodup.map injective s.nodup_toList)]
      intro entry
      rw [listed, mem_toList, bound]

theorem Renumbers.symm {ρ τ : ℕ → ℕ} (inverse : ∀ ordinal, τ (ρ ordinal) = ordinal)
    (renumbers : s.Renumbers ρ other) : other.Renumbers τ s := by
  unfold Renumbers at renumbers ⊢
  rw [renumbers, List.map_map]
  refine ((List.map_congr_left fun entry _ => ?_).trans (List.map_id' s.toList)).symm
  exact Prod.ext (Var.renumber_cancel inverse entry.1) (Term.renumber_cancel inverse entry.2)

theorem renumbers_empty (ρ : ℕ ↪o ℕ) : empty.Renumbers ρ empty := by
  simp [renumbers_iff]

namespace Renumbers

section Reading

variable (renumbers : s.Renumbers ρ other)
include renumbers

theorem lookup (v : Var) : other.lookup (v.renumber ρ) = (s.lookup v).map (·.renumber ρ) := by
  have bound := renumbers_iff.mp renumbers (v.renumber ρ)
  apply Option.ext
  intro u
  rw [bound, Option.map_eq_some_iff]
  constructor
  · rintro ⟨w, t, found, same, rfl⟩
    obtain rfl := Var.renumber_inj.mp same
    exact ⟨t, found, rfl⟩
  · rintro ⟨t, found, rfl⟩
    exact ⟨v, t, found, rfl, rfl⟩

theorem size_eq : other.size = s.size := by
  have length : ∀ s : Substitution, s.size = s.toList.length :=
    fun s => Std.TreeMap.length_toList.symm
  rw [length, length, renumbers, List.length_map]

theorem nodes_eq : other.nodes = s.nodes := by
  rw [nodes_eq_sizes, nodes_eq_sizes, renumbers, List.map_map,
    ← Term.sizes_renumber ρ (s.toList.map (·.2)), List.map_map]
  rfl

theorem insert (v : Var) (t : Term) :
    (s.insert v t).Renumbers ρ (other.insert (v.renumber ρ) (t.renumber ρ)) := by
  rw [renumbers_iff] at renumbers ⊢
  intro w u
  simp only [lookup_insert]
  constructor
  · intro found
    split at found
    · rename_i here
      cases found
      exact ⟨v, t, if_pos rfl, here, rfl⟩
    · rename_i elsewhere
      obtain ⟨x, r, bound, rfl, rfl⟩ := (renumbers w u).mp found
      have different : v ≠ x := fun same => elsewhere (congrArg _ same)
      exact ⟨x, r, by rw [if_neg different, bound], rfl, rfl⟩
  · rintro ⟨x, r, bound, rfl, rfl⟩
    simp only [Var.renumber_inj]
    split at bound
    · rename_i here
      cases bound
      rw [if_pos here]
    · rename_i elsewhere
      rw [if_neg elsewhere]
      exact (renumbers _ _).mpr ⟨x, r, bound, rfl, rfl⟩

/-! ## Walking -/

theorem walkChainWithin (steps : Nat) (t : Term) :
    other.walkChainWithin steps (t.renumber ρ) =
      ((s.walkChainWithin steps t).1.renumber ρ,
        (s.walkChainWithin steps t).2.map (·.renumber ρ)) := by
  induction steps generalizing t with
  | zero => cases t <;> simp [Substitution.walkChainWithin]
  | succ steps ih =>
      cases t with
      | atom a => rfl
      | compound f args => simp [Substitution.walkChainWithin]
      | var v =>
          simp only [Term.renumber_var, Substitution.walkChainWithin, renumbers.lookup]
          cases s.lookup v with
          | none => rfl
          | some u => simp [ih u]

theorem walkChain (t : Term) : other.walkChain (t.renumber ρ) =
    ((s.walkChain t).1.renumber ρ, (s.walkChain t).2.map (·.renumber ρ)) := by
  rw [Substitution.walkChain, renumbers.size_eq, renumbers.walkChainWithin]
  rfl

theorem walk (t : Term) : other.walk (t.renumber ρ) = (s.walk t).renumber ρ := by
  rw [← walkChain_fst, renumbers.walkChain, walkChain_fst]

theorem extend (v : Var) (t : Term) : Option.Rel (Renumbers ρ) (s.extend v t)
    (other.extend (v.renumber ρ) (t.renumber ρ)) := by
  have same : (v.renumber ρ = .wildcard ∨ other.walk (t.renumber ρ) = .var (v.renumber ρ)) ↔
      (v = .wildcard ∨ s.walk t = .var v) := by
    rw [Var.renumber_eq_wildcard, renumbers.walk, ← Term.renumber_var, Term.renumber_inj]
  unfold Substitution.extend
  simp only [same]
  split
  · exact .none
  · exact .some (renumbers.insert v t)

/-! ## Resolving -/

theorem expand (budget : Nat) (expanding : List Var) (v : Var) :
    other.expand budget (expanding.map (·.renumber ρ)) (v.renumber ρ) =
      (s.expand budget expanding v).renumber ρ := by
  induction budget generalizing expanding v with
  | zero =>
      unfold Substitution.expand
      simp only [List.mem_map_of_injective (Var.renumber_injective ρ)]
      split
      · rfl
      · cases s.lookup v <;> cases other.lookup (v.renumber ρ) <;> rfl
  | succ budget ih =>
      unfold Substitution.expand
      simp only [List.mem_map_of_injective (Var.renumber_injective ρ), renumbers.lookup]
      split
      · rfl
      · cases s.lookup v with
        | none => rfl
        | some t => exact Term.mapVars_renumber (ih (v :: expanding)) t

theorem resolve (t : Term) : other.resolve (t.renumber ρ) = (s.resolve t).renumber ρ := by
  rw [Substitution.resolve, renumbers.size_eq]
  exact Term.mapVars_renumber (renumbers.expand s.size []) t

theorem freeVars (t : Term) :
    other.freeVars (t.renumber ρ) = (s.freeVars t).map (·.renumber ρ) := by
  rw [Substitution.freeVars, renumbers.resolve, Term.vars_renumber]
  rfl

/-- What several variables reach. -/
theorem freeVars_foldl (vars seen : List Var) :
    (vars.map (·.renumber ρ)).foldl
        (fun seen v => appendAllNew seen (other.freeVars (.var v))) (seen.map (·.renumber ρ)) =
      (vars.foldl (fun seen v => appendAllNew seen (s.freeVars (.var v))) seen).map
        (·.renumber ρ) :=
  foldl_appendAllNew_map (Var.renumber_injective ρ) (e := Var.renumber ρ)
    (h := fun v => other.freeVars (.var v)) (fun v => renumbers.freeVars (.var v)) vars seen

theorem occursBy {deeper deeperOther : Term → Except Unending Bool}
    (below : ∀ t, deeperOther (t.renumber ρ) = deeper t) (v : Var) (depth : Nat) (t : Term) :
    Substitution.occursBy deeperOther other (v.renumber ρ) depth (t.renumber ρ) =
      Substitution.occursBy deeper s v depth t := by
  induction depth generalizing t with
  | zero => exact below t
  | succ depth ih =>
      rw [Substitution.occursBy, Substitution.occursBy, renumbers.walk]
      cases s.walk t with
      | var w => simp
      | atom a => rfl
      | compound f args =>
          rw [Term.renumber_compound]
          dsimp only
          induction args with
          | nil => rfl
          | cons u args rest => rw [List.map_cons, anyWithin, anyWithin, ih u, rest]

theorem occurs (v : Var) (t : Term) :
    other.occurs (v.renumber ρ) (t.renumber ρ) = s.occurs v t := by
  unfold Substitution.occurs
  apply renumbers.occursBy
  intro u
  rw [renumbers.nodes_eq, Term.size_renumber]
  exact renumbers.occursBy (fun _ => rfl) v _ u

end Reading

theorem condense (chain : List Var) (value : Term) (renumbers : s.Renumbers ρ other) :
    (s.condense chain value).Renumbers ρ
      (other.condense (chain.map (·.renumber ρ)) (value.renumber ρ)) := by
  unfold Substitution.condense
  induction chain generalizing s other with
  | nil => exact renumbers
  | cons v chain ih =>
      rw [List.map_cons, List.foldl_cons, List.foldl_cons]
      apply ih
      simp only [← Term.renumber_var, Term.renumber_inj]
      split
      · exact renumbers
      · exact renumbers.insert v value

end Renumbers

end RelationalSolver.Substitution
