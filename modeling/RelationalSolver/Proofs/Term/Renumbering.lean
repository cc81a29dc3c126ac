import Mathlib.Data.List.Nodup
import Mathlib.Order.Hom.Basic
import RelationalSolver.Proofs.Term.Variables
import RelationalSolver.TermSet

/-!
# Terms under other numbers

The numbered variables of a term get other numbers.  A renumbering that keeps the order of
numbers keeps the order of terms, and everything that is read off a term: which variables it
has and in which order they occur, its size and whether it is ground.
-/

namespace RelationalSolver

/-! ## First occurrences -/

section FirstOccurrences

variable {α β ι κ : Type} [DecidableEq α] [DecidableEq β] {f : α → β}

theorem appendNew_map (injective : f.Injective) (seen : List α) (item : α) :
    appendNew (seen.map f) (f item) = (appendNew seen item).map f := by
  unfold appendNew
  simp only [List.mem_map_of_injective injective, apply_ite (List.map f), List.map_append,
    List.map_singleton]

theorem appendAllNew_map (injective : f.Injective) (seen items : List α) :
    appendAllNew (seen.map f) (items.map f) = (appendAllNew seen items).map f := by
  induction items generalizing seen with
  | nil => rfl
  | cons item items ih =>
      change appendAllNew (appendNew (seen.map f) (f item)) (items.map f) =
        (appendAllNew (appendNew seen item) items).map f
      rw [appendNew_map injective, ih]

/-- What is collected from items that become others. -/
theorem foldl_appendAllNew_map (injective : f.Injective) {e : ι → κ} {g : ι → List α}
    {h : κ → List β} (same : ∀ item, h (e item) = (g item).map f) (items : List ι)
    (seen : List α) :
    (items.map e).foldl (fun seen item => appendAllNew seen (h item)) (seen.map f) =
      (items.foldl (fun seen item => appendAllNew seen (g item)) seen).map f := by
  induction items generalizing seen with
  | nil => rfl
  | cons item items ih =>
      rw [List.map_cons, List.foldl_cons, List.foldl_cons, same, appendAllNew_map injective, ih]

end FirstOccurrences

/-! ## Variables -/

namespace Var

/-- The same variable under another number. -/
def renumber (ρ : ℕ → ℕ) : Var → Var
  | .numbered ordinal => .numbered (ρ ordinal)
  | v => v

@[simp] theorem renumber_wildcard (ρ : ℕ → ℕ) : wildcard.renumber ρ = .wildcard := rfl

@[simp] theorem renumber_numbered (ρ : ℕ → ℕ) (ordinal : ℕ) :
    (numbered ordinal).renumber ρ = .numbered (ρ ordinal) := rfl

@[simp] theorem renumber_named (ρ : ℕ → ℕ) (name : String) :
    (named name).renumber ρ = .named name := rfl

@[simp] theorem renumber_eq_wildcard {ρ : ℕ → ℕ} {v : Var} :
    v.renumber ρ = .wildcard ↔ v = .wildcard := by
  cases v <;> simp

/-- A renumbering can be taken back. -/
theorem renumber_cancel {ρ τ : ℕ → ℕ} (inverse : ∀ ordinal, τ (ρ ordinal) = ordinal) (v : Var) :
    (v.renumber ρ).renumber τ = v := by
  cases v with
  | numbered ordinal => exact congrArg numbered (inverse ordinal)
  | _ => rfl

theorem map_renumber_cancel {ρ τ : ℕ → ℕ} (inverse : ∀ ordinal, τ (ρ ordinal) = ordinal)
    (vars : List Var) : (vars.map (·.renumber ρ)).map (·.renumber τ) = vars := by
  rw [List.map_map]
  exact (List.map_congr_left fun v _ => renumber_cancel inverse v).trans (List.map_id' vars)

variable {ρ : ℕ ↪o ℕ} {v w : Var}

theorem renumber_injective (ρ : ℕ ↪o ℕ) : Function.Injective (renumber ρ) := by
  intro v w same
  cases v <;> cases w <;> simp_all

@[simp] theorem renumber_inj : v.renumber ρ = w.renumber ρ ↔ v = w :=
  (renumber_injective ρ).eq_iff

theorem compare_renumber : Ord.compare (v.renumber ρ) (w.renumber ρ) = Ord.compare v w := by
  have ordinals : ∀ m n : ℕ, Ord.compare (ρ m) (ρ n) = Ord.compare m n := by
    intro m n
    simp only [Nat.compare_eq_ite_lt, ρ.lt_iff_lt]
  have unfolded : ∀ v w : Var, Ord.compare v w =
      (Ord.compare v.rank w.rank).then
        ((Ord.compare v.ordinal w.ordinal).then (Ord.compare v.name w.name)) := fun _ _ => rfl
  rw [unfolded, unfolded]
  cases v <;> cases w <;> first | rfl | simp only [renumber, rank, ordinal, name, ordinals]

end Var

/-! ## Terms -/

namespace Term

/-- The same term over variables under other numbers. -/
def renumber (ρ : ℕ → ℕ) (t : Term) : Term := t.mapVars fun v => .var (v.renumber ρ)

@[simp] theorem renumber_var (ρ : ℕ → ℕ) (v : Var) : (var v).renumber ρ = .var (v.renumber ρ) := rfl

@[simp] theorem renumber_atom (ρ : ℕ → ℕ) (a : Atom) : (atom a).renumber ρ = .atom a := rfl

@[simp] theorem renumber_compound (ρ : ℕ → ℕ) (f : String) (args : List Term) :
    (compound f args).renumber ρ = .compound f (args.map (renumber ρ)) :=
  mapVars_compound _ f args

theorem renumber_of_isGround (ρ : ℕ → ℕ) {t : Term} (ground : t.isGround = true) :
    t.renumber ρ = t := mapVars_of_isGround _ ground

@[simp] theorem isGround_renumber (ρ : ℕ → ℕ) (t : Term) :
    (t.renumber ρ).isGround = t.isGround := by
  rw [Bool.eq_iff_iff, renumber, isGround_mapVars, isGround_iff]
  exact forall_congr' fun v => by simp [isGround]

@[simp] theorem size_renumber (ρ : ℕ → ℕ) (t : Term) : (t.renumber ρ).size = t.size := by
  induction t using rec_args with
  | var v => rfl
  | atom a => rfl
  | compound f args ih =>
      simp only [renumber_compound, size, sizes_eq_sum, List.map_map]
      exact congrArg (1 + List.sum ·) (List.map_congr_left ih)

@[simp] theorem sizes_renumber (ρ : ℕ → ℕ) (ts : List Term) :
    sizes (ts.map (renumber ρ)) = sizes ts := by
  simp [sizes_eq_sum, Function.comp_def]

@[simp] theorem asVar?_renumber (ρ : ℕ → ℕ) (t : Term) :
    (t.renumber ρ).asVar? = t.asVar?.map (·.renumber ρ) := by
  cases t <;> simp [asVar?]

/-- Maps of variables that put terms in the place of variables before and after. -/
theorem mapVars_renumber {ρ : ℕ → ℕ} {image imageOther : Assignment}
    (same : ∀ v, imageOther (v.renumber ρ) = (image v).renumber ρ) (t : Term) :
    (t.renumber ρ).mapVars imageOther = (t.mapVars image).renumber ρ := by
  rw [renumber, renumber, mapVars_mapVars, mapVars_mapVars]
  exact congrArg t.mapVars (funext same)

/-- A renumbering can be taken back. -/
theorem renumber_cancel {ρ τ : ℕ → ℕ} (inverse : ∀ ordinal, τ (ρ ordinal) = ordinal) (t : Term) :
    (t.renumber ρ).renumber τ = t := by
  rw [renumber, renumber, mapVars_mapVars]
  refine (congrArg t.mapVars (funext fun v => ?_)).trans (mapVars_id t)
  exact congrArg var (Var.renumber_cancel inverse v)

theorem map_renumber_cancel {ρ τ : ℕ → ℕ} (inverse : ∀ ordinal, τ (ρ ordinal) = ordinal)
    (ts : List Term) : (ts.map (·.renumber ρ)).map (·.renumber τ) = ts := by
  rw [List.map_map]
  exact (List.map_congr_left fun t _ => renumber_cancel inverse t).trans (List.map_id' ts)

variable {ρ : ℕ ↪o ℕ}

mutual

theorem compare_renumber (ρ : ℕ ↪o ℕ) : ∀ a b : Term,
    (a.renumber ρ).compare (b.renumber ρ) = a.compare b
  | .var _, .var _ => Var.compare_renumber
  | .atom _, .atom _ => rfl
  | .compound _ as, .compound _ bs => by
      rw [renumber_compound, renumber_compound, compare, compare, compareAll_renumber ρ as bs]
  | .var _, .atom _ => rfl
  | .var _, .compound _ _ => by simp [compare]
  | .atom _, .var _ => rfl
  | .atom _, .compound _ _ => by simp [compare]
  | .compound _ _, .var _ => by simp [compare]
  | .compound _ _, .atom _ => by simp [compare]

theorem compareAll_renumber (ρ : ℕ ↪o ℕ) : ∀ as bs : List Term,
    compareAll (as.map (renumber ρ)) (bs.map (renumber ρ)) = compareAll as bs
  | [], [] => rfl
  | [], _ :: _ => rfl
  | _ :: _, [] => rfl
  | a :: as, b :: bs => by
      rw [List.map_cons, List.map_cons, compareAll, compareAll, compare_renumber ρ a b,
        compareAll_renumber ρ as bs]

end

theorem renumber_injective (ρ : ℕ ↪o ℕ) : Function.Injective (renumber ρ) := by
  intro a b same
  apply eq_of_compare
  rw [← compare_renumber ρ, same, compare_self]

@[simp] theorem renumber_inj {a b : Term} : a.renumber ρ = b.renumber ρ ↔ a = b :=
  (renumber_injective ρ).eq_iff

mutual

theorem addVars_renumber (ρ : ℕ ↪o ℕ) : ∀ (t : Term) (seen : List Var),
    (t.renumber ρ).addVars (seen.map (·.renumber ρ)) = (t.addVars seen).map (·.renumber ρ)
  | .var .wildcard, _ => rfl
  | .var (.numbered ordinal), seen => appendNew_map (Var.renumber_injective ρ) seen _
  | .var (.named name), seen => appendNew_map (Var.renumber_injective ρ) seen (.named name)
  | .atom _, _ => rfl
  | .compound f args, seen => by
      rw [renumber_compound, addVars, addVars, addAllVars_renumber ρ args seen]

theorem addAllVars_renumber (ρ : ℕ ↪o ℕ) : ∀ (ts : List Term) (seen : List Var),
    addAllVars (seen.map (·.renumber ρ)) (ts.map (renumber ρ)) =
      (addAllVars seen ts).map (·.renumber ρ)
  | [], _ => rfl
  | t :: ts, seen => by
      rw [List.map_cons, addAllVars, addAllVars, addVars_renumber ρ t seen,
        addAllVars_renumber ρ ts]

end

theorem vars_renumber (t : Term) : (t.renumber ρ).vars = t.vars.map (·.renumber ρ) :=
  addVars_renumber ρ t []

end Term

theorem varsOf_renumber (ρ : ℕ ↪o ℕ) (ts : List Term) :
    varsOf (ts.map (·.renumber ρ)) = (varsOf ts).map (·.renumber ρ) :=
  Term.addAllVars_renumber ρ ts []

/-! ## Sets of terms -/

namespace TermSet

/-- The members are the same terms over variables under other numbers. -/
def Renumbers (ρ : ℕ → ℕ) (set other : TermSet) : Prop :=
  other.toList = set.toList.map (·.renumber ρ)

variable {ρ : ℕ ↪o ℕ} {set other more moreOther : TermSet}

theorem pairwise_toList (set : TermSet) :
    set.toList.Pairwise fun a b => a.compare b = .lt := set.items.ordered_toList

/-- A set is told by its members. -/
theorem renumbers_iff : set.Renumbers ρ other ↔
    ∀ t, other.contains t = true ↔ ∃ u, set.contains u = true ∧ u.renumber ρ = t := by
  unfold Renumbers
  constructor
  · intro listed t
    rw [← mem_toList, listed, List.mem_map]
    simp
  · intro members
    refine List.Perm.eq_of_pairwise ?_ other.pairwise_toList ?_ ?_
    · intro a b _ _ less greater
      rw [Term.compare_swap, greater] at less
      contradiction
    · rw [List.pairwise_map]
      exact set.pairwise_toList.imp fun {a b} less => (Term.compare_renumber ρ a b).trans less
    · rw [List.perm_ext_iff_of_nodup other.nodup_toList
        (List.Nodup.map (Term.renumber_injective ρ) set.nodup_toList)]
      intro t
      rw [mem_toList, members, List.mem_map]
      simp

namespace Renumbers

variable (renumbers : set.Renumbers ρ other)
include renumbers

theorem contains (t : Term) : other.contains (t.renumber ρ) = set.contains t := by
  rw [Bool.eq_iff_iff, renumbers_iff.mp renumbers]
  simp

theorem size_eq : other.size = set.size := by
  rw [← length_toList, renumbers, List.length_map, length_toList]

theorem isEmpty_eq : other.isEmpty = set.isEmpty := by
  have empty : ∀ set : TermSet, set.isEmpty = set.toList.isEmpty :=
    fun set => Std.TreeSet.isEmpty_toList.symm
  rw [empty, empty, renumbers, List.isEmpty_map]

theorem filter {keep keepOther : Term → Bool} (same : ∀ t, keepOther (t.renumber ρ) = keep t) :
    (set.filter keep).Renumbers ρ (other.filter keepOther) := by
  rw [renumbers_iff]
  intro t
  rw [contains_filter, renumbers_iff.mp renumbers]
  constructor
  · rintro ⟨⟨u, member, rfl⟩, kept⟩
    exact ⟨u, contains_filter.mpr ⟨member, (same u).symm.trans kept⟩, rfl⟩
  · rintro ⟨u, member, rfl⟩
    rw [contains_filter] at member
    exact ⟨⟨u, member.1, rfl⟩, (same u).trans member.2⟩

theorem inter (others : more.Renumbers ρ moreOther) :
    (set.inter more).Renumbers ρ (other.inter moreOther) := renumbers.filter others.contains

theorem map {f g : Term → Term} (same : ∀ t, g (t.renumber ρ) = (f t).renumber ρ) :
    (set.map f).Renumbers ρ (other.map g) := by
  rw [renumbers_iff]
  intro t
  simp only [contains_map, renumbers_iff.mp renumbers]
  constructor
  · rintro ⟨_, ⟨u, member, rfl⟩, rfl⟩
    exact ⟨f u, ⟨u, member, rfl⟩, (same u).symm⟩
  · rintro ⟨_, ⟨u, member, rfl⟩, rfl⟩
    exact ⟨u.renumber ρ, ⟨u, member, rfl⟩, same u⟩

end Renumbers

theorem Renumbers.symm {ρ τ : ℕ → ℕ} (inverse : ∀ ordinal, τ (ρ ordinal) = ordinal)
    (renumbers : set.Renumbers ρ other) : other.Renumbers τ set := by
  unfold Renumbers at renumbers ⊢
  rw [renumbers, Term.map_renumber_cancel inverse]

theorem ofList_renumbers (ρ : ℕ ↪o ℕ) (terms : List Term) :
    (ofList terms).Renumbers ρ (ofList (terms.map (·.renumber ρ))) := by
  rw [renumbers_iff]
  intro t
  simp

/-- A set whose members the renumbering leaves alone. -/
theorem renumbers_self {ρ : ℕ → ℕ} (fixed : ∀ t, set.contains t = true → t.renumber ρ = t) :
    set.Renumbers ρ set := by
  have same : set.toList.map (·.renumber ρ) = set.toList.map id :=
    List.map_congr_left fun t member => fixed t (mem_toList.mp member)
  rw [Renumbers, same, List.map_id]

end TermSet

end RelationalSolver
