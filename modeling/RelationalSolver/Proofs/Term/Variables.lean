import Mathlib.Algebra.Order.BigOperators.Group.List
import Mathlib.Algebra.Order.Ring.Nat
import RelationalSolver.Term.Basic

/-!
# Variables of terms under a map of variables

Facts about terms alone: induction over argument lists, which variables stand in
a term after its variables were mapped, and when two maps give the same term.
Nothing here follows bindings.
-/

namespace RelationalSolver

/-- A term for every variable. -/
abbrev Assignment := Var → Term

namespace Term

/-- Induction over terms, with the hypothesis for every argument of a compound. -/
theorem rec_args {motive : Term → Prop} (var : ∀ v, motive (.var v))
    (atom : ∀ a, motive (.atom a))
    (compound : ∀ f args, (∀ t ∈ args, motive t) → motive (.compound f args)) :
    ∀ t, motive t :=
  @Term.rec motive (fun args => ∀ t ∈ args, motive t) var atom compound (List.forall_mem_nil _)
    fun _ _ here there => List.forall_mem_cons.mpr ⟨here, there⟩

@[simp] theorem anyMentions_eq_true {v : Var} {ts : List Term} :
    anyMentions v ts = true ↔ ∃ t ∈ ts, t.mentions v = true := by
  induction ts with
  | nil => simp [anyMentions]
  | cons t ts ih => simp [anyMentions, ih]

@[simp] theorem allGround_eq_true {ts : List Term} :
    allGround ts = true ↔ ∀ t ∈ ts, t.isGround = true := by
  induction ts with
  | nil => simp [allGround]
  | cons t ts ih => simp [allGround, ih]

theorem sizes_eq_sum (ts : List Term) : sizes ts = (ts.map size).sum := by
  induction ts with
  | nil => rfl
  | cons t ts ih => simp [sizes, ih]

theorem sizes_append (ts us : List Term) : sizes (ts ++ us) = sizes ts + sizes us := by
  simp only [sizes_eq_sum, List.map_append, List.sum_append]

@[simp] theorem mentions_var {v w : Var} : (var w).mentions v = true ↔ w = v := by
  simp [mentions]

@[simp] theorem mentions_atom {v : Var} {a : Atom} : (atom a).mentions v = false := rfl

@[simp] theorem mentions_compound {v : Var} {f : String} {args : List Term} :
    (compound f args).mentions v = true ↔ ∃ t ∈ args, t.mentions v = true := by
  simp [mentions]

@[simp] theorem mapVars_var (image : Assignment) (v : Var) :
    (var v).mapVars image = image v := rfl

@[simp] theorem mapVars_atom (image : Assignment) (a : Atom) :
    (atom a).mapVars image = atom a := rfl

@[simp] theorem mapVars_compound (image : Assignment) (f : String) (args : List Term) :
    (compound f args).mapVars image = compound f (args.map (·.mapVars image)) := by
  simp [mapVars]

/-- Maps that agree on the variables of a term agree on the term. -/
theorem mapVars_congr {left right : Assignment} {t : Term}
    (agree : ∀ v, t.mentions v = true → left v = right v) :
    t.mapVars left = t.mapVars right := by
  induction t using rec_args with
  | var v => exact agree v (mentions_var.mpr rfl)
  | atom a => rfl
  | compound f args ih =>
      simp only [mapVars_compound, compound.injEq, true_and]
      apply List.map_congr_left
      intro t member
      exact ih t member fun v mentioned =>
        agree v (mentions_compound.mpr ⟨t, member, mentioned⟩)

/-- Only maps that agree on the variables of a term agree on the term. -/
theorem eq_of_mapVars_eq {left right : Assignment} {t : Term}
    (equal : t.mapVars left = t.mapVars right) {v : Var} (mentioned : t.mentions v = true) :
    left v = right v := by
  induction t using rec_args with
  | var w =>
      rw [mentions_var] at mentioned
      subst mentioned
      exact equal
  | atom a => simp at mentioned
  | compound f args ih =>
      rw [mentions_compound] at mentioned
      obtain ⟨t, member, mentioned⟩ := mentioned
      simp only [mapVars_compound, compound.injEq, true_and] at equal
      exact ih t member (List.map_inj_left.mp equal t member) mentioned

@[simp] theorem mapVars_id (t : Term) : t.mapVars .var = t := by
  induction t using rec_args with
  | var v => rfl
  | atom a => rfl
  | compound f args ih =>
      rw [mapVars_compound, List.map_congr_left ih, List.map_id']

theorem mapVars_mapVars (inner outer : Assignment) (t : Term) :
    (t.mapVars inner).mapVars outer = t.mapVars fun v => (inner v).mapVars outer := by
  induction t using rec_args with
  | var v => rfl
  | atom a => rfl
  | compound f args ih =>
      simp only [mapVars_compound, List.map_map, compound.injEq, true_and]
      exact List.map_congr_left ih

/-- The variables of a mapped term are those of the images of its variables. -/
theorem mentions_mapVars {image : Assignment} {t : Term} {w : Var} :
    (t.mapVars image).mentions w = true ↔
      ∃ v, t.mentions v = true ∧ (image v).mentions w = true := by
  induction t using rec_args with
  | var v => simp
  | atom a => simp
  | compound f args ih =>
      simp only [mapVars_compound, mentions_compound, List.mem_map]
      constructor
      · rintro ⟨_, ⟨t, member, rfl⟩, mentioned⟩
        obtain ⟨v, inside, inImage⟩ := (ih t member).mp mentioned
        exact ⟨v, ⟨t, member, inside⟩, inImage⟩
      · rintro ⟨v, ⟨t, member, inside⟩, inImage⟩
        exact ⟨_, ⟨t, member, rfl⟩, (ih t member).mpr ⟨v, inside, inImage⟩⟩

theorem size_lt_of_mem {f : String} {args : List Term} {t : Term} (member : t ∈ args) :
    t.size < (compound f args).size := by
  have bound : t.size ≤ (args.map size).sum :=
    List.single_le_sum (by simp) _ (List.mem_map_of_mem member)
  simp only [size, sizes_eq_sum]
  omega

/-- A variable of a term is not larger than the term under any map. -/
theorem size_le_of_mentions (image : Assignment) {t : Term} {v : Var}
    (mentioned : t.mentions v = true) : (image v).size ≤ (t.mapVars image).size := by
  induction t using rec_args with
  | var w =>
      rw [mentions_var] at mentioned
      subst mentioned
      exact Nat.le_refl _
  | atom a => simp at mentioned
  | compound f args ih =>
      rw [mentions_compound] at mentioned
      obtain ⟨t, member, mentioned⟩ := mentioned
      have inside : (t.mapVars image).size < ((compound f args).mapVars image).size := by
        rw [mapVars_compound]
        exact size_lt_of_mem (List.mem_map_of_mem member)
      exact Nat.le_of_lt (Nat.lt_of_le_of_lt (ih t member mentioned) inside)

/-- No map makes a variable equal to a compound that it stands in. -/
theorem mapVars_ne_of_mentions (image : Assignment) {f : String} {args : List Term} {v : Var}
    (mentioned : (compound f args).mentions v = true) :
    image v ≠ (compound f args).mapVars image := by
  intro equal
  rw [mentions_compound] at mentioned
  obtain ⟨t, member, mentioned⟩ := mentioned
  have inside := size_lt_of_mem (f := f) (List.mem_map_of_mem (f := (·.mapVars image)) member)
  have small := size_le_of_mentions image mentioned
  rw [equal, mapVars_compound] at small
  omega

theorem isGround_iff {t : Term} : t.isGround = true ↔ ∀ v, t.mentions v = false := by
  induction t using rec_args with
  | var v => simp [isGround, mentions]
  | atom a => simp [isGround]
  | compound f args ih =>
      simp only [isGround, allGround_eq_true, ← Bool.not_eq_true, mentions_compound, not_exists,
        not_and]
      constructor
      · intro ground v t member
        simpa using (ih t member).mp (ground t member) v
      · intro absent t member
        exact (ih t member).mpr fun v => by simpa using absent v t member

/-- A mapped term is ground if the images of its variables are. -/
theorem isGround_mapVars {image : Assignment} {t : Term} :
    (t.mapVars image).isGround = true ↔
      ∀ v, t.mentions v = true → (image v).isGround = true := by
  induction t using rec_args with
  | var v => simp
  | atom a => simp [isGround]
  | compound f args ih =>
      simp only [mapVars_compound, isGround, allGround_eq_true, List.forall_mem_map,
        mentions_compound, forall_exists_index, and_imp]
      constructor
      · intro ground v t member mentioned
        exact (ih t member).mp (ground t member) v mentioned
      · intro ground t member
        exact (ih t member).mpr fun v => ground v t member

mutual

/-- The variables added by a term are those that stand in it, the wildcard apart. -/
theorem mem_addVars {v : Var} : ∀ {t : Term} {seen : List Var},
    v ∈ t.addVars seen ↔ v ∈ seen ∨ (t.mentions v = true ∧ v ≠ .wildcard)
  | .var .wildcard, seen => by
      rw [addVars, mentions_var]
      constructor
      · exact Or.inl
      · rintro (member | ⟨rfl, different⟩)
        · exact member
        · exact absurd rfl different
  | .var (.numbered ordinal), seen => by
      rw [addVars, mem_appendNew, mentions_var]
      · grind
      · simp
  | .var (.named name), seen => by
      rw [addVars, mem_appendNew, mentions_var]
      · grind
      · simp
  | .atom a, seen => by simp [addVars]
  | .compound f args, seen => by
      rw [addVars, mem_addAllVars, mentions_compound]

/-- The variables added by an argument list are those that stand in some argument. -/
theorem mem_addAllVars {v : Var} : ∀ {ts : List Term} {seen : List Var},
    v ∈ addAllVars seen ts ↔
      v ∈ seen ∨ ((∃ t ∈ ts, t.mentions v = true) ∧ v ≠ .wildcard)
  | [], seen => by simp [addAllVars]
  | t :: ts, seen => by
      rw [addAllVars, mem_addAllVars, mem_addVars]
      simp only [List.mem_cons, exists_eq_or_imp]
      tauto

end

@[simp] theorem mem_vars {t : Term} {v : Var} :
    v ∈ t.vars ↔ t.mentions v = true ∧ v ≠ .wildcard := by
  simp [vars, mem_addVars]

/-- The wildcard does not stand in the term. -/
def WildcardFree (t : Term) : Prop := t.mentions .wildcard = false

instance (t : Term) : Decidable t.WildcardFree := inferInstanceAs (Decidable (_ = _))

theorem WildcardFree.arg {f : String} {args : List Term} {t : Term}
    (free : (compound f args).WildcardFree) (member : t ∈ args) : t.WildcardFree := by
  rw [WildcardFree, ← Bool.not_eq_true] at free ⊢
  exact fun mentioned => free (mentions_compound.mpr ⟨t, member, mentioned⟩)

end Term

@[simp] theorem mem_varsOf {ts : List Term} {v : Var} :
    v ∈ varsOf ts ↔ (∃ t ∈ ts, t.mentions v = true) ∧ v ≠ .wildcard := by
  simp [varsOf, Term.mem_addAllVars]

end RelationalSolver
