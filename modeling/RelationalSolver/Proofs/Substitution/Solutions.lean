import Mathlib.Data.Set.Function
import RelationalSolver.Proofs.Substitution.Acyclic

/-!
# Solutions of substitutions

A solution assigns a term to every variable such that every binding holds.  The
bindings of an acyclic substitution are known through its solutions: resolving
gives the most general one, and every other one is an instance of it.
-/

namespace RelationalSolver

/-- The assignments that make two terms equal. -/
def unifiers (a b : Term) : Set Assignment := {θ | a.mapVars θ = b.mapVars θ}

theorem unifiers_comm (a b : Term) : unifiers a b = unifiers b a :=
  Set.ext fun _ => eq_comm

@[simp] theorem unifiers_self (a : Term) : unifiers a a = Set.univ :=
  Set.eq_univ_of_forall fun _ => rfl

namespace Substitution

variable {s next : Substitution} {v w : Var} {t : Term} {θ : Assignment}

/-- The assignments under which every binding holds. -/
def solutions (s : Substitution) : Set Assignment :=
  {θ | ∀ v t, s.lookup v = some t → θ v = t.mapVars θ}

@[simp] theorem solutions_empty : empty.solutions = Set.univ := by
  apply Set.eq_univ_of_forall
  intro θ v t bound
  simp at bound

theorem solutions_subset_of_extends (extended : next.Extends s) :
    next.solutions ⊆ s.solutions :=
  fun _ solves v t bound => solves v t (extended v t bound)

theorem solutions_insert (unbound : s.lookup v = none) :
    (s.insert v t).solutions = s.solutions ∩ unifiers (.var v) t := by
  apply Set.Subset.antisymm
  · intro θ solves
    refine ⟨solutions_subset_of_extends (extends_insert t unbound) solves, ?_⟩
    exact solves v t (by simp [lookup_insert])
  · rintro θ ⟨solves, equal⟩ w u bound
    rw [lookup_insert] at bound
    split at bound
    · rename_i same
      cases bound
      exact same ▸ equal
    · exact solves w u bound

theorem mapVars_walkWithin (solves : θ ∈ s.solutions) :
    ∀ (steps : Nat) (t : Term), (s.walkWithin steps t).mapVars θ = t.mapVars θ := by
  intro steps
  induction steps with
  | zero =>
      intro t
      cases t <;> rfl
  | succ steps ih =>
      intro t
      cases t with
      | atom a => simp
      | compound f args => simp
      | var v =>
          rw [walkWithin]
          cases bound : s.lookup v with
          | none => rfl
          | some u => exact (ih u).trans (solves v u bound).symm

/-- Walking does not change the value of a term. -/
theorem mapVars_walk (solves : θ ∈ s.solutions) (t : Term) :
    (s.walk t).mapVars θ = t.mapVars θ := mapVars_walkWithin solves _ t

/-! ## Resolving -/

theorem expand_of_unbound {expanding : List Var} (unbound : s.lookup v = none) (budget : Nat) :
    s.expand budget expanding v = .var v := by
  rw [expand.eq_def]
  simp [unbound]

theorem expand_of_bound {expanding : List Var} (absent : v ∉ expanding)
    (bound : s.lookup v = some t) (budget : Nat) :
    s.expand (budget + 1) expanding v = t.mapVars (s.expand budget (v :: expanding)) := by
  rw [expand.eq_def]
  simp [absent, bound]

/-- A budget and variables being expanded that do not cut the expansion of a
variable short. -/
def Expandable (s : Substitution) (budget : Nat) (expanding : List Var) (v : Var) : Prop :=
  s.rank v ≤ budget ∧ ∀ u ∈ expanding, ¬ Relation.ReflTransGen s.Binds v u

theorem expandable_size (s : Substitution) (v : Var) : s.Expandable s.size [] v :=
  ⟨s.rank_le_size v, by simp⟩

theorem Expandable.absent {budget : Nat} {expanding : List Var}
    (expandable : s.Expandable budget expanding v) : v ∉ expanding :=
  fun member => expandable.2 v member .refl

theorem Expandable.inside {budget : Nat} {expanding : List Var} (acyclic : s.Acyclic)
    (expandable : s.Expandable (budget + 1) expanding v) (binds : s.Binds v w) :
    s.Expandable budget (v :: expanding) w := by
  have falls := rank_lt acyclic binds
  refine ⟨by have := expandable.1; omega, ?_⟩
  intro u member path
  rcases List.mem_cons.mp member with rfl | member
  · exact acyclic u (Relation.TransGen.head' binds path)
  · exact expandable.2 u member (path.head binds)

private theorem expand_congr (acyclic : s.Acyclic) : ∀ {v : Var} {budget otherBudget : Nat}
    {expanding others : List Var}, s.Expandable budget expanding v →
    s.Expandable otherBudget others v →
    s.expand budget expanding v = s.expand otherBudget others v := by
  intro v
  induction v using acyclic.induction with
  | step v ih =>
      intro budget otherBudget expanding others expandable otherExpandable
      cases bound : s.lookup v with
      | none => rw [expand_of_unbound bound, expand_of_unbound bound]
      | some t =>
          have positive := rank_pos bound
          cases budget with
          | zero => exact absurd expandable.1 (by omega)
          | succ budget =>
              cases otherBudget with
              | zero => exact absurd otherExpandable.1 (by omega)
              | succ otherBudget =>
                  rw [expand_of_bound expandable.absent bound,
                    expand_of_bound otherExpandable.absent bound]
                  apply Term.mapVars_congr
                  intro w inside
                  have binds : s.Binds v w := ⟨t, bound, inside⟩
                  exact ih t bound w inside (expandable.inside acyclic binds)
                    (otherExpandable.inside acyclic binds)

/-- In an acyclic substitution a larger budget resolves nothing more. -/
theorem mapVars_expand (acyclic : s.Acyclic) {budget : Nat} (enough : s.size ≤ budget) (t : Term) :
    t.mapVars (s.expand budget []) = s.resolve t := by
  apply Term.mapVars_congr
  intro v _
  have whole := s.expandable_size v
  exact expand_congr acyclic ⟨Nat.le_trans whole.1 enough, whole.2⟩ whole

@[simp] theorem resolve_atom (s : Substitution) (a : Atom) : s.resolve (.atom a) = .atom a := rfl

@[simp] theorem resolve_compound (s : Substitution) (f : String) (args : List Term) :
    s.resolve (.compound f args) = .compound f (args.map s.resolve) :=
  Term.mapVars_compound _ f args

theorem resolve_of_unbound (unbound : s.lookup v = none) : s.resolve (.var v) = .var v :=
  expand_of_unbound unbound _

theorem resolve_of_bound (acyclic : s.Acyclic) (bound : s.lookup v = some t) :
    s.resolve (.var v) = s.resolve t := by
  have whole := s.expandable_size v
  cases enough : s.size with
  | zero => exact absurd (rank_pos bound) (by have := whole.1; omega)
  | succ budget =>
      rw [resolve, Term.mapVars_var, enough, expand_of_bound (by simp) bound]
      apply Term.mapVars_congr
      intro w inside
      rw [enough] at whole
      exact expand_congr acyclic (whole.inside acyclic ⟨t, bound, inside⟩)
        (s.expandable_size w)

/-- What every variable resolves to, as an assignment. -/
def resolution (s : Substitution) : Assignment := fun v => s.resolve (.var v)

@[simp] theorem mapVars_resolution (s : Substitution) (t : Term) :
    t.mapVars s.resolution = s.resolve t := rfl

/-- Resolving makes every binding hold, and so does every instance of it. -/
theorem mapVars_resolution_mem (acyclic : s.Acyclic) (θ : Assignment) :
    (fun v => (s.resolve (.var v)).mapVars θ) ∈ s.solutions := by
  intro v t bound
  change (s.resolve (.var v)).mapVars θ = _
  rw [resolve_of_bound acyclic bound, ← mapVars_resolution, Term.mapVars_mapVars]
  rfl

theorem resolution_mem (acyclic : s.Acyclic) : s.resolution ∈ s.solutions := by
  have instanceOf := mapVars_resolution_mem acyclic .var
  simp only [Term.mapVars_id] at instanceOf
  exact instanceOf

theorem mapVars_resolve (acyclic : s.Acyclic) (solves : θ ∈ s.solutions) (t : Term) :
    (s.resolve t).mapVars θ = t.mapVars θ := by
  have onVars : ∀ v, (s.resolve (.var v)).mapVars θ = θ v := by
    intro v
    induction v using acyclic.induction with
    | step v ih =>
        cases bound : s.lookup v with
        | none => rw [resolve_of_unbound bound, Term.mapVars_var]
        | some t =>
            rw [resolve_of_bound acyclic bound, ← mapVars_resolution, Term.mapVars_mapVars,
              solves v t bound]
            exact Term.mapVars_congr fun w inside => ih t bound w inside
  rw [← mapVars_resolution, Term.mapVars_mapVars]
  exact Term.mapVars_congr fun v _ => onVars v

theorem resolve_walk (acyclic : s.Acyclic) (t : Term) : s.resolve (s.walk t) = s.resolve t :=
  mapVars_walk (resolution_mem acyclic) t

/-- The variables left by resolving are the unbound ones that the term reaches. -/
theorem mentions_resolve (acyclic : s.Acyclic) :
    (s.resolve t).mentions w = true ↔ s.Reaches t w ∧ s.lookup w = none := by
  have onVars : ∀ v, (s.resolve (.var v)).mentions w = true ↔
      Relation.ReflTransGen s.Binds v w ∧ s.lookup w = none := by
    intro v
    induction v using acyclic.induction with
    | step v ih =>
        cases bound : s.lookup v with
        | none =>
            rw [resolve_of_unbound bound, Term.mentions_var]
            constructor
            · rintro rfl
              exact ⟨.refl, bound⟩
            · rintro ⟨path, _⟩
              rcases Relation.ReflTransGen.cases_head path with same | ⟨_, ⟨_, other, _⟩, _⟩
              · exact same
              · rw [bound] at other
                contradiction
        | some t =>
            rw [resolve_of_bound acyclic bound, ← mapVars_resolution, Term.mentions_mapVars]
            constructor
            · rintro ⟨x, inside, left⟩
              obtain ⟨path, unbound⟩ := (ih t bound x inside).mp left
              exact ⟨path.head ⟨t, bound, inside⟩, unbound⟩
            · rintro ⟨path, unbound⟩
              rcases Relation.ReflTransGen.cases_head path with rfl | ⟨x, ⟨u, other, inside⟩, path⟩
              · rw [bound] at unbound
                contradiction
              · rw [bound] at other
                cases other
                exact ⟨x, inside, (ih t bound x inside).mpr ⟨path, unbound⟩⟩
  rw [← mapVars_resolution, Term.mentions_mapVars]
  constructor
  · rintro ⟨v, inside, left⟩
    obtain ⟨path, unbound⟩ := (onVars v).mp left
    exact ⟨⟨v, inside, path⟩, unbound⟩
  · rintro ⟨⟨v, inside, path⟩, unbound⟩
    exact ⟨v, inside, (onVars v).mpr ⟨path, unbound⟩⟩

theorem WildcardFree.resolve (plain : s.WildcardFree) (acyclic : s.Acyclic)
    (free : t.WildcardFree) : (s.resolve t).WildcardFree := by
  rw [Term.WildcardFree, ← Bool.not_eq_true, mentions_resolve acyclic]
  rintro ⟨⟨v, inside, path⟩, _⟩
  rcases Relation.ReflTransGen.cases_tail path with same | ⟨w, _, u, bound, within⟩
  · rw [Term.WildcardFree, same, inside] at free
    contradiction
  · rw [(plain w u bound).2] at within
    contradiction

/-- A variable that a compound reaches is never equal to the compound. -/
theorem disjoint_unifiers_of_mentions (acyclic : s.Acyclic) {f : String} {args : List Term}
    (inside : (s.resolve (.compound f args)).mentions v = true) :
    s.solutions ∩ unifiers (.var v) (.compound f args) = ∅ := by
  apply Set.eq_empty_of_forall_notMem
  rintro θ ⟨solves, equal⟩
  have value := mapVars_resolve acyclic solves (.compound f args)
  rw [resolve_compound] at inside value
  exact Term.mapVars_ne_of_mentions θ inside ((show θ v = _ from equal).trans value.symm)

/-! ## One more binding -/

theorem resolve_eq_of_extends (acyclic : s.Acyclic) (acyclicNext : next.Acyclic)
    (extended : next.Extends s) (t : Term) :
    next.resolve t = (s.resolve t).mapVars next.resolution :=
  (mapVars_resolve acyclic
    (solutions_subset_of_extends extended (resolution_mem acyclicNext)) t).symm

theorem resolution_insert_of_unbound (different : w ≠ v) (unbound : s.lookup w = none) :
    (s.insert v t).resolution w = .var w := by
  apply resolve_of_unbound
  rw [lookup_insert, if_neg (Ne.symm different), unbound]

/-- A new binding does not change terms that do not reach the variable. -/
theorem resolve_insert_of_not_mentions (acyclic : s.Acyclic)
    (acyclicNext : (s.insert v t).Acyclic) (unbound : s.lookup v = none) {u : Term}
    (apart : (s.resolve u).mentions v ≠ true) : (s.insert v t).resolve u = s.resolve u := by
  rw [resolve_eq_of_extends acyclic acyclicNext (extends_insert t unbound)]
  refine (Term.mapVars_congr ?_).trans (Term.mapVars_id _)
  intro w inside
  apply resolution_insert_of_unbound
  · rintro rfl
    exact apart inside
  · exact ((mentions_resolve acyclic).mp inside).2

/-- With a new binding a term reaches what it reached before and what the bound
term reaches. -/
theorem mentions_of_mentions_resolve_insert (acyclic : s.Acyclic)
    (acyclicNext : (s.insert v t).Acyclic) (unbound : s.lookup v = none) {u : Term}
    (inside : ((s.insert v t).resolve u).mentions w = true) :
    (s.resolve u).mentions w = true ∨ ((s.insert v t).resolve t).mentions w = true := by
  rw [resolve_eq_of_extends acyclic acyclicNext (extends_insert t unbound),
    Term.mentions_mapVars] at inside
  obtain ⟨x, within, reached⟩ := inside
  by_cases same : x = v
  · subst same
    right
    have bound : (s.insert x t).lookup x = some t := by simp [lookup_insert]
    rwa [resolution, resolve_of_bound acyclicNext bound] at reached
  · left
    rw [resolution_insert_of_unbound same ((mentions_resolve acyclic).mp within).2,
      Term.mentions_var] at reached
    exact reached ▸ within

end Substitution

/-! ## Answers up to renaming

Two lists of terms are variants if the variables of one can be renamed, apart from each
other, so that it becomes the other.  Terms that are instances of each other are variants.
Substitutions with the same solutions therefore resolve all terms to variants, however their
bindings were made.
-/

namespace Term

/-- The variables of the first list can be renamed, apart from each other, so that
it becomes the second. -/
def Variant (ts us : List Term) : Prop :=
  ∃ rename : Var → Var, Set.InjOn rename {v | ∃ t ∈ ts, t.mentions v = true} ∧
    us = ts.map (·.mapVars fun v => .var (rename v))

theorem eq_var_of_mapVars_eq_var {image : Assignment} {t : Term} {v : Var}
    (equal : t.mapVars image = .var v) : ∃ w, t = .var w := by
  cases t with
  | var w => exact ⟨w, rfl⟩
  | atom a => simp at equal
  | compound f args => simp at equal

/-- Lists that are instances of each other are variants. -/
theorem variant_of_instances {ts us : List Term} {there back : Assignment}
    (forward : us = ts.map (·.mapVars there)) (backward : ts = us.map (·.mapVars back)) :
    Variant ts us := by
  have undone : ∀ t ∈ ts, ∀ v, t.mentions v = true → (there v).mapVars back = .var v := by
    rw [forward, List.map_map] at backward
    intro t member v inside
    have same : (t.mapVars there).mapVars back = t.mapVars .var := by
      rw [mapVars_id]
      have each := List.map_inj_left.mp ((List.map_id ts).trans backward)
      exact (each t member).symm
    rw [mapVars_mapVars] at same
    exact eq_of_mapVars_eq same inside
  let rename : Var → Var := fun v => ((there v).asVar?).getD v
  have renamed : ∀ t ∈ ts, ∀ v, t.mentions v = true → there v = .var (rename v) := by
    intro t member v inside
    obtain ⟨w, image⟩ := eq_var_of_mapVars_eq_var (undone t member v inside)
    simp [rename, image, asVar?]
  refine ⟨rename, ?_, ?_⟩
  · rintro v ⟨t, member, inside⟩ w ⟨u, among, within⟩ same
    have first := undone t member v inside
    have second := undone u among w within
    rw [renamed t member v inside, same] at first
    rw [renamed u among w within, first] at second
    exact Term.var.inj second
  · rw [forward]
    apply List.map_congr_left
    intro t member
    exact mapVars_congr (renamed t member)

end Term

namespace Substitution

variable {s next : Substitution}

theorem resolve_instance (acyclic : s.Acyclic) (acyclicNext : next.Acyclic)
    (included : next.solutions ⊆ s.solutions) (ts : List Term) :
    ts.map next.resolve = (ts.map s.resolve).map (·.mapVars next.resolution) := by
  rw [List.map_map]
  apply List.map_congr_left
  intro t _
  exact (mapVars_resolve acyclic (included (resolution_mem acyclicNext)) t).symm

/-- Substitutions with the same solutions resolve terms alike, up to renaming. -/
theorem variant_of_solutions_eq (acyclic : s.Acyclic) (acyclicNext : next.Acyclic)
    (same : s.solutions = next.solutions) (ts : List Term) :
    Term.Variant (ts.map s.resolve) (ts.map next.resolve) :=
  Term.variant_of_instances (resolve_instance acyclic acyclicNext same.ge ts)
    (resolve_instance acyclicNext acyclic same.le ts)

end Substitution

end RelationalSolver
