import RelationalSolver.Proofs.Context.Filling
import RelationalSolver.Proofs.Goal.Counting

/-!
# Independent goals have as many answers as their bounds say

An estimate multiplies and adds numbers of rows.  A goal has at least as many answers if what
it multiplies does not interact: the arguments of a relation are ground or unbound variables of
their own, and the goals of a conjunction share no unbound variable.  Filling in the variables
of one goal leaves the others as they are.
-/

namespace RelationalSolver

open Substitution

variable {s next : Substitution} {vs : List Var}

/-! ## Bounds that are attained -/

namespace SizeBound

variable {a b : SizeBound} {m n : Nat}

/-- The number comes up to the bound, if it is exact and not saturated. -/
def Attained (bound : SizeBound) (number : Nat) : Prop :=
  ∀ count, bound = .exact count → count < ceiling → count ≤ number

theorem attained_exact (m : Nat) : (exact m).Attained m := by
  rintro _ ⟨⟩ _
  exact le_rfl

theorem attained_zero (m : Nat) : (exact 0).Attained m := by
  rintro _ ⟨⟩ _
  exact Nat.zero_le m

theorem attained_of_inexact (inexact : a.isExact = false) (m : Nat) : a.Attained m := by
  rintro count rfl _
  cases inexact

/-- An exact product is zero, or what saturating leaves of the product of exact bounds. -/
theorem times_eq_exact {count : Nat} (same : a.times b = .exact count) :
    count = 0 ∨ ∃ i j, a = .exact i ∧ b = .exact j ∧ 0 < i ∧ 0 < j ∧ count = saturate (i * j) := by
  rw [times.eq_def] at same
  split at same
  · cases same
    exact .inl rfl
  · rename_i nonzero
    rw [Bool.or_eq_true, not_or] at nonzero
    cases a with
    | exact i =>
        cases b with
        | exact j =>
            cases same
            exact .inr ⟨i, j, rfl, rfl, upper_eq_some_pos nonzero.1 rfl,
              upper_eq_some_pos nonzero.2 rfl, rfl⟩
        | _ => cases same
    | _ => cases b <;> cases same

theorem plus_eq_exact {count : Nat} (same : a.plus b = .exact count) :
    ∃ i j, a = .exact i ∧ b = .exact j ∧ count = saturate (i + j) := by
  cases a with
  | exact i =>
      cases b with
      | exact j =>
          cases same
          exact ⟨i, j, rfl, rfl, rfl⟩
      | _ => cases same
  | _ => cases b <;> cases same

theorem Attained.times (left : a.Attained m) (right : b.Attained n) :
    (a.times b).Attained (m * n) := by
  intro count same below
  rcases times_eq_exact same with rfl | ⟨i, j, rfl, rfl, posLeft, posRight, rfl⟩
  · exact Nat.zero_le _
  · obtain ⟨exactly, below⟩ := saturate_lt below
    rw [exactly]
    have belowLeft : i < ceiling := (Nat.le_mul_of_pos_right i posRight).trans_lt below
    have belowRight : j < ceiling := (Nat.le_mul_of_pos_left j posLeft).trans_lt below
    exact Nat.mul_le_mul (left i rfl belowLeft) (right j rfl belowRight)

theorem Attained.plus (left : a.Attained m) (right : b.Attained n) :
    (a.plus b).Attained (m + n) := by
  intro count same below
  obtain ⟨i, j, rfl, rfl, rfl⟩ := plus_eq_exact same
  obtain ⟨exactly, below⟩ := saturate_lt below
  rw [exactly]
  exact Nat.add_le_add (left i rfl (by omega)) (right j rfl (by omega))

end SizeBound

namespace Goal

/-! ## Unbound variables and numbers of rows -/

mutual

/-- The unbound variables that the relations of a goal are applied to, outside of suspended
parts. -/
def openVars (s : Substitution) : Goal → List Var
  | .relation a => s.openVars a.args
  | .conj goals _ => openVarsAll s goals
  | .disj goals _ => openVarsAll s goals
  | _ => []

/-- The unbound variables of several goals. -/
def openVarsAll (s : Substitution) : List Goal → List Var
  | [] => []
  | g :: gs => g.openVars s ++ openVarsAll s gs

end

mutual

/-- Relations are applied to ground terms and to unbound variables of their own, and the goals
of a conjunction share no unbound variable.  No constraint is attached. -/
def Independent (s : Substitution) : Goal → Prop
  | .relation a => a.args.length = a.relation.arity ∧ (∀ t ∈ a.args, s.Direct t) ∧
      (s.openVars a.args).Nodup
  | .conj goals constraints => constraints = [] ∧ AllIndependent s goals ∧
      goals.Pairwise fun g h => (g.openVars s).Disjoint (h.openVars s)
  | .disj goals constraints => constraints = [] ∧ AllIndependent s goals
  | _ => True

/-- Each goal is independent for itself. -/
def AllIndependent (s : Substitution) : List Goal → Prop
  | [] => True
  | g :: gs => g.Independent s ∧ AllIndependent s gs

end

mutual

/-- How many answers a goal has at least, if it is independent. -/
def least (s : Substitution) : Goal → Nat
  | .succeed => 1
  | .conj goals _ => (leasts s goals).prod
  | .disj goals _ => (leasts s goals).sum
  | .relation a =>
      match a.relation.source.rows (a.pattern s) with
      | .listed rows => rows.length
      | .endless _ _ => 0
  | _ => 0

/-- The numbers of several goals. -/
def leasts (s : Substitution) : List Goal → List Nat
  | [] => []
  | g :: gs => g.least s :: leasts s gs

end

@[simp] theorem openVarsAll_eq (goals : List Goal) :
    openVarsAll s goals = goals.flatMap (openVars s) := by
  induction goals with
  | nil => rfl
  | cons g goals ih => rw [openVarsAll, ih, List.flatMap_cons]

@[simp] theorem allIndependent_iff {goals : List Goal} :
    AllIndependent s goals ↔ ∀ g ∈ goals, g.Independent s := by
  induction goals with
  | nil => simp [AllIndependent]
  | cons g goals ih => simp [AllIndependent, ih]

@[simp] theorem leasts_eq (goals : List Goal) : leasts s goals = goals.map (least s) := by
  induction goals with
  | nil => rfl
  | cons g goals ih => rw [leasts, ih, List.map_cons]

theorem least_conj (goals : List Goal) (constraints : List Constraint) :
    (Goal.conj goals constraints).least s = (goals.map (least s)).prod := by
  rw [least, leasts_eq]

theorem least_disj (goals : List Goal) (constraints : List Constraint) :
    (Goal.disj goals constraints).least s = (goals.map (least s)).sum := by
  rw [least, leasts_eq]

theorem least_relation {a : Application} {facts : FactTable}
    (source : a.relation.source = .table facts) :
    (Goal.relation a).least s = (facts.matching (a.pattern s)).length := by
  rw [least, source, FactSource.rows_table]

mutual

/-- The number of answers comes up to the bound of a plain goal. -/
theorem attained_bound : ∀ (g : Goal) (b : SizeBound), g.Plain → g.bound s = .ok b →
    b.Attained (g.least s)
  | .succeed, _, _, bounded => by
      cases bounded
      exact SizeBound.attained_exact 1
  | .fail, _, _, bounded => by
      cases bounded
      exact SizeBound.attained_exact 0
  | .equal x y, b, _, bounded => by
      rw [bound] at bounded
      cases attempt : s.unify .disabled x y with
      | error e =>
          rw [attempt] at bounded
          cases bounded
      | ok result =>
          rw [attempt] at bounded
          cases result with
          | none =>
              cases bounded
              exact SizeBound.attained_zero _
          | some next =>
              cases bounded
              exact SizeBound.attained_of_inexact rfl _
  | .conj goals _, b, plain, bounded => by
      rw [bound] at bounded
      rw [least]
      cases each : bounds s goals with
      | error e =>
          rw [each] at bounded
          cases bounded
      | ok list =>
          rw [each] at bounded
          cases bounded
          exact SizeBound.product_related (SizeBound.attained_exact 1) SizeBound.Attained.times
            (attained_bounds goals list plain each)
  | .disj goals _, b, plain, bounded => by
      rw [bound] at bounded
      rw [least]
      cases each : bounds s goals with
      | error e =>
          rw [each] at bounded
          cases bounded
      | ok list =>
          rw [each] at bounded
          cases bounded
          exact SizeBound.sum_related (SizeBound.attained_exact 0) SizeBound.Attained.plus
            (attained_bounds goals list plain each)
  | .relation a, b, plain, bounded => by
      cases bounded
      rcases plain.1 with ⟨facts, _, _, source, _⟩
      rw [least_relation source, Application.bound, source]
      exact SizeBound.attained_exact _
  | .constrain _, _, _, bounded => by
      cases bounded
      exact SizeBound.attained_of_inexact rfl _
  | .fresh _ _, _, _, bounded => by
      cases bounded
      exact SizeBound.attained_of_inexact rfl _
  | .delay _, _, _, bounded => by
      cases bounded
      exact SizeBound.attained_of_inexact rfl _
  | .call _ _, _, _, bounded => by
      cases bounded
      exact SizeBound.attained_of_inexact rfl _
  | .abort _, _, _, bounded => by
      cases bounded
      exact SizeBound.attained_of_inexact rfl _
  | .yieldThenAbort _, _, _, bounded => by
      cases bounded
      exact SizeBound.attained_of_inexact rfl _

/-- The bounds of several goals are attained one by one. -/
theorem attained_bounds : ∀ (goals : List Goal) (list : List SizeBound),
    AllPlain goals → bounds s goals = .ok list →
      List.Forall₂ SizeBound.Attained list (leasts s goals)
  | [], _, _, bounded => by
      cases bounded
      exact .nil
  | g :: goals, list, plain, bounded => by
      rw [bounds] at bounded
      cases first : bound s g with
      | error e =>
          rw [first] at bounded
          cases bounded
      | ok b =>
          rw [first] at bounded
          cases rest : bounds s goals with
          | error e =>
              rw [rest] at bounded
              cases bounded
          | ok later =>
              rw [rest] at bounded
              cases bounded
              exact .cons (attained_bound g b plain.1 first)
                (attained_bounds goals later plain.2 rest)

end

end Goal

/-! ## Goals out of the way -/

namespace Substitution.Frames

variable {g : Goal} {goals : List Goal}

/-- The pattern of a relation does not depend on variables that it is not applied to. -/
theorem pattern_eq (frames : s.Frames vs next) {a : Application}
    (direct : ∀ t ∈ a.args, s.Direct t) (apart : (s.openVars a.args).Disjoint vs) :
    a.pattern next = a.pattern s := by
  apply List.map_congr_left
  intro t member
  have kept := (frames.direct (direct t member) fun v same =>
    apart (List.mem_filterMap.mpr ⟨t, member, same⟩)).2.2
  by_cases ground : (s.resolve t).isGround = true
  · simp only [frames.keeps t ground]
  · simp only [kept, ground, Bool.false_eq_true, if_false]

/-- What independent goals are about does not change with variables of others. -/
structure Spares (s next : Substitution) (g : Goal) : Prop where
  openVars : g.openVars next = g.openVars s
  independent : g.Independent next
  least : g.least next = g.least s

theorem pairwise_disjoint (spares : ∀ g ∈ goals, Spares s next g)
    (apart : goals.Pairwise fun g h => (g.openVars s).Disjoint (h.openVars s)) :
    goals.Pairwise fun g h => (g.openVars next).Disjoint (h.openVars next) := by
  apply apart.imp_of_mem
  intro g h first second disjoint
  rw [(spares g first).openVars, (spares h second).openVars]
  exact disjoint

theorem Spares.all (spares : ∀ g ∈ goals, Spares s next g) :
    Goal.openVarsAll next goals = Goal.openVarsAll s goals ∧ Goal.AllIndependent next goals ∧
      Goal.leasts next goals = Goal.leasts s goals := by
  simp only [Goal.openVarsAll_eq, Goal.allIndependent_iff, Goal.leasts_eq]
  refine ⟨List.flatMap_congr fun g member => (spares g member).openVars,
    fun g member => (spares g member).independent,
    List.map_congr_left fun g member => (spares g member).least⟩

mutual

theorem spares (frames : s.Frames vs next) : ∀ g : Goal, g.Independent s →
    (g.openVars s).Disjoint vs → Spares s next g
  | .relation a, ⟨full, direct, different⟩, apart => by
      have same : next.openVars a.args = s.openVars a.args := frames.openVars_eq direct apart
      refine ⟨same, ⟨full, fun t member => ?_, same ▸ different⟩, ?_⟩
      · exact (frames.direct (direct t member) fun v walks =>
          apart (List.mem_filterMap.mpr ⟨t, member, walks⟩)).1
      · rw [Goal.least, Goal.least, frames.pattern_eq direct apart]
  | .conj goals constraints, ⟨bare, independent, disjoint⟩, apart => by
      have each := sparesAll frames goals independent apart
      have further := Spares.all each
      refine ⟨further.1, ⟨bare, further.2.1, pairwise_disjoint each disjoint⟩, ?_⟩
      rw [Goal.least, Goal.least, further.2.2]
  | .disj goals constraints, ⟨bare, independent⟩, apart => by
      have further := Spares.all (sparesAll frames goals independent apart)
      refine ⟨further.1, ⟨bare, further.2.1⟩, ?_⟩
      rw [Goal.least, Goal.least, further.2.2]
  | .succeed, _, _ => ⟨rfl, trivial, rfl⟩
  | .fail, _, _ => ⟨rfl, trivial, rfl⟩
  | .equal _ _, _, _ => ⟨rfl, trivial, rfl⟩
  | .constrain _, _, _ => ⟨rfl, trivial, rfl⟩
  | .fresh _ _, _, _ => ⟨rfl, trivial, rfl⟩
  | .delay _, _, _ => ⟨rfl, trivial, rfl⟩
  | .call _ _, _, _ => ⟨rfl, trivial, rfl⟩
  | .abort _, _, _ => ⟨rfl, trivial, rfl⟩
  | .yieldThenAbort _, _, _ => ⟨rfl, trivial, rfl⟩

theorem sparesAll (frames : s.Frames vs next) : ∀ goals : List Goal,
    Goal.AllIndependent s goals → (Goal.openVarsAll s goals).Disjoint vs →
      ∀ g ∈ goals, Spares s next g
  | [], _, _ => nofun
  | g :: goals, independent, apart => by
      rw [Goal.openVarsAll, List.disjoint_append_left] at apart
      exact List.forall_mem_cons.mpr
        ⟨spares frames g independent.1 apart.1, sparesAll frames goals independent.2 apart.2⟩

end

end Substitution.Frames

end RelationalSolver
