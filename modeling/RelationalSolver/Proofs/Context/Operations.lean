import RelationalSolver.Proofs.Context.Unification
import RelationalSolver.Proofs.Substitution.Solutions

/-!
# Equations and constraints in any order

Equations and constraints on wildcard-free terms are added to a context one after
the other.  Whether this succeeds, and what the variables resolve to, depends only
on which of them there are: the equations must have a common unifier, and each
constraint must hold under some of them.
-/

namespace RelationalSolver

open Substitution Constraint ConstraintStore

/-- What is added to a context: an equation or a constraint. -/
inductive Operation where
  | unify (left right : Term)
  | constrain (c : Constraint)

namespace Operation

variable {ctx : Context} {ops others : List Operation} {s : Substitution}

/-- The terms are free of wildcards, and domains are ground. -/
def Proper : Operation → Prop
  | .unify a b => a.WildcardFree ∧ b.WildcardFree
  | .constrain c => c.Proper

/-- Add the equation or the constraint to a context. -/
def run (ctx : Context) : Operation → Engine (Option Context)
  | .unify a b => ctx.unify a b
  | .constrain c => ctx.constrain c

/-- Add one after the other, until one fails. -/
def runAll (ctx : Context) : List Operation → Engine (Option Context)
  | [] => pure (some ctx)
  | op :: ops => do
      match ← op.run ctx with
      | some next => runAll next ops
      | none => pure none

theorem runAll_append (ctx : Context) (ops others : List Operation) :
    runAll ctx (ops ++ others) =
      runAll ctx ops >>= fun result => result.elim (pure none) (runAll · others) := by
  induction ops generalizing ctx with
  | nil => rw [List.nil_append, runAll, pure_bind, Option.elim_some]
  | cons op ops ih =>
      rw [List.cons_append, runAll, runAll, bind_assoc]
      congr
      funext result
      cases result with
      | none => rw [pure_bind, Option.elim_none]
      | some next => exact ih next

/-- The assignments that satisfy all equations. -/
def commonUnifiers (ops : List Operation) : Set Assignment :=
  {θ | ∀ a b, .unify a b ∈ ops → a.mapVars θ = b.mapVars θ}

/-- Every constraint permits the set. -/
def PermitAll (ops : List Operation) (Θ : Set Assignment) : Prop :=
  ∀ c, .constrain c ∈ ops → c.Permits Θ

/-- The bindings hold under the common unifiers of all equations and no others. -/
structure MostGeneral (ops : List Operation) (s : Substitution) : Prop where
  acyclic : s.Acyclic
  plain : s.WildcardFree
  solutions : s.solutions = commonUnifiers ops

@[simp] theorem commonUnifiers_nil : commonUnifiers [] = Set.univ :=
  Set.eq_univ_of_forall fun _ _ _ member => absurd member List.not_mem_nil

theorem commonUnifiers_unify (a b : Term) (ops : List Operation) :
    commonUnifiers (.unify a b :: ops) = unifiers a b ∩ commonUnifiers ops := by
  ext θ
  constructor
  · intro solves
    exact ⟨solves a b (List.mem_cons_self ..),
      fun c d member => solves c d (List.mem_cons_of_mem _ member)⟩
  · intro both c d member
    rcases List.mem_cons.mp member with same | later
    · cases same
      exact both.1
    · exact both.2 c d later

theorem commonUnifiers_constrain (c : Constraint) (ops : List Operation) :
    commonUnifiers (.constrain c :: ops) = commonUnifiers ops := by
  ext θ
  simp [commonUnifiers]

theorem commonUnifiers_of_perm (permuted : others.Perm ops) :
    commonUnifiers others = commonUnifiers ops := by
  ext θ
  simp only [commonUnifiers, Set.mem_ofPred_eq, permuted.mem_iff]

theorem permitAll_of_perm (permuted : others.Perm ops) (Θ : Set Assignment) :
    PermitAll others Θ ↔ PermitAll ops Θ := by
  simp only [PermitAll, permuted.mem_iff]

/-! ## Runs -/

/-- What adding equations and constraints to a context ends in. -/
def Added (ctx : Context) (ops : List Operation) : Option Context → Prop
  | some next =>
      next.Orderly Constraint.Proper ∧
      next.substitution.solutions = ctx.substitution.solutions ∩ commonUnifiers ops ∧
      ∀ Θ, (Context.reading Constraint.Proper).Admits next Θ →
        (Context.reading Constraint.Proper).Admits ctx Θ ∧ PermitAll ops Θ
  | none => ∀ Θ ⊆ commonUnifiers ops,
      (Context.reading Constraint.Proper).Spares ctx Θ → ¬ PermitAll ops Θ

theorem runAll_settles (orderly : ctx.Orderly Constraint.Proper)
    (proper : ∀ op ∈ ops, op.Proper) : Settles False (runAll ctx ops) (Added ctx ops) := by
  induction ops generalizing ctx with
  | nil =>
      apply Settles.pure
      refine ⟨orderly, by simp, ?_⟩
      exact fun Θ admitted => ⟨admitted, fun c member => absurd member List.not_mem_nil⟩
  | cons op ops ih =>
      have properLater : ∀ later ∈ ops, later.Proper :=
        fun later member => proper later (List.mem_cons_of_mem op member)
      cases op with
      | unify a b =>
          have free : a.WildcardFree ∧ b.WildcardFree := proper _ (List.mem_cons_self ..)
          apply (Context.unify_settles family_proper orderly free.1 free.2).bind
          intro result restricted
          cases result with
          | none =>
              apply Settles.pure
              intro Θ within spared _
              rw [commonUnifiers_unify, Set.subset_inter_iff] at within
              exact restricted Θ within.1 spared
          | some next =>
              rcases restricted with ⟨orderlyNext, solved, spares, admits⟩
              apply (ih orderlyNext properLater).mono
              intro result added
              cases result with
              | none =>
                  intro Θ within spared permitted
                  rw [commonUnifiers_unify, Set.subset_inter_iff] at within
                  apply added Θ within.2 (spares Θ within.1 spared)
                  exact fun c member => permitted c (List.mem_cons_of_mem _ member)
              | some last =>
                  rcases added with ⟨orderlyLast, solvedLast, admitsLast⟩
                  refine ⟨orderlyLast, ?_, ?_⟩
                  · rw [solvedLast, solved, commonUnifiers_unify, Set.inter_assoc]
                  · intro Θ admitted
                    rcases admitsLast Θ admitted with ⟨before, permitted⟩
                    refine ⟨admits Θ before, ?_⟩
                    intro c member
                    exact permitted c (by simpa using member)
      | constrain c =>
          have member : c.Proper := proper _ (List.mem_cons_self ..)
          apply (Context.constrain_settles family_proper orderly member).bind
          intro result constrained
          cases result with
          | none =>
              apply Settles.pure
              intro Θ _ spared permitted
              exact constrained Θ spared (permitted c (List.mem_cons_self ..))
          | some next =>
              rcases constrained with ⟨orderlyNext, same, spares, admits⟩
              apply (ih orderlyNext properLater).mono
              intro result added
              cases result with
              | none =>
                  intro Θ within spared permitted
                  rw [commonUnifiers_constrain] at within
                  apply added Θ within
                  · exact spares Θ spared (permitted c (List.mem_cons_self ..))
                  · exact fun d member => permitted d (List.mem_cons_of_mem _ member)
              | some last =>
                  rcases added with ⟨orderlyLast, solvedLast, admitsLast⟩
                  refine ⟨orderlyLast, ?_, ?_⟩
                  · rw [solvedLast, same, commonUnifiers_constrain]
                  · intro Θ admitted
                    rcases admitsLast Θ admitted with ⟨before, permitted⟩
                    rcases admits Θ before with ⟨start, new⟩
                    refine ⟨start, ?_⟩
                    intro d among
                    rcases List.mem_cons.mp among with same | later
                    · cases same
                      exact new member.isGuard_eq
                    · exact permitted d later

end Operation

namespace Context

/-- The empty context with the occurrence test switched on. -/
def checked : Context := empty.put .unification .enabled

theorem pending_checked : checked.pending = .empty := rfl

theorem substitution_checked : checked.substitution = .empty := rfl

/-- No bindings, no constraints and no hooks, and the occurrence test is made. -/
structure Blank (ctx : Context) : Prop where
  quiet : ctx.Quiet
  unbound : ctx.substitution = .empty
  unconstrained : ctx.pending = .empty

theorem blank_checked : checked.Blank where
  quiet := by
    refine ⟨rfl, rfl, ?_⟩
    intro facet member key native sameName
    rw [List.mem_singleton.mp member] at sameName ⊢
    exact FacetKey.eq_of_name_eq rfl native sameName
  unbound := substitution_checked
  unconstrained := pending_checked

theorem Blank.orderly {ctx : Context} (blank : ctx.Blank) (Member : Constraint → Prop) :
    ctx.Orderly Member where
  quiet := blank.quiet
  acyclic := blank.unbound ▸ acyclic_empty
  plain := blank.unbound ▸ wildcardFree_empty
  attended := by
    have nothing : ∀ {id c}, ctx.pending.get? id ≠ some c := by
      intro id c stored
      rw [blank.unconstrained] at stored
      simp [ConstraintStore.get?, ConstraintStore.empty] at stored
    constructor
    · exact fun stored => absurd stored nothing
    · exact fun stored => absurd stored nothing
    · exact fun stored => absurd stored nothing
    · exact fun stored => absurd stored nothing

theorem orderly_checked (Member : Constraint → Prop) : checked.Orderly Member :=
  blank_checked.orderly Member

theorem spares_checked {Member : Constraint → Prop} {Θ : Set Assignment}
    (nonempty : Θ.Nonempty) : (reading Member).Spares checked Θ := by
  refine ⟨nonempty, by simp [substitution_checked], ?_⟩
  intro id c stored
  rw [pending_checked] at stored
  simp [ConstraintStore.get?, ConstraintStore.empty] at stored

end Context

namespace Operation

variable {ops : List Operation}

/-- From the empty context, adding succeeds exactly if the equations have common
unifiers and these permit every constraint. -/
theorem runAll_checked (proper : ∀ op ∈ ops, op.Proper) :
    ∃ result, runAll .checked ops = pure result ∧
      (∀ next, result = some next → MostGeneral ops next.substitution) ∧
      (result.isSome ↔ (commonUnifiers ops).Nonempty ∧ PermitAll ops (commonUnifiers ops)) := by
  have orderly := Context.orderly_checked Constraint.Proper
  obtain ⟨result, added, returned⟩ := (runAll_settles orderly proper).exists
  refine ⟨result, returned, ?_⟩
  cases result with
  | none =>
      refine ⟨by simp, ?_⟩
      simp only [Option.isSome_none, Bool.false_eq_true, false_iff, not_and]
      intro nonempty
      exact added _ (Set.Subset.refl _) (Context.spares_checked nonempty)
  | some next =>
      rcases added with ⟨orderlyNext, solved, admits⟩
      rw [Context.substitution_checked, solutions_empty, Set.univ_inter] at solved
      have admitted := orderlyNext.admits
      rw [solved] at admitted
      constructor
      · intro last same
        cases same
        exact ⟨orderlyNext.acyclic, orderlyNext.plain, solved⟩
      · simp only [Option.isSome_some, true_iff]
        exact ⟨admitted.1, (admits _ admitted).2⟩

/-- Equations with a common unifier have a most general one. -/
theorem exists_mostGeneral (proper : ∀ op ∈ ops, op.Proper)
    (nonempty : (commonUnifiers ops).Nonempty) : ∃ s, MostGeneral ops s := by
  let equations := ops.filter fun
    | .unify _ _ => true
    | .constrain _ => false
  have same : commonUnifiers equations = commonUnifiers ops := by
    ext θ
    simp [equations, commonUnifiers]
  have permitted : PermitAll equations (commonUnifiers equations) := by
    intro c member
    simp [equations] at member
  have properEquations : ∀ op ∈ equations, op.Proper :=
    fun op member => proper op (List.mem_of_mem_filter member)
  obtain ⟨result, _, general, succeeds⟩ := runAll_checked properEquations
  obtain ⟨next, returned⟩ :=
    Option.isSome_iff_exists.mp (succeeds.mpr ⟨same ▸ nonempty, permitted⟩)
  have mostGeneral := general next returned
  exact ⟨next.substitution, mostGeneral.acyclic, mostGeneral.plain,
    mostGeneral.solutions.trans same⟩

/-- The common unifiers permit the constraints that are not violated under a most
general one. -/
theorem permitAll_iff_not_violated {s : Substitution} (proper : ∀ op ∈ ops, op.Proper)
    (general : MostGeneral ops s) :
    PermitAll ops (commonUnifiers ops) ↔
      ∀ c, .constrain c ∈ ops → c.evaluate .enabled s ≠ .ok .violated := by
  apply forall_congr'
  intro c
  apply forall_congr'
  intro member
  have properConstraint : c.Proper := proper _ member
  rw [ne_eq, evaluate_eq_violated general.acyclic general.plain properConstraint,
    permits_of_not_guard properConstraint.isGuard_eq, general.solutions]
  simp

/-- Equations and constraints on wildcard-free terms may be added in any order: a
run always ends, every permutation succeeds or fails alike and resolves all
variables alike up to renaming.  It succeeds exactly if the equations have a common
unifier and no constraint is violated under their most general one. -/
theorem runAll_order_independent (proper : ∀ op ∈ ops, op.Proper) :
    ∃ result, runAll .checked ops = pure result ∧
      (∀ others, others.Perm ops → ∃ other, runAll .checked others = pure other ∧
        other.isSome = result.isSome ∧
        ∀ next last, result = some next → other = some last → ∀ vs : List Var,
          Term.Variant (vs.map fun v => next.resolve (.var v))
            (vs.map fun v => last.resolve (.var v))) ∧
      ((commonUnifiers ops).Nonempty → ∃ s, MostGeneral ops s) ∧
      (result.isSome ↔ (commonUnifiers ops).Nonempty ∧ ∀ s, MostGeneral ops s →
        ∀ c, .constrain c ∈ ops → c.evaluate .enabled s ≠ .ok .violated) := by
  obtain ⟨result, returned, general, succeeds⟩ := runAll_checked proper
  refine ⟨result, returned, ?_, exists_mostGeneral proper, ?_⟩
  · intro others permuted
    have properOthers : ∀ op ∈ others, op.Proper :=
      fun op member => proper op (permuted.mem_iff.mp member)
    have sameUnifiers := commonUnifiers_of_perm permuted
    obtain ⟨other, returnedOther, generalOther, succeedsOther⟩ := runAll_checked properOthers
    refine ⟨other, returnedOther, ?_, ?_⟩
    · rw [Bool.eq_iff_iff, succeeds, succeedsOther, sameUnifiers, permitAll_of_perm permuted]
    · intro next last isNext isLast vs
      have first := general next isNext
      have second := generalOther last isLast
      have same : next.substitution.solutions = last.substitution.solutions := by
        rw [first.solutions, second.solutions, sameUnifiers]
      have variant := variant_of_solutions_eq first.acyclic second.acyclic same (vs.map .var)
      rw [List.map_map, List.map_map] at variant
      exact variant
  · rw [succeeds]
    constructor
    · intro possible
      refine ⟨possible.1, ?_⟩
      intro s mostGeneral
      exact (permitAll_iff_not_violated proper mostGeneral).mp possible.2
    · intro possible
      obtain ⟨s, mostGeneral⟩ := exists_mostGeneral proper possible.1
      exact ⟨possible.1, (permitAll_iff_not_violated proper mostGeneral).mpr
        (possible.2 s mostGeneral)⟩

/-- A disequality of variables is handed over along a chain of equations and found
violated in the end, in whatever order the chain was put together. -/
theorem runAll_handed_over :
    let x := Term.var (.numbered 1)
    let y := Term.var (.numbered 2)
    let z := Term.var (.numbered 3)
    let ops : List Operation :=
      [.constrain (.neq x (.tuple [y])), .unify x (.tuple [z]), .unify z (.int 1),
        .unify y (.int 1)]
    (∀ op ∈ ops, op.Proper) ∧ ∀ others, others.Perm ops → runAll .checked others = pure none := by
  intro x y z ops
  have proper : ∀ op ∈ ops, op.Proper := by
    intro op member
    simp only [ops, List.mem_cons, List.not_mem_nil, or_false] at member
    rcases member with rfl | rfl | rfl | rfl <;> exact ⟨by decide, by decide⟩
  refine ⟨proper, ?_⟩
  intro others permuted
  obtain ⟨result, _, alike, exists_general, succeeds⟩ := runAll_order_independent proper
  have failed : result.isSome = false := by
    rw [← Bool.not_eq_true, succeeds]
    rintro ⟨nonempty, notViolated⟩
    obtain ⟨s, general⟩ := exists_general nonempty
    have properNeq : (Constraint.neq x (.tuple [y])).Proper := ⟨by decide, by decide⟩
    apply notViolated s general (.neq x (.tuple [y])) (by simp [ops])
    rw [evaluate_eq_violated general.acyclic general.plain properNeq, general.solutions]
    intro θ solves holds
    have first := solves x (.tuple [z]) (by simp [ops])
    have second := solves z (.int 1) (by simp [ops])
    have third := solves y (.int 1) (by simp [ops])
    apply holds
    rw [first]
    simp only [Term.mapVars_compound, List.map_cons, List.map_nil, second, third]
  obtain ⟨other, returned, same, _⟩ := alike others permuted
  rw [failed, Option.isSome_eq_false_iff, Option.isNone_iff_eq_none] at same
  rw [returned, same]

end Operation

end RelationalSolver
