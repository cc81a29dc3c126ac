import RelationalSolver.Proofs.Constraint.Quiescence
import RelationalSolver.Proofs.Context.Restriction
import RelationalSolver.Proofs.Context.Survival

/-!
# Quiescent contexts

A context in which every stored constraint is at rest: it evaluates to pending and
waits for whatever unbound variable it reaches.  Adding an equation or a constraint
to such a context gives another one, because a binding wakes just the constraints
that it could disturb.  Nothing is assumed about wildcards.
-/

namespace RelationalSolver.Context

open Substitution Constraint ConstraintStore Engine

variable {ctx next : Context} {v : Var} {a b t : Term} {id : Nat} {c : Constraint}
variable {before : Substitution}

/-- A quiet context with acyclic bindings, in which every constraint is at rest. -/
structure Quiescent (ctx : Context) : Prop where
  quiet : ctx.Quiet
  acyclic : ctx.substitution.Acyclic
  anonymous : ctx.substitution.lookup .wildcard = none
  rests : ∀ id, ctx.pending.Rests ctx.substitution id

/-- If the computation ends in a context, the context is quiescent. -/
def Calms (x : Engine (Option Context)) : Prop :=
  Settles True x fun result => ∀ next, result = some next → next.Quiescent

theorem Calms.none : Calms (pure none) := .pure fun _ impossible => by cases impossible

theorem Quiescent.calms (quiescent : ctx.Quiescent) : Calms (pure (some ctx)) :=
  .pure fun _ same => by cases same; exact quiescent

/-- What puts every constraint to rest leaves a quiescent context. -/
theorem calms_of_completes {x : Engine (Option Context)} {s : Substitution}
    {settled : Except Unending (Option ConstraintStore)} (acyclic : s.Acyclic)
    (anonymous : s.lookup .wildcard = none) (completes : Completes s x settled)
    (rests : Settles True settled fun result => ∀ store, result = some store →
      ∀ id, store.Rests s id) : Calms x := by
  apply completes.settles rests
  · rintro next quiet rfl resting _ ⟨⟩
    exact ⟨quiet, acyclic, anonymous, resting next.pending rfl⟩
  · exact fun _ _ impossible => nomatch impossible

/-- After a binding, propagation puts every constraint to rest again. -/
theorem bindBy_calms (unify : Context → Term → Term → Engine (Option Context))
    (quiescent : ctx.Quiescent) (unbound : ctx.substitution.lookup v = none)
    (named : v ≠ .wildcard) (apart : ¬ ctx.substitution.Reaches t v) :
    Calms (bindBy unify ctx v t) := by
  have acyclic := acyclic_insert quiescent.acyclic apart
  cases extended : ctx.substitution.extend v t with
  | none =>
      rw [bindBy, extended]
      exact Calms.none
  | some s =>
      obtain rfl : s = ctx.substitution.insert v t := by
        unfold extend at extended
        split at extended
        · cases extended
        · exact (Option.some.inj extended).symm
      apply calms_of_completes acyclic _ (quiescent.quiet.bindBy_completes unify extended)
      · apply settleEach_rests (follows_insert quiescent.acyclic acyclic unbound)
        intro id
        by_cases waits : id ∈ ctx.pending.idsFor v
        · exact .inr ⟨waits, (quiescent.rests id).1⟩
        · exact .inl ((quiescent.rests id).insert quiescent.acyclic acyclic quiescent.anonymous
            named unbound waits)
      · rw [lookup_insert, if_neg named]
        exact quiescent.anonymous

/-! ## Unification -/

section Rounds

variable {unify : Context → Term → Term → Engine (Option Context)}

theorem unifyPairs_calms (calms : ∀ ctx a b, Quiescent ctx → Calms (unify ctx a b)) :
    ∀ (as bs : List Term) (ctx : Context), ctx.Quiescent →
      Calms (Bindings.unifyPairs unify ctx as bs)
  | [], _, ctx, quiescent => quiescent.calms
  | _ :: _, [], ctx, quiescent => quiescent.calms
  | a :: as, b :: bs, ctx, quiescent => by
      rw [Bindings.unifyPairs]
      apply (calms ctx a b quiescent).bind
      intro result calm
      cases result with
      | none => exact Calms.none
      | some next => exact unifyPairs_calms calms as bs next (calm next rfl)

theorem unifyRound_calms (below : Context → Term → Term → Engine (Option Context))
    (calms : ∀ ctx a b, Quiescent ctx → Calms (unify ctx a b)) (quiescent : ctx.Quiescent) :
    Calms ((store below).unifyRound unify ctx a b) := by
  apply Bindings.unifyRound_cases
  · exact fun _ => quiescent.calms
  · exact fun _ => quiescent.calms
  · intro v t meets
    obtain ⟨unbound, walked⟩ := walked_of_meets quiescent.acyclic meets
    rw [bindVar_eq below quiescent.quiet.checked quiescent.acyclic walked meets.2.1]
    split
    · exact Calms.none
    · rename_i outside
      apply bindBy_calms below quiescent unbound meets.1
      exact fun reaches => outside ((mentions_resolve quiescent.acyclic).mpr ⟨reaches, unbound⟩)
  · exact fun f as bs _ _ _ => unifyPairs_calms calms as bs ctx quiescent
  · exact fun _ => Calms.none

end Rounds

theorem unifyWithin_calms : ∀ (depth : Nat) (ctx : Context) (a b : Term), ctx.Quiescent →
    Calms (unifyWithin depth ctx a b)
  | 0, _, _, _, _ => .inr ⟨trivial, rfl⟩
  | depth + 1, _, _, _, quiescent =>
      unifyRound_calms (condenseThen (unifyWithin depth)) (unifyWithin_calms depth) quiescent

theorem unify_calms (quiescent : ctx.Quiescent) : Calms (ctx.unify a b) := by
  rw [unify, quiescent.quiet.condenseThen_eq, unifyOver_eq]
  exact unifyWithin_calms _ ctx _ _ quiescent

theorem unifyAll_calms (quiescent : ctx.Quiescent) {as bs : List Term} :
    Calms (ctx.unifyAll as bs) := by
  rw [unifyAll, unifyOver_eq, Bindings.unifyLists]
  split
  · exact unifyPairs_calms (unifyWithin_calms _) as bs ctx quiescent
  · exact Calms.none

/-! ## One more constraint -/

theorem constrain_calms (quiescent : ctx.Quiescent) (comparing : c.Comparing) :
    Calms (ctx.constrain c) := by
  apply calms_of_completes quiescent.acyclic quiescent.anonymous
    (quiescent.quiet.constrain_completes c)
  apply settleEach_rests (.refl ctx.substitution [])
  intro id
  by_cases same : ctx.pending.nextId = id
  · refine .inr ⟨List.mem_singleton.mpr same.symm, ?_⟩
    intro d stored
    rw [get?_insert, if_pos same] at stored
    cases stored
    refine ⟨comparing, ?_⟩
    intro v member w named reached
    rw [mem_idsFor_insert]
    exact .inr ⟨same.symm, mem_watched.mpr (.inr ⟨v, member, Term.mem_vars.mpr ⟨reached, named⟩⟩),
      named⟩
  · exact .inl ((untouched_insert same).rests (quiescent.rests id))

/-! ## Contexts put together -/

/-- The context comes from the empty one with the occurrence test by successful
unifications and by successful constraints that compare terms. -/
inductive Assembled : Context → Prop
  | start : Assembled checked
  | unify {ctx next : Context} (a b : Term) (earlier : Assembled ctx)
      (returned : Returns (ctx.unify a b) (some next)) : Assembled next
  | unifyAll {ctx next : Context} (as bs : List Term) (earlier : Assembled ctx)
      (returned : Returns (ctx.unifyAll as bs) (some next)) : Assembled next
  | constrain {ctx next : Context} (c : Constraint) (comparing : c.Comparing)
      (earlier : Assembled ctx) (returned : Returns (ctx.constrain c) (some next)) :
      Assembled next

theorem quiescent_checked : Quiescent .checked where
  quiet := (orderly_checked Constraint.Proper).quiet
  acyclic := (orderly_checked Constraint.Proper).acyclic
  anonymous := by rw [substitution_checked, lookup_empty]
  rests id := by
    have nothing : ∀ c, (pending .checked).get? id ≠ some c := by
      intro c stored
      rw [pending_checked] at stored
      simp [ConstraintStore.empty, ConstraintStore.get?] at stored
    exact ⟨fun c stored => absurd stored (nothing c), fun c stored => absurd stored (nothing c)⟩

theorem Assembled.quiescent (assembled : Assembled ctx) : ctx.Quiescent := by
  induction assembled with
  | start => exact quiescent_checked
  | unify a b _ returned ih => exact (unify_calms ih).of_returns returned _ rfl
  | unifyAll as bs _ returned ih => exact (unifyAll_calms ih).of_returns returned _ rfl
  | constrain c comparing _ returned ih =>
      exact (constrain_calms ih comparing).of_returns returned _ rfl

/-- Every constraint stored in such a context evaluates to pending, and its id waits for
every unbound variable other than the wildcard that its own variables reach. -/
theorem assembled_quiescent (assembled : Assembled ctx) (stored : ctx.pending.get? id = some c) :
    ctx.evaluate c = pure .pending ∧
      ∀ v ∈ c.vars, ∀ w, w ≠ .wildcard → ctx.substitution.lookup w = none →
        ctx.substitution.Reaches (.var v) w → id ∈ ctx.pending.idsFor w := by
  have quiescent := assembled.quiescent
  obtain ⟨watched, pending⟩ := quiescent.rests id
  constructor
  · rw [evaluate, quiescent.quiet.checked, pending c stored]
    rfl
  · intro v member w named unbound reached
    exact (watched c stored).2 v member w named
      ((mentions_resolve quiescent.acyclic).mpr ⟨reached, unbound⟩)

/-- Binding the subject of an exclusion drops the member that it cannot equal any more,
and lets what is left of it wait for the variable in the binding. -/
theorem assembled_exclusion :
    let x := Var.numbered 1
    let z := Var.numbered 3
    let pair := Term.tuple [.var (.numbered 2), .var .wildcard]
    let exclusion := Constraint.notIn ⟨.var x, [.int 1, pair]⟩
    let simpler := Constraint.notIn ⟨.var x, [pair]⟩
    ∃ first ctx, Returns (constrain .checked exclusion) (some first) ∧
      Returns (first.unify (.var x) (.tuple [.var z, .int 2])) (some ctx) ∧
      Assembled ctx ∧ ctx.pending.get? 0 = some simpler ∧
      ctx.evaluate simpler = pure .pending ∧ 0 ∈ ctx.pending.idsFor z := by
  intro x z pair exclusion simpler
  have steps : ∃ first, Returns (constrain .checked exclusion) (some first) ∧
      ∃ ctx, Returns (first.unify (.var x) (.tuple [.var z, .int 2])) (some ctx) ∧
        ctx.pending.get? 0 = some simpler ∧ ctx.substitution.lookup z = none ∧
        ctx.substitution.lookup x = some (.tuple [.var z, .int 2]) :=
    ⟨_, ⟨.start 3 0, _, rfl⟩, _, ⟨.start 3 0, _, rfl⟩, rfl, rfl, rfl⟩
  obtain ⟨first, constrained, ctx, unified, stored, unbound, bound⟩ := steps
  have assembled : Assembled ctx :=
    .unify _ _ (.constrain exclusion trivial .start constrained) unified
  have reached : ctx.substitution.Reaches (.var x) z :=
    ⟨x, rfl, .single ⟨_, bound, rfl⟩⟩
  obtain ⟨pending, waits⟩ := assembled_quiescent assembled stored
  exact ⟨first, ctx, constrained, unified, assembled, stored, pending,
    waits x (by decide) z (by decide) unbound reached⟩

end RelationalSolver.Context
