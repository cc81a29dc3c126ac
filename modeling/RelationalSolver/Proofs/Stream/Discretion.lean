import RelationalSolver.Proofs.Context.Detached
import RelationalSolver.Proofs.Context.Practice
import RelationalSolver.Proofs.Stream.Upkeep

/-!
# Searches fire events of their own only

Whatever a search does, it leaves alone what the session shows of whole runs.  All contexts that
it hands on have the hooks of the one that it began with.
-/

namespace RelationalSolver

open Engine

namespace Engine

variable {α β : Type} {x : Engine α} {f : α → Engine β} {condition : α → Prop}
variable {result : β → Prop} {a : α}

/-- Nothing is shown of whole runs, and a result satisfies the condition. -/
def Minds (x : Engine α) (condition : α → Prop) : Prop :=
  ∀ before, ((x.run.run before).2.lifecycle = before.lifecycle ∧
    before.Extends (x.run.run before).2) ∧ ∀ a, (x.run.run before).1 = .ok a → condition a

theorem Discreet.minds (discreet : Discreet x) (holds : ∀ a, Returns x a → condition a) :
    Minds x condition := by
  intro before
  refine ⟨discreet before, fun a gives => ?_⟩
  obtain ⟨after, ran⟩ := exists_runs gives
  exact holds a ran.returns

theorem Minds.bind (first : Minds x condition) (later : ∀ a, condition a → Minds (f a) result) :
    Minds (x >>= f) result := by
  intro before
  obtain ⟨here, holds⟩ := first before
  rw [run_bind]
  cases ran : x.run.run before with
  | mk outcome between =>
      rw [ran] at here holds
      cases outcome with
      | error halt => exact ⟨here, nofun⟩
      | ok a =>
          obtain ⟨rest, holdsLater⟩ := later a (holds a rfl) between
          exact ⟨⟨rest.1.trans here.1, here.2.trans rest.2⟩, holdsLater⟩

theorem Minds.throw (halt : Halt) : Minds (throw halt : Engine α) condition :=
  fun before => ⟨⟨rfl, .refl before⟩, nofun⟩

theorem Minds.runs {before after : Session} (minds : Minds x condition)
    (ran : Runs x before a after) :
    after.lifecycle = before.lifecycle ∧ before.Extends after ∧ condition a := by
  obtain ⟨⟨same, kept⟩, holds⟩ := minds before
  rw [ran] at same kept holds
  exact ⟨same, kept, holds a rfl⟩

theorem returns_of_attempt (returned : Returns (attempt x) (.ok a)) : Returns x a := by
  obtain ⟨_, _, ran⟩ := returned
  exact (runs_attempt_ok.mp ran).returns

end Engine

namespace Context

variable {ctx : Context} {hooks : Option Registry}

/-- The context has these hooks. -/
def Hooked (hooks : Option Registry) (ctx : Context) : Prop := ctx.hooks? = hooks

theorem Hooked.of_leaves {result : Option Context} (hooked : ctx.Hooked hooks)
    (leaves : Leaves SameFixed ctx result) : ∀ next, result = some next → next.Hooked hooks :=
  fun next same => (leaves next same .hooks trivial).trans hooked

end Context

/-- Everything that running goals consists of minds its own events, and passes the hooks on. -/
theorem discipline_minds (hooks : Option Registry) :
    Discipline (Context.Hooked hooks) Minds where
  pure holds := fun before => ⟨⟨rfl, .refl before⟩, fun _ same => Except.ok.inj same ▸ holds⟩
  bind := .bind
  unending := .throw _
  arity _ := .throw _
  undefinedCall _ := .throw _
  notify notice searches := by
    refine (Discreet.notify ?_).minds fun _ _ => trivial
    cases notice with
    | observed label key payload => exact searches.elim
    | _ => rfl
  freshVars count := (Discreet.freshVars count).minds fun _ _ => trivial
  fire ctx _ payload searches := (ctx.fire_discreet payload searches).minds fun _ _ => trivial
  unify {ctx} a b hooked := by
    refine (practice_discreet.unify ctx a b).attempt.minds fun _ returned next same => ?_
    subst same
    exact hooked.of_leaves ((ctx.unify_keeps a b).of_returns (returns_of_attempt returned)) _ rfl
  unifyAll {ctx} as bs hooked := by
    refine (practice_discreet.unifyAll ctx as bs).attempt.minds fun _ returned next same => ?_
    subst same
    exact hooked.of_leaves ((ctx.unifyAll_keeps as bs).of_returns (returns_of_attempt returned))
      _ rfl
  constrain {ctx} c hooked := by
    refine (practice_discreet.constrain ctx c).minds fun _ returned => ?_
    exact hooked.of_leaves
      ((Context.constrain_keeps FacetKey.not_isFixed_constraints c).of_returns returned)
  counted facet value := by
    refine (practice_discreet.set .empty (.custom facet) value).minds fun next returned => ?_
    have sets : Detached (Context.empty.set (.custom facet) value) fun next =>
        Context.empty.trySet (.custom facet) value = .ok next := .orCrash fun _ => id
    exact sets.of_returns returned

/-- What a move leaves of a stream carries contexts with the same hooks, and so does the context
that it yields. -/
def Move.Hooked (hooks : Option Registry) : Move → Prop
  | .yield ctx rest => ctx.Hooked hooks ∧ Discipline.Hands (Context.Hooked hooks) rest
  | .forced next => Discipline.Hands (Context.Hooked hooks) next
  | .done => True
  | .fault _ => True

theorem Stream.step_minds (program : Program) {hooks : Option Registry} {s : Stream}
    (hands : Discipline.Hands (Context.Hooked hooks) s) :
    Minds (s.step program) (Move.Hooked hooks) := by
  have d := discipline_minds hooks
  cases s with
  | empty => exact d.pure trivial
  | aborted fault => exact d.pure trivial
  | ready ctx rest =>
      exact d.pure ⟨hands ctx (.inl rfl), fun other carries => hands other (.inr carries)⟩
  | suspended work => exact d.map (d.force work hands) fun _ => id

end RelationalSolver
