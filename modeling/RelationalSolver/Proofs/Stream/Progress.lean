import RelationalSolver.Proofs.Constraint.Verdicts
import RelationalSolver.Proofs.Context.Detached
import RelationalSolver.Proofs.Context.Unification
import RelationalSolver.Proofs.Goal.Proper
import RelationalSolver.Proofs.Planning.Provenance
import RelationalSolver.Proofs.Stream.Endings

/-!
# Goals made of equations never abort

In an orderly context without a planner every unification returns and leads to such a
context again.  Goals made of equations do nothing but unify, so what they leave
suspended can be forced forever, with the same result in every session and without a
fault.
-/

namespace RelationalSolver

open Engine

variable {program : Program} {ctx next : Context} {g : Goal} {parts : List Goal}
variable {s t : Stream} {work : Work} {last : Continuation} {queue : List Stream}

/-! ## Applying goals in every session -/

theorem Goal.always_equal {a b : Term} {found : Option Context}
    (always : Always (ctx.unify a b) found) :
    Always ((Goal.equal a b).apply ctx) ((found.map Stream.unit).getD .empty) := by
  apply always.attempt.bind
  cases found with
  | none => exact always_pure _
  | some next => exact always_pure _

theorem Goal.always_mapM_cons {run : Goal → Engine Stream} {s : Stream} {streams : List Stream}
    (here : Always (run g) s) (rest : Always (parts.mapM run) streams) :
    Always ((g :: parts).mapM run) (s :: streams) := by
  rw [List.mapM_cons]
  exact here.bind (rest.bind (always_pure _))

/-- If each of the goals gives a stream, all of them do, each in its place. -/
theorem Goal.exists_always_mapM {run : Goal → Engine Stream} {condition : Stream → Prop}
    (gives : ∀ g ∈ parts, ∃ s, Always (run g) s ∧ condition s) :
    ∃ streams : List Stream, Always (parts.mapM run) streams ∧ (∀ s ∈ streams, condition s) ∧
      ∀ i : Nat, Option.Rel (fun g s => Always (run g) s) parts[i]? streams[i]? := by
  induction parts with
  | nil => exact ⟨[], always_pure [], nofun, fun _ => .none⟩
  | cons g parts ih =>
      obtain ⟨⟨s, here, holds⟩, there⟩ := List.forall_mem_cons.mp gives
      obtain ⟨streams, rest, allHold, each⟩ := ih there
      refine ⟨s :: streams, always_mapM_cons here rest, ?_, ?_⟩
      · exact List.forall_mem_cons.mpr ⟨holds, allHold⟩
      · intro i
        cases i with
        | zero => exact .some here
        | succ i => exact each i

theorem Goal.always_disj {streams : List Stream} (all : Always (parts.mapM (·.apply ctx)) streams) :
    Always ((Goal.disj parts []).apply ctx) (.interleave streams) := by
  have attached : Always (ctx.constrainAll []) (some ctx) := always_pure _
  have shallow : parts.mapM (applyWithin (Goal.disj parts []).depth · ctx) =
      parts.mapM (·.apply ctx) := by
    apply mapM_congr
    intro g member
    rw [applyWithin_eq_apply]
    rw [Goal.depth, Nat.add_comm]
    exact Nat.lt_succ_of_le (depth_le_depths member)
  apply attached.bind
  dsimp only
  rw [shallow]
  exact all.map Stream.interleave

theorem Goal.always_conj (unplanned : ctx.get .planner = [])
    (all : Always ((Stream.unit ctx).bindAll parts) s) :
    Always ((Goal.conj parts []).apply ctx) s := by
  have attached : Always (ctx.constrainAll []) (some ctx) := always_pure _
  have planned : Always (Goal.planned ctx parts) parts := by
    rw [Goal.planned, unplanned]
    exact always_pure _
  have notified : Always (notify (.conjunction parts.length)) () := always_modify _
  apply attached.bind
  apply planned.bind
  apply notified.bind
  rw [foldlM_bindBy_eq_bindAll]
  · exact all
  · intro g member
    rw [Goal.depth, Nat.add_comm]
    exact Nat.lt_succ_of_le (depth_le_depths member)

/-! ## Calm streams -/

/-- An orderly context without a planner. -/
structure Context.Calm (ctx : Context) : Prop where
  orderly : ctx.Orderly Constraint.Proper
  unplanned : ctx.get .planner = []

/-- Unification returns in every session, and leads to a calm context again. -/
theorem Context.Calm.unify (calm : ctx.Calm) {a b : Term} (left : a.WildcardFree)
    (right : b.WildcardFree) :
    ∃ found, Always (ctx.unify a b) found ∧ ∀ next, found = some next → next.Calm := by
  rcases unify_settles Constraint.family_proper calm.orderly left right with
    ⟨found, restricted, returns⟩ | ⟨impossible, _⟩
  · have always : Always (ctx.unify a b) found := by
      rw [returns]
      exact always_pure found
    refine ⟨found, always, ?_⟩
    rintro next rfl
    have same := (ctx.unify_detached a b).of_returns always.returns next rfl
    exact ⟨restricted.1, same.get_eq.trans calm.unplanned⟩
  · exact impossible.elim

mutual

/-- The stream has not aborted, its contexts are calm, and what is suspended runs goals
made of equations. -/
def Stream.Calm (program : Program) : Stream → Prop
  | .empty => True
  | .ready ctx rest => ctx.Calm ∧ rest.Calm program
  | .suspended work => work.Calm program
  | .aborted _ => False

def Work.Calm (program : Program) : Work → Prop
  | .run goal ctx => goal.Equational program.definitions ∧ ctx.Calm
  | .call name args ctx => (Goal.call name args).Equational program.definitions ∧ ctx.Calm
  | .bind work goal => work.Calm program ∧ goal.Equational program.definitions
  | .append work next => work.Calm program ∧ next.Calm program
  | .resume next => next.Calm program
  | .turn first others => first.Calm program ∧ Work.AllCalm program others
  | .openRows _ _ => False
  | .scan _ => False
  | .pull _ => False
  | .build _ => False

def Work.AllCalm (program : Program) : List Work → Prop
  | [] => True
  | work :: works => work.Calm program ∧ Work.AllCalm program works

def Continuation.Calm (program : Program) : Continuation → Prop
  | .stream s => s.Calm program
  | .bind s goal => s.Calm program ∧ goal.Equational program.definitions

end

theorem Work.allCalm_iff {works : List Work} :
    AllCalm program works ↔ ∀ work ∈ works, work.Calm program := by
  induction works with
  | nil => simp [AllCalm]
  | cons work works ih => simp [AllCalm, ih]

/-- In every session the computation gives one stream, and the stream is calm. -/
def GivesCalm (program : Program) (x : Engine Stream) : Prop := ∃ s, Always x s ∧ s.Calm program

theorem givesCalm_pure (calm : s.Calm program) : GivesCalm program (pure s) :=
  ⟨s, always_pure s, calm⟩

namespace Stream

theorem calm_unit (calm : ctx.Calm) : (unit ctx).Calm program := ⟨calm, trivial⟩

theorem calm_followBy (calmLast : last.Calm program) : ∀ {s : Stream}, s.Calm program →
    (s.followBy last).Calm program
  | .empty, _ => calmLast
  | .ready _ _, calm => ⟨calm.1, calm_followBy calmLast calm.2⟩
  | .suspended _, calm => ⟨calm, calmLast⟩

theorem calm_ofWorks : ∀ {works : List Work}, (∀ work ∈ works, work.Calm program) →
    (ofWorks works).Calm program
  | [], _ => trivial
  | [work], calm => calm work (List.mem_singleton_self work)
  | work :: other :: others, calm => by
      rw [List.forall_mem_cons] at calm
      exact ⟨calm.1, Work.allCalm_iff.mpr calm.2⟩

/-- Calm streams that take turns are calm. -/
theorem calm_interleave (calm : ∀ s ∈ queue, s.Calm program) : (interleave queue).Calm program := by
  rw [interleave_eq_takeTurns]
  induction queue using turns_induction with
  | suspended works =>
      rw [takeTurns_suspended]
      apply calm_ofWorks
      exact fun work member => calm (.suspended work) (List.mem_map_of_mem member)
  | ended works queue ih =>
      rw [takeTurns_empty]
      apply ih
      intro s member
      rcases List.mem_append.mp member with later | passed
      · exact calm s (List.mem_append_right _ (List.mem_cons_of_mem _ later))
      · exact calm s (List.mem_append_left _ passed)
  | ready works ctx rest queue ih =>
      have here := calm (.ready ctx rest) (by simp)
      rw [takeTurns_ready]
      refine ⟨here.1, ih ?_⟩
      intro s member
      rw [List.mem_append, List.mem_append, List.mem_singleton] at member
      rcases member with (later | passed) | rfl
      · exact calm s (List.mem_append_right _ (List.mem_cons_of_mem _ later))
      · exact calm s (List.mem_append_left _ passed)
      · exact here.2
  | aborted works fault queue => exact (calm (.aborted fault) (by simp)).elim

theorem givesCalm_bind (equational : g.Equational program.definitions)
    (applies : ∀ ctx : Context, ctx.Calm → GivesCalm program (g.apply ctx)) :
    ∀ {s : Stream}, s.Calm program → GivesCalm program (s.bind g)
  | .empty, _ => givesCalm_pure trivial
  | .suspended _, calm => givesCalm_pure ⟨calm, equational⟩
  | .ready ctx rest, calm => by
      obtain ⟨answers, always, calmAnswers⟩ := applies ctx calm.1
      by_cases ended : answers = .empty
      · subst ended
        obtain ⟨later, binds, calmLater⟩ := givesCalm_bind equational applies calm.2
        exact ⟨later, bind_ready_of_empty always binds, calmLater⟩
      · have calmRest : (Continuation.bind rest g).Calm program := ⟨calm.2, equational⟩
        exact ⟨_, bind_ready always ended, calm_followBy calmRest calmAnswers⟩

theorem givesCalm_bindAll (equational : ∀ g ∈ parts, g.Equational program.definitions)
    (applies : ∀ g ∈ parts, ∀ ctx : Context, ctx.Calm → GivesCalm program (g.apply ctx))
    (calm : s.Calm program) : GivesCalm program (s.bindAll parts) := by
  induction parts generalizing s with
  | nil => exact givesCalm_pure calm
  | cons g parts ih =>
      rw [List.forall_mem_cons] at equational applies
      obtain ⟨next, binds, calmNext⟩ := givesCalm_bind equational.1 applies.1 calm
      obtain ⟨final, bindsAll, calmFinal⟩ := ih equational.2 applies.2 calmNext
      refine ⟨final, ?_, calmFinal⟩
      rw [bindAll, List.foldlM_cons]
      exact binds.bind bindsAll

end Stream

namespace Goal

/-- Applied to a calm context, a goal made of equations gives a calm stream. -/
theorem Equational.givesCalm (equational : g.Equational program.definitions) (calm : ctx.Calm) :
    GivesCalm program (g.apply ctx) := by
  -- The goals of a combination are less deep than the combination.
  induction bound : g.depth using Nat.strongRecOn generalizing g ctx with
  | ind depth ih =>
      have inside : ∀ {parts : List Goal}, AllEquational program.definitions parts →
          1 + depths parts ≤ depth → ∀ g ∈ parts, ∀ ctx : Context, ctx.Calm →
            GivesCalm program (g.apply ctx) := by
        intro parts equational deep g member ctx calm
        have shallow := depth_le_depths member
        exact ih g.depth (by omega) (allEquational_iff.mp equational g member) calm rfl
      cases g with
      | succeed => exact givesCalm_pure (Stream.calm_unit calm)
      | fail => exact givesCalm_pure trivial
      | equal a b =>
          obtain ⟨found, always, calmNext⟩ := calm.unify equational.1 equational.2
          refine ⟨_, always_equal always, ?_⟩
          cases found with
          | none => trivial
          | some next => exact Stream.calm_unit (calmNext next rfl)
      | conj parts constraints =>
          obtain ⟨equational, rfl⟩ := equational
          obtain ⟨s, binds, calmStream⟩ :=
            Stream.givesCalm_bindAll (allEquational_iff.mp equational)
              (inside equational bound.le) (Stream.calm_unit calm)
          exact ⟨s, always_conj calm.unplanned binds, calmStream⟩
      | disj parts constraints =>
          obtain ⟨equational, rfl⟩ := equational
          obtain ⟨streams, all, calmStreams, _⟩ := exists_always_mapM fun g member =>
            inside equational bound.le g member ctx calm
          exact ⟨_, always_disj all, Stream.calm_interleave calmStreams⟩
      | delay body => exact givesCalm_pure ⟨equational, calm⟩
      | call name args => exact givesCalm_pure ⟨equational, calm⟩
      | constrain c => exact equational.elim
      | relation a => exact equational.elim
      | fresh names body => exact equational.elim
      | abort fault => exact equational.elim
      | yieldThenAbort fault => exact equational.elim

theorem Equational.givesCalm_runBody (equational : g.Equational program.definitions)
    (calm : ctx.Calm) : GivesCalm program (g.runBody ctx) := by
  rw [runBody, equational.check]
  exact equational.givesCalm calm

end Goal

/-! ## Forcing -/

theorem Continuation.Calm.resume (calm : last.Calm program) : GivesCalm program last.resume := by
  cases last with
  | stream s => exact givesCalm_pure calm
  | bind s goal => exact Stream.givesCalm_bind calm.2 (fun _ => calm.2.givesCalm) calm.1

/-- Forcing calm work gives a calm stream. -/
theorem Work.Calm.force (unfolds : program.definitions.Equational) : ∀ {work : Work},
    work.Calm program → GivesCalm program (work.force program)
  | .run _ _, calm => calm.1.givesCalm_runBody calm.2
  | .call name args ctx, calm => by
      obtain ⟨definition, defined⟩ := Option.isSome_iff_exists.mp calm.1.1
      rw [Work.force, defined]
      exact (unfolds.apply defined calm.1.2).givesCalm_runBody calm.2
  | .bind work goal, calm => by
      obtain ⟨s, forces, calmForced⟩ := Work.Calm.force unfolds calm.1
      obtain ⟨t, binds, calmBound⟩ :=
        Stream.givesCalm_bind calm.2 (fun _ => calm.2.givesCalm) calmForced
      exact ⟨t, forces.bind binds, calmBound⟩
  | .append work last, calm => by
      obtain ⟨s, forces, calmForced⟩ := Work.Calm.force unfolds calm.1
      by_cases ended : s = .empty
      · subst ended
        obtain ⟨t, resumes, calmLast⟩ := Continuation.Calm.resume calm.2
        exact ⟨t, forces.bind resumes, calmLast⟩
      · have goesOn : Always (s.andThen last) (s.followBy last) := by
          rw [Stream.andThen_eq ended]
          exact always_pure _
        exact ⟨_, forces.bind goesOn, Stream.calm_followBy calm.2 calmForced⟩
  | .resume _, calm => Continuation.Calm.resume calm
  | .turn first others, calm => by
      obtain ⟨s, forces, calmForced⟩ := Work.Calm.force unfolds calm.1
      refine ⟨_, forces.bind (always_pure _), Stream.calm_interleave ?_⟩
      intro t member
      rcases List.mem_append.mp member with among | forced
      · obtain ⟨work, other, rfl⟩ := List.mem_map.mp among
        exact Work.allCalm_iff.mp calm.2 work other
      · exact List.mem_singleton.mp forced ▸ calmForced

namespace Stream

theorem sound_of_calm : ∀ {s : Stream}, s.Calm program → s.isFaulty = false
  | .empty, _ => rfl
  | .ready _ rest, calm => by
      have sound : rest.isFaulty = false := sound_of_calm calm.2
      exact sound
  | .suspended _, _ => rfl

theorem calm_of_mem_works : ∀ {s : Stream}, s.Calm program → work ∈ s.works → work.Calm program
  | .ready _ _, calm, member => calm_of_mem_works calm.2 member
  | .suspended _, calm, member => List.mem_singleton.mp member ▸ calm

/-- A calm stream never aborts. -/
theorem Calm.steady (unfolds : program.definitions.Equational) (calm : s.Calm program) :
    s.Steady (.always program) 0 := by
  intro depth
  induction depth generalizing s with
  | zero => trivial
  | succ depth ih =>
      refine ⟨sound_of_calm calm, ?_⟩
      intro work member _ _
      obtain ⟨next, forces, calmNext⟩ := (calm_of_mem_works calm member).force unfolds
      exact ⟨next, (), forces, ih calmNext⟩

end Stream

/-- Applied to the context, the goal gives one stream in every session, and the stream
never aborts. -/
def Goal.SteadyOn (program : Program) (g : Goal) (ctx : Context) : Prop :=
  ∃ s, Always (g.apply ctx) s ∧ s.Steady (.always program) 0

/-- On calm contexts, goals made of equations never abort. -/
theorem Goal.Equational.steadyOn (unfolds : program.definitions.Equational)
    (equational : g.Equational program.definitions) (calm : ctx.Calm) : g.SteadyOn program ctx := by
  obtain ⟨s, applies, calmStream⟩ := equational.givesCalm calm
  exact ⟨s, applies, calmStream.steady unfolds⟩

end RelationalSolver
