import RelationalSolver.Proofs.Planning.Cardinality
import RelationalSolver.Proofs.Planning.Chain
import RelationalSolver.Proofs.Planning.Plan
import RelationalSolver.Proofs.Planning.Relevance
import RelationalSolver.Proofs.Session.Lifecycle
import RelationalSolver.Stream.Run

/-!
# Pipelines

Every pass but the one that refuses keeps the answers of a conjunction, and so does
every list of such passes.  No pass writes a notice of anything but searches.
-/

namespace RelationalSolver

open Engine

variable {state : PlanningState} {before after goals : List Goal} {s : Substitution}

theorem Pass.apply_keeps {pass : Pass} {ps : List PlannedGoal} (lets : pass ≠ .refuse)
    (keeps : (Plan.feasible ps).Keeps state.substitution before) :
    (pass.apply state ps).1.Keeps state.substitution before := by
  cases pass with
  | chainSharedVars => exact keeps.of_perm (Planning.chainSharedVars_perm ps)
  | relevance => exact Planning.relevance_keeps keeps
  | cardinality => exact Planning.cardinality_keeps keeps
  | randomizeOrder seed => exact Planning.randomizeOrder_keeps seed state.bindings keeps
  | reverse => exact keeps.of_perm (List.reverse_perm ps)
  | refuse => exact absurd rfl lets

theorem Pipeline.run_keeps {passes : Pipeline} {plan : Plan} (lets : .refuse ∉ passes)
    (keeps : plan.Keeps state.substitution before) :
    (passes.run state plan).1.Keeps state.substitution before := by
  induction passes generalizing plan with
  | nil => exact keeps
  | cons pass passes ih =>
      rcases not_or.mp (List.mem_cons.not.mp lets) with ⟨here, there⟩
      cases plan with
      | failed => exact keeps
      | feasible ps => exact ih there (Pass.apply_keeps (Ne.symm here) keeps)

/-- The goals after stand for those before: they are rearranged, or nothing is left to
them and a goal that fails takes their place. -/
def Goal.Stands (s : Substitution) (before after : List Goal) : Prop :=
  Planning.Rearranges s before after ∨ (after = [.fail] ∧ Goal.Excluded s before)

theorem Goal.Stands.guarded (stands : Goal.Stands s before after) : ∀ g ∈ after, g.Guarded := by
  rcases stands with rearranges | ⟨rfl, _⟩
  · exact rearranges.guarded
  · exact List.forall_mem_singleton.mpr (.inl trivial)

theorem Plan.Keeps.stands {plan : Plan} (keeps : plan.Keeps s before) :
    Goal.Stands s before plan.toGoals := by
  cases plan with
  | feasible ps => exact .inl keeps.2
  | failed => exact .inr ⟨rfl, keeps⟩

theorem Pipeline.plan_stands {passes : Pipeline} {notices : List Notice}
    (lets : .refuse ∉ passes) (acyclic : state.substitution.Acyclic)
    (guarded : ∀ g ∈ before, g.Guarded)
    (planned : passes.plan state before = .ok (after, notices)) :
    Goal.Stands state.substitution before after := by
  rw [Pipeline.plan] at planned
  cases inspected : Plan.inspect state.substitution before with
  | error e =>
      rw [inspected] at planned
      cases planned
  | ok plan =>
      rw [inspected] at planned
      cases planned
      exact (run_keeps lets (Plan.inspect_keeps acyclic guarded inspected)).stands

/-- What a conjunction runs stands for its goals. -/
theorem Goal.planned_stands {ctx : Context} (lets : .refuse ∉ ctx.get .planner)
    (acyclic : ctx.substitution.Acyclic) (guarded : ∀ g ∈ before, g.Guarded)
    (returned : Returns (Goal.planned ctx before) after) :
    Goal.Stands ctx.substitution before after := by
  rcases returned with ⟨start, finish, ran⟩
  rw [Goal.planned] at ran
  dsimp only at ran
  split at ran
  · rw [runs_pure] at ran
    rw [← ran.1]
    exact .inl (.refl guarded)
  · simp only [runs_bind, runs_ofBounded, runs_pure] at ran
    rcases ran with ⟨⟨goals, notices⟩, _, ⟨planned, _⟩, _, _, _, rfl, _⟩
    exact Pipeline.plan_stands lets acyclic guarded planned

/-! ## Notices

Planning writes notices of searches only: why a conjunction cannot hold, and what has become
of its goals.
-/

variable {notice : Notice}

namespace Planning

variable {α β : Type} {x : Except Notice α} {f : α → Except Notice β}

/-- If planning finds that the conjunction cannot hold, it writes a notice of a search. -/
def Reports (x : Except Notice α) : Prop := ∀ notice, x = .error notice → notice.OfSearch

theorem reports_ok (a : α) : Reports (.ok a) := nofun

theorem reports_error (searches : notice.OfSearch) : Reports (.error notice : Except Notice α) := by
  rintro _ ⟨⟩
  exact searches

theorem Reports.bind (first : Reports x) (later : ∀ a, Reports (f a)) : Reports (x >>= f) := by
  cases x with
  | error notice => exact reports_error (first notice rfl)
  | ok a => exact later a

theorem Reports.mapM {g : α → Except Notice β} (each : ∀ a, Reports (g a)) (items : List α) :
    Reports (items.mapM g) := by
  induction items with
  | nil => exact reports_ok []
  | cons item items ih =>
      rw [List.mapM_cons]
      exact (each item).bind fun _ => ih.bind fun _ => reports_ok _

theorem restrictVar_reports (s : Substitution) (v : Var) (sharing : List PlannedGoal) :
    Reports (restrictVar s v sharing) := by
  unfold restrictVar
  split
  · exact reports_error trivial
  · split
    · exact reports_error trivial
    · exact reports_ok _
    · exact reports_ok _

theorem relevance_reports (s : Substitution) (goals : List PlannedGoal) :
    Reports (relevance s goals) :=
  (Reports.mapM (fun _ => restrictVar_reports s _ _) _).bind fun _ => reports_ok _

theorem closeRun_reports (run : List PlannedGoal) : Reports (closeRun run) := by
  unfold closeRun
  split
  · exact reports_error trivial
  · split <;> exact reports_ok _

theorem guardRuns_reports (run : List PlannedGoal) (vars : List Var) (goals : List PlannedGoal) :
    Reports (guardRuns run vars goals) := by
  induction goals generalizing run vars with
  | nil => exact closeRun_reports run
  | cons p ps ih =>
      rw [guardRuns]
      split
      · exact ih _ _
      · apply (closeRun_reports run).bind
        intro closed
        split
        · exact (ih _ _).bind fun _ => reports_ok _
        · rw [map_eq_pure_bind]
          exact ((ih _ _).bind fun _ => reports_ok _).bind fun _ => reports_ok _

end Planning

theorem Pass.notice_ofSearch {pass : Pass} {goals : List PlannedGoal}
    (member : notice ∈ (pass.apply state goals).2) : notice.OfSearch := by
  have reported : ∀ result, notice ∈ (outcome result).2 → result = .error notice := by
    intro result member
    cases result with
    | ok goals => cases member
    | error other => exact congrArg _ (Option.some.inj member)
  cases pass with
  | relevance => exact Planning.relevance_reports _ _ notice (reported _ member)
  | cardinality => exact Planning.guardRuns_reports _ _ _ notice (reported _ member)
  | chainSharedVars => cases member
  | randomizeOrder seed => cases member
  | reverse => cases member
  | refuse => cases member

theorem Pipeline.run_notices {passes : Pipeline} {plan : Plan} :
    ∀ notice ∈ (passes.run state plan).2, notice.OfSearch := by
  induction passes generalizing plan with
  | nil => exact nofun
  | cons pass passes ih =>
      cases plan with
      | failed => exact nofun
      | feasible goals =>
          intro notice member
          rcases List.mem_append.mp member with here | there
          · exact Pass.notice_ofSearch (Option.mem_toList.mp here)
          · exact ih notice there

/-- Whatever planning writes is a notice of a search. -/
theorem Pipeline.plan_notices {passes : Pipeline} {before after : List Goal}
    {notices : List Notice} (planned : passes.plan state before = .ok (after, notices)) :
    ∀ notice ∈ notices, notice.OfSearch := by
  obtain ⟨plan, _, found⟩ := Engine.except_bind_eq_ok.mp planned
  cases found
  intro notice member
  rcases List.mem_append.mp member with earlier | last
  · exact run_notices notice earlier
  · rw [List.mem_singleton.mp last]
    trivial

end RelationalSolver
