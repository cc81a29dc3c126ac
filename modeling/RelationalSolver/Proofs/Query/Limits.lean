import RelationalSolver.Proofs.Context.Detached
import RelationalSolver.Proofs.Query.Turns

/-!
# Limits cut runs

A termination that only counts is reached with the smallest of its limits.  A query with limits
makes the same turns as the query without, and stops before the first of them that comes too
late.
-/

namespace RelationalSolver

open Engine

namespace Termination

/-! ## The limits of a termination -/

mutual

/-- The termination looks at no clock. -/
def Timeless : Termination → Prop
  | .solutionCount _ => True
  | .stepCount _ => True
  | .time _ => False
  | .any terminations => AllTimeless terminations

/-- None of the terminations looks at a clock. -/
def AllTimeless : List Termination → Prop
  | [] => True
  | t :: ts => t.Timeless ∧ AllTimeless ts

end

mutual

/-- The numbers of solutions that are limits. -/
def solutionLimits : Termination → List Nat
  | .solutionCount limit => [limit]
  | .stepCount _ => []
  | .time _ => []
  | .any terminations => allSolutionLimits terminations

/-- The numbers of solutions that are limits of one of the terminations. -/
def allSolutionLimits : List Termination → List Nat
  | [] => []
  | t :: ts => t.solutionLimits ++ allSolutionLimits ts

end

mutual

/-- The numbers of forced suspensions that are limits. -/
def stepLimits : Termination → List Nat
  | .solutionCount _ => []
  | .stepCount limit => [limit]
  | .time _ => []
  | .any terminations => allStepLimits terminations

/-- The numbers of forced suspensions that are limits of one of the terminations. -/
def allStepLimits : List Termination → List Nat
  | [] => []
  | t :: ts => t.stepLimits ++ allStepLimits ts

end

variable {scope : SearchScope} {t : Termination} {ts : List Termination} {limits : List Nat}

/-- The smallest limits are reached, as far as there are any. -/
def countsTo (solutions steps : Option Nat) (scope : SearchScope) : Bool :=
  solutions.any (· ≤ scope.solutions) || steps.any (· ≤ scope.steps)

/-- A number has come to the smallest of the limits if it has come to one of them. -/
theorem any_min? (limits : List Nat) (count : Nat) :
    limits.min?.any (· ≤ count) = limits.any (· ≤ count) := by
  rw [Bool.eq_iff_iff, Option.any_eq_true, List.any_eq_true]
  simp only [decide_eq_true_eq]
  constructor
  · rintro ⟨least, found, less⟩
    exact ⟨least, (List.min?_eq_some_iff.mp found).1, less⟩
  · rintro ⟨limit, member, less⟩
    cases found : limits.min? with
    | none =>
        rw [List.min?_eq_none_iff.mp found] at member
        cases member
    | some least =>
        exact ⟨least, rfl, Nat.le_trans ((List.min?_eq_some_iff.mp found).2 limit member) less⟩

mutual

theorem reached_eq (scope : SearchScope) : ∀ {t : Termination}, t.Timeless →
    t.reached scope =
      (t.solutionLimits.any (· ≤ scope.solutions) || t.stepLimits.any (· ≤ scope.steps))
  | .solutionCount limit, _ => by simp [reached, solutionLimits, stepLimits]
  | .stepCount limit, _ => by simp [reached, solutionLimits, stepLimits]
  | .any terminations, timeless => anyReached_eq scope timeless

theorem anyReached_eq (scope : SearchScope) : ∀ {ts : List Termination}, AllTimeless ts →
    anyReached scope ts = ((allSolutionLimits ts).any (· ≤ scope.solutions) ||
      (allStepLimits ts).any (· ≤ scope.steps))
  | [], _ => rfl
  | t :: ts, ⟨timeless, others⟩ => by
      rw [anyReached, reached_eq scope timeless, anyReached_eq scope others, allSolutionLimits,
        allStepLimits, List.any_append, List.any_append]
      ac_rfl

end

/-- There is a termination, and it says that the run is to stop. -/
def isReached (t : Option Termination) (scope : SearchScope) : Bool :=
  (t.map (·.reached scope)).getD false

theorem isReached_orElse (a b : Option Termination) (scope : SearchScope) :
    isReached (orElse a b) scope = (isReached a scope || isReached b scope) := by
  cases a <;> cases b <;> simp [orElse, isReached, reached, anyReached]

theorem isReached_ofLimits {limits : Limits} (timeless : limits.timeLimit = none)
    (scope : SearchScope) :
    isReached (ofLimits limits) scope = (limits.solutionLimit.any (· ≤ scope.solutions) ||
      limits.stepLimit.any (· ≤ scope.steps)) := by
  unfold ofLimits
  rw [timeless]
  cases limits.solutionLimit <;> cases limits.stepLimit <;>
    simp [isReached, reached, anyReached]

end Termination

namespace QuerySetup

variable {setup : QuerySetup} {entropy : UInt64} {q : Query}

open Termination

/-- The setup with limits in its configuration and further terminations. -/
def limitedBy (setup : QuerySetup) (limits : Limits) (added : List Termination) : QuerySetup :=
  { setup with config := { setup.config with termination := some limits } }.terminateAll added

/-- The smallest of the limits for solutions. -/
def solutionLimit (limits : Limits) (added : List Termination) : Option Nat :=
  (limits.solutionLimit.toList ++ allSolutionLimits added).min?

/-- The smallest of the limits for forced suspensions. -/
def stepLimit (limits : Limits) (added : List Termination) : Option Nat :=
  (limits.stepLimit.toList ++ allStepLimits added).min?

theorem terminateAll_eq (setup : QuerySetup) (added : List Termination) :
    ∃ t, setup.terminateAll added = { setup with termination := t } ∧ ∀ scope,
      isReached t scope = (isReached setup.termination scope || anyReached scope added) := by
  induction added generalizing setup with
  | nil => exact ⟨setup.termination, rfl, by simp [anyReached]⟩
  | cons extra added ih =>
      obtain ⟨t, same, reached⟩ := ih (setup.terminate extra)
      refine ⟨t, same, fun scope => ?_⟩
      rw [reached, anyReached, terminate, isReached_orElse, Bool.or_assoc]
      rfl

/-- The termination of a query. -/
def terminatedBy (setup : QuerySetup) : Option Termination :=
  orElse (ofConfig setup.config) setup.termination

/-- A query is built exactly if the configuration is consistent, the projection is possible and
the facets of the solver can be set. -/
theorem returns_build : Returns (setup.build entropy) (.ok q) ↔
    setup.config.validate = .ok () ∧ checkProjection setup.goal setup.projection = .ok () ∧
      ∃ root, setup.rootOf ((configuredPasses setup.config entropy).1 ++ setup.passes) = .ok root ∧
        q = ⟨setup.goal, setup.projection, root, setup.terminatedBy⟩ := by
  unfold build
  cases setup.config.validate with
  | error cause =>
      constructor
      · rintro ⟨before, after, ran⟩
        cases (runs_pure.mp ran).1
      · rintro ⟨valid, _⟩
        cases valid
  | ok _ =>
      dsimp only
      cases checkProjection setup.goal setup.projection with
      | error e =>
          constructor
          · rintro ⟨before, after, ran⟩
            cases (runs_pure.mp ran).1
          · rintro ⟨_, possible, _⟩
            cases possible
      | ok _ =>
          dsimp only
          have notified : ∀ notices : List Notice, Always (notices.forM Engine.notify) () := by
            intro notices
            induction notices with
            | nil => exact always_pure ()
            | cons notice notices ih => exact (always_modify _).bind ih
          constructor
          · rintro ⟨before, after, ran⟩
            obtain ⟨_, _, _, ran⟩ := runs_bind.mp ran
            obtain ⟨_, _, _, ran⟩ := runs_bind.mp ran
            split at ran
            · cases (runs_pure.mp ran).1
            · rename_i root rooted
              cases (runs_pure.mp ran).1
              exact ⟨rfl, rfl, root, rooted, rfl⟩
          · rintro ⟨_, _, root, rooted, rfl⟩
            rw [rooted]
            apply Always.returns
            apply (notified _).bind
            exact (always_modify _).bind (always_pure _)

/-- Limits take part in nothing but the termination. -/
theorem build_limitedBy {limits : Limits} {added : List Termination}
    (free : setup.config.termination = none) (unlimited : setup.termination = none)
    (built : Returns (setup.build entropy) (.ok q))
    (positive : limits.solutionLimit ≠ some 0) (timeless : limits.timeLimit = none)
    (counts : AllTimeless added) :
    ∃ t, Returns ((setup.limitedBy limits added).build entropy)
        (.ok { q with termination := t }) ∧
      ∀ scope, isReached t scope =
        countsTo (solutionLimit limits added) (stepLimit limits added) scope := by
  obtain ⟨valid, projected, root, rooted, rfl⟩ := returns_build.mp built
  obtain ⟨t, same, reached⟩ := terminateAll_eq
    { setup with config := { setup.config with termination := some limits } } added
  refine ⟨orElse (ofLimits limits) t, returns_build.mpr ?_, fun scope => ?_⟩
  · rw [limitedBy, same]
    refine ⟨?_, projected, root, rooted, rfl⟩
    rw [QueryConfig.validate, free] at valid
    rw [QueryConfig.validate]
    dsimp only [Option.bind_some]
    rw [if_neg positive]
    exact valid
  · rw [isReached_orElse, reached, isReached_ofLimits timeless, anyReached_eq scope counts,
      unlimited, countsTo, solutionLimit, stepLimit, any_min?, any_min?, List.any_append,
      List.any_append]
    have listed : ∀ (limit : Option Nat) count,
        limit.toList.any (fun n => n ≤ count) = limit.any (· ≤ count) := by
      intro limit count
      cases limit <;> simp
    rw [listed, listed]
    change (_ || _ || (false || (_ || _))) = _
    rw [Bool.false_or]
    ac_rfl

end QuerySetup

/-! ## Runs of queries with a termination -/

namespace Run

variable {clock : Clock} {program : Program} {q : Query} {t : Option Termination}
variable {run last : Run} {before after : Session} {count : Nat} {played : List Turn}

/-- The turns before the first that the termination does not let happen. -/
def cut (reached : SearchScope → Bool) (played : List Turn) : List Turn :=
  played.takeWhile fun turn => !reached turn.scope

theorem cut_cons (reached : SearchScope → Bool) (turn : Turn) (played : List Turn) :
    cut reached (turn :: played) =
      if reached turn.scope then [] else turn :: cut reached played := by
  unfold cut
  cases stops : reached turn.scope <;> simp [stops]

/-- Either all turns come before the cut, or there is a first that does not. -/
theorem cut_eq_or (reached : SearchScope → Bool) (played : List Turn) :
    cut reached played = played ∨ ∃ turn rest, played = cut reached played ++ turn :: rest := by
  have split := List.takeWhile_append_dropWhile (p := fun turn : Turn => !reached turn.scope)
    (l := played)
  cases left : played.dropWhile fun turn : Turn => !reached turn.scope with
  | nil =>
      rw [left, List.append_nil] at split
      exact .inl split
  | cons turn rest =>
      rw [left] at split
      exact .inr ⟨turn, rest, split.symm⟩

theorem getElem?_cut {cut : List Turn} {turn : Turn} {rest : List Turn}
    (split : played = cut ++ turn :: rest) : played[cut.length]? = some turn := by
  rw [split, List.getElem?_append_right (Nat.le_refl _), Nat.sub_self]
  rfl

theorem take_cut {cut : List Turn} {turn : Turn} {rest : List Turn}
    (split : played = cut ++ turn :: rest) : played.take cut.length = cut := by
  rw [split, List.take_left]

/-- A termination that is not reached takes no part in a turn. -/
theorem turn_unreached (free : q.termination = none)
    (goesOn : Termination.isReached t run.scope = false) (s : Stream) :
    run.turn program { q with termination := t } s = run.turn program q s := by
  have unfree : run.isTerminated q = false := by
    rw [isTerminated, free]
    rfl
  have limited : run.isTerminated { q with termination := t } = false := goesOn
  rw [turn_moved limited, turn_moved unfree]
  rfl

theorem always_finish (q : Query) {s : Stream} (searches : run.stream = some s) :
    Always (run.finish q) { run with stream := none } := by
  rw [finish, searches]
  apply (always_modify _).bind
  apply (q.root.always_fire _ _).bind
  exact (always_modify _).bind (always_pure _)

/-- A termination that is reached ends a run that is under way. -/
theorem always_turn_reached {s : Stream} (searches : run.stream = some s)
    (stops : Termination.isReached t run.scope = true) :
    Always (run.turn program { q with termination := t } s)
      (⟨none, run.scope, true⟩, .stopped run.scope) := by
  have limited : run.isTerminated { q with termination := t } = true := stops
  rw [turn_stopped limited]
  have ends : Always (Run.finish { q with termination := t } { run with terminatedEarly := true })
      ⟨none, run.scope, true⟩ := always_finish _ searches
  exact ((always_modify _).bind ends).map _

/-- A run with a termination makes the turns of the run without, up to the first at which the
termination is reached.  There it stops. -/
theorem course_cut (free : q.termination = none)
    (ran : Runs (run.course clock program q count) before (last, played) after) :
    (cut (Termination.isReached t) played = played →
      Runs (run.course clock program { q with termination := t } count) before (last, played)
        after) ∧
    ∀ turn rest, played = cut (Termination.isReached t) played ++ turn :: rest →
      ∃ mid, Runs (run.course clock program { q with termination := t } count) before
          (⟨none, turn.scope, true⟩,
            cut (Termination.isReached t) played ++ [.stopped turn.scope]) mid := by
  induction count generalizing run before played with
  | zero =>
      obtain ⟨same, rfl⟩ := runs_pure.mp ran
      cases same
      exact ⟨fun _ => rfl, nofun⟩
  | succ count ih =>
      cases searches : run.stream with
      | none =>
          obtain ⟨rfl, rfl, rfl⟩ := (runs_course_nil _ searches).mp ran
          exact ⟨fun _ => (runs_course_nil _ searches).mpr ⟨rfl, rfl, rfl⟩, nofun⟩
      | some s =>
          obtain ⟨turn, later, next, mid, rfl, turns, goesOn⟩ := (runs_course_succ searches).mp ran
          obtain ⟨_, here, _⟩ := runs_turn turns
          rw [cut_cons]
          cases stops : Termination.isReached t turn.scope with
          | true =>
              refine ⟨nofun, ?_⟩
              rintro _ rest ⟨⟩
              rw [here] at stops ⊢
              have underWay : (run.timed clock).stream = some s := searches
              obtain ⟨stopped, ran⟩ := always_turn_reached underWay stops before
              exact ⟨stopped, (runs_course_succ searches).mpr ⟨_, [], _, stopped, rfl, ran,
                (runs_course_nil _ rfl).mpr ⟨rfl, rfl, rfl⟩⟩⟩
          | false =>
              rw [here] at stops
              rw [← turn_unreached free stops] at turns
              obtain ⟨whole, part⟩ := ih goesOn
              constructor
              · intro same
                exact (runs_course_succ searches).mpr ⟨turn, later, next, mid, rfl, turns,
                  whole (List.cons.inj same).2⟩
              · intro first rest split
                obtain ⟨stopped, ran⟩ := part first rest (List.cons.inj split).2
                exact ⟨stopped, (runs_course_succ searches).mpr ⟨turn, _, next, mid, rfl, turns,
                  ran⟩⟩

/-- One more report of nothing is one of those that follow anyway. -/
theorem padded_append_none (count steps : Nat) (reports : List Pull) :
    padded count steps (reports ++ [⟨none, steps⟩]) = padded count steps reports := by
  unfold padded
  rcases Nat.lt_or_ge reports.length count with less | enough
  · obtain ⟨more, rfl⟩ := Nat.exists_eq_add_of_lt less
    have all : (reports ++ [(⟨none, steps⟩ : Pull)]).length ≤ reports.length + more + 1 := by
      simp
    have left : reports.length + more + 1 - reports.length = more + 1 := by omega
    have leftNext : reports.length + more + 1 - (reports.length + 1) = more := by omega
    rw [List.take_of_length_le all, List.take_of_length_le (by omega), left, List.length_append,
      List.length_singleton, leftNext, List.append_assoc]
    rfl
  · simp [List.take_append_of_le_length enough, Nat.sub_eq_zero_of_le enough,
      Nat.sub_eq_zero_of_le (Nat.le_succ_of_le enough)]

end Run

/-- Counting terminations cut a run to a prefix.  A setup without a termination and the same
setup with configured limits and further terminations that only count build the same query but
for the termination.  Of the turns of a run of the former, the latter makes those before the
first at which as many solutions were yielded or suspensions forced as the smallest of its limits
says; there it stops.  Its pulls give
what is reported of these turns, and then nothing. -/
theorem QuerySetup.limits_cut {setup : QuerySetup} {entropy : UInt64} {q : Query}
    {limits : Limits} {added : List Termination} (free : setup.config.termination = none)
    (unlimited : setup.termination = none) (built : Returns (setup.build entropy) (.ok q))
    (positive : limits.solutionLimit ≠ some 0) (timeless : limits.timeLimit = none)
    (counts : Termination.AllTimeless added) :
    ∃ limited, Returns ((setup.limitedBy limits added).build entropy) (.ok limited) ∧
      limited = { q with termination := limited.termination } ∧
      ∀ (clock : Clock) (program : Program) (count : Nat) (before after : Session) (last : Run)
        (played : List Run.Turn),
        Runs (q.course clock program count) before (last, played) after →
        let cut := Run.cut (Termination.countsTo (solutionLimit limits added)
          (stepLimit limits added)) played
        (∀ i turn, played[i]? = some turn →
          turn.scope.solutions = (played.take i).countP Run.Turn.isYield ∧
          turn.scope.steps = (played.take i).countP Run.Turn.isForced) ∧
        (cut = played → Runs (limited.course clock program count) before (last, played) after) ∧
        (∀ turn rest, played = cut ++ turn :: rest → ∃ mid,
          Runs (limited.course clock program count) before
            (⟨none, turn.scope, true⟩, cut ++ [.stopped turn.scope]) mid) ∧
        (∀ moves calls, played.length < moves →
          cut ≠ played ∨ last.stream = none ∨ calls ≤ (Run.answers q cut).length → ∃ run mid,
          Runs (limited.calls clock program moves calls) before
            (run, Run.padded calls (cut.countP Run.Turn.isForced) (Run.answers q cut)) mid) := by
  obtain ⟨t, builtLimited, reached⟩ :=
    build_limitedBy free unlimited built positive timeless counts
  refine ⟨_, builtLimited, rfl, ?_⟩
  intro clock program count before after last played ran
  have endless : q.termination = none := by
    obtain ⟨_, _, _, _, rfl⟩ := returns_build.mp built
    rw [terminatedBy, Termination.ofConfig, free, unlimited]
    rfl
  rw [← funext reached]
  obtain ⟨run, begun, starts, course⟩ := runs_bind.mp ran
  obtain ⟨each, stepsLast, _⟩ := Run.runs_course_scope course
  obtain ⟨whole, part⟩ := Run.course_cut (t := t) endless course
  rw [Run.runs_start starts] at each stepsLast
  simp only [SearchScope.start, Nat.zero_add] at each stepsLast
  refine ⟨fun i turn there => (each i turn there).symm, ?_, ?_, ?_⟩
  · exact fun same => runs_bind.mpr ⟨run, begun, starts, whole same⟩
  · intro turn rest split
    obtain ⟨mid, ran⟩ := part turn rest split
    exact ⟨mid, runs_bind.mpr ⟨run, begun, starts, ran⟩⟩
  · intro moves calls enough ended
    rcases Run.cut_eq_or (Termination.isReached t) played with same | ⟨turn, rest, split⟩
    · rw [same]
      obtain ⟨limited, fewer, _⟩ := Run.runs_course_length (whole same)
      rw [same] at ended
      obtain ⟨next, mid, ran⟩ := Run.calls_of_course calls limited
        (ended.resolve_left (absurd rfl)) enough
      rw [stepsLast] at ran
      exact ⟨next, mid, runs_bind.mpr ⟨run, begun, starts, ran⟩⟩
    · obtain ⟨mid, ran⟩ := part turn rest split
      obtain ⟨limited, _, _⟩ := Run.runs_course_length ran
      have cutSteps := (each _ turn (Run.getElem?_cut split)).1
      rw [Run.take_cut split] at cutSteps
      generalize Run.cut (Termination.isReached t) played = cut at *
      have shorter : (cut ++ [Run.Turn.stopped turn.scope]).length < moves := by
        rw [split, List.length_append, List.length_cons] at enough
        rw [List.length_append, List.length_singleton]
        omega
      obtain ⟨next, mid, ran⟩ := Run.calls_of_course calls limited (.inl rfl) shorter
      have stopped : Run.answers { q with termination := t } (cut ++ [.stopped turn.scope]) =
          Run.answers q cut ++ [⟨none, turn.scope.steps⟩] := List.filterMap_append
      rw [stopped, Run.padded_append_none, cutSteps] at ran
      exact ⟨next, mid, runs_bind.mpr ⟨run, begun, starts, ran⟩⟩

/-- A relation with three rows is asked for its rows. -/
def QuerySetup.threeRows : QuerySetup :=
  let rows : List Row := [[.int 1], [.int 2], [.int 3]]
  let digits : Relation := ⟨"digit", .declared ⟨1, .listed rows, .exact 3, []⟩⟩
  { QuerySetup.ofGoal (.relation ⟨digits, [.var (.numbered 1)], .natural⟩) with
    projection := [.numbered 1] }

/-- The query for three rows. -/
def Query.threeRows : Query where
  goal := QuerySetup.threeRows.goal
  projection := [.numbered 1]
  root := ⟨[⟨.unification, OccursCheck.disabled⟩, ⟨.planner, Pipeline.standard 0⟩]⟩
  termination := none

/-- A run with three solutions is cut after the second by a solution limit, since neither of two
step limits is reached before. -/
theorem QuerySetup.limits_cut_threeRows :
    Returns (threeRows.build 0) (.ok .threeRows) ∧
      ∃ limited last played after run pulls mid,
        Returns ((threeRows.limitedBy ⟨some 2, some 9, none, none⟩ [.stepCount 7]).build 0)
          (.ok limited) ∧
        Runs (Query.threeRows.course .still ⟨[], 0⟩ 12) (.start 1 0) (last, played) after ∧
        (Run.answers .threeRows played).length = 4 ∧
        Runs (limited.calls .still ⟨[], 0⟩ 12 5) (.start 1 0) (run, pulls) mid ∧
        pulls.map (·.pulled.isSome) = [true, true, false, false, false] := by
  have built : Returns (threeRows.build 0) (.ok .threeRows) := ⟨.start 1 0, _, rfl⟩
  have positive : Limits.solutionLimit ⟨some 2, some 9, none, none⟩ ≠ some 0 := nofun
  have timeless : Limits.timeLimit ⟨some 2, some 9, none, none⟩ = none := rfl
  have counts : Termination.AllTimeless [.stepCount 7] := ⟨trivial, trivial⟩
  obtain ⟨limited, builtLimited, _, cuts⟩ := limits_cut rfl rfl built positive timeless counts
  have solutions : solutionLimit ⟨some 2, some 9, none, none⟩ [.stepCount 7] = some 2 := rfl
  have steps : stepLimit ⟨some 2, some 9, none, none⟩ [.stepCount 7] = some 7 := rfl
  rw [solutions, steps] at cuts
  have counted : (match ((Query.threeRows.course .still ⟨[], 0⟩ 12).run.run (.start 1 0)).1 with
      | .ok (_, played) =>
          let before := Run.cut (Termination.countsTo (some 2) (some 7)) played
          decide ((Run.answers .threeRows played).length = 4 ∧ played.length < 12 ∧
            before.length ≠ played.length ∧
            (Run.answers .threeRows before).map (·.pulled.isSome) = [true, true])
      | .error _ => false) = true := by decide +kernel
  split at counted
  · rename_i last played ended
    obtain ⟨four, enough, shorter, two⟩ := of_decide_eq_true counted
    obtain ⟨after, ran⟩ := exists_runs ended
    obtain ⟨run, mid, pulls⟩ := (cuts _ _ _ _ _ _ _ ran).2.2.2 12 5 enough
      (.inl fun same => shorter (congrArg List.length same))
    refine ⟨built, limited, last, played, after, run, _, mid, builtLimited, ran, four, pulls, ?_⟩
    have length := congrArg List.length two
    rw [List.length_map] at length
    rw [Run.padded, List.take_of_length_le (by rw [length]; decide), List.map_append, two, length]
    rfl
  · cases counted

end RelationalSolver
