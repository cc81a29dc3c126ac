import RelationalSolver.Proofs.Query.Turns
import RelationalSolver.Proofs.Stream.Discretion

/-!
# The lifecycle of runs

A run announces its start before anything else, every solution that it returns, and its end after
all of them, once, however it comes to its end: by the termination, because nothing is left to
search, with a fault, or because it is given up.  The statistics that it leaves behind say the
same as the announcement.
-/

namespace RelationalSolver

open Engine

namespace Session

variable {hooks : Option Registry}

/-- The session with other results of runs. -/
def noting (statistics : Statistics) (latest : Option Solution) (s : Session) : Session :=
  { s with statistics := statistics, latest := latest }

/-- Observers do not care for the results of runs. -/
theorem tell_noting (statistics : Statistics) (latest : Option Solution) (event : Event)
    (s : Session) :
    (s.noting statistics latest).tell hooks event =
      (s.tell hooks event).noting statistics latest := by
  cases hooks with
  | none => rfl
  | some registry =>
      unfold tell
      dsimp only
      generalize registry.receivers event.key = observers
      induction observers generalizing s with
      | nil => rfl
      | cons observer observers ih =>
          rw [List.foldl_cons, List.foldl_cons, ← ih]
          cases observer <;> rfl

theorem statistics_tell (event : Event) (s : Session) :
    (s.tell hooks event).statistics = s.statistics := by
  have same : (s.tell hooks event).statistics = _ :=
    congrArg Session.statistics (tell_noting s.statistics s.latest event s)
  exact same

theorem latest_tell (event : Event) (s : Session) : (s.tell hooks event).latest = s.latest := by
  have same : (s.tell hooks event).latest = _ :=
    congrArg Session.latest (tell_noting s.statistics s.latest event s)
  exact same

theorem Extends.noting (statistics : Statistics) (latest : Option Solution) (s : Session) :
    s.Extends (s.noting statistics latest) := ⟨List.prefix_rfl, List.prefix_rfl⟩

theorem lifecycle_noting (statistics : Statistics) (latest : Option Solution) (s : Session) :
    (s.noting statistics latest).lifecycle = s.lifecycle.noting statistics latest := rfl

theorem tellAll_cons (event : Event) (events : List Event) (s : Session) :
    s.tellAll hooks (event :: events) = (s.tell hooks event).tellAll hooks events := rfl

theorem tellAll_append (events others : List Event) (s : Session) :
    s.tellAll hooks (events ++ others) = (s.tellAll hooks events).tellAll hooks others :=
  List.foldl_append

theorem tellAll_noting (statistics : Statistics) (latest : Option Solution) (events : List Event)
    (s : Session) :
    (s.noting statistics latest).tellAll hooks events =
      (s.tellAll hooks events).noting statistics latest := by
  induction events generalizing s with
  | nil => rfl
  | cons event events ih => rw [tellAll_cons, tell_noting, ih, ← tellAll_cons]

end Session

/-- The solution that a pull gave. -/
def Run.Pull.solution? (pull : Run.Pull) : Option Solution :=
  match pull.pulled with
  | some (.ok solution) => some solution
  | _ => none

/-- A solution is announced with its index. -/
def Solution.announced (solution : Solution) : Event :=
  ⟨.querySolution, .solution solution.index, solution.bindingsMade⟩

namespace Query

/-- The start of a run is announced. -/
def started (q : Query) : Event := ⟨.queryStarted, .nothing, q.root.bindingsMade⟩

/-- The end of a run is announced with the numbers of forced suspensions and of solutions. -/
def ended (q : Query) (steps solutions : Nat) : Event :=
  ⟨.queryEnded, .lifecycle steps solutions, q.root.bindingsMade⟩

end Query

namespace Run

variable {clock : Clock} {program : Program} {q : Query} {run next last final : Run} {s : Stream}
variable {before mid after : Session} {moves count : Nat} {played : List Turn}

/-- What is left to search carries contexts with the hooks of the root only. -/
def Hooked (q : Query) (run : Run) : Prop :=
  ∀ s, run.stream = some s → Discipline.Hands (Context.Hooked q.root.hooks?) s

/-- The statistics of the run as far as it has come. -/
def statistics (run : Run) : Statistics :=
  ⟨run.scope.elapsed, run.scope.steps, run.scope.solutions, run.terminatedEarly⟩

/-- What is announced of turns. -/
def solutions (q : Query) (played : List Turn) : List Solution :=
  (answers q played).filterMap Pull.solution?

/-- Between the sessions the solutions were announced, and nothing else of whole runs. -/
structure Announces (q : Query) (before : Session) (found : List Solution) (after : Session) :
    Prop where
  kept : before.Extends after
  shown : after.lifecycle = (before.lifecycle.tellAll q.root.hooks?
    (found.map (·.announced))).noting before.statistics (found.getLast?.or before.latest)

/-- Between the sessions the solutions were announced and then the end of the run, and nothing
else of whole runs. -/
structure Closes (q : Query) (before : Session) (found : List Solution) (last : Run)
    (after : Session) : Prop where
  ended : last.stream = none
  kept : before.Extends after
  shown : after.lifecycle = (before.lifecycle.tellAll q.root.hooks? (found.map (·.announced) ++
    [q.ended last.scope.steps last.scope.solutions])).noting last.statistics
      (found.getLast?.or before.latest)

theorem Announces.statistics {found : List Solution} (announces : Announces q before found after) :
    after.statistics = before.statistics := by
  have same : after.lifecycle.statistics = _ := congrArg Session.statistics announces.shown
  exact same

theorem Announces.latest {found : List Solution} (announces : Announces q before found after) :
    after.latest = found.getLast?.or before.latest := congrArg Session.latest announces.shown

theorem Announces.of_same (kept : before.Extends after)
    (same : after.lifecycle = before.lifecycle) : Announces q before [] after := ⟨kept, same⟩

theorem Announces.trans {found more : List Solution} (first : Announces q before found mid)
    (later : Announces q mid more after) : Announces q before (found ++ more) after where
  kept := first.kept.trans later.kept
  shown := by
    rw [later.shown, first.shown, Session.tellAll_noting, first.statistics, first.latest,
      List.map_append,
      Session.tellAll_append, List.getLast?_append, Option.or_assoc]
    rfl

theorem Announces.closes {found more : List Solution} (first : Announces q before found mid)
    (later : Closes q mid more last after) : Closes q before (found ++ more) last after where
  ended := later.ended
  kept := first.kept.trans later.kept
  shown := by
    rw [later.shown, first.shown, Session.tellAll_noting, first.latest, List.map_append,
      List.append_assoc, Session.tellAll_append (found.map _), List.getLast?_append,
      Option.or_assoc]
    rfl

/-- A solution is announced and remembered as the latest. -/
theorem announces_solution (q : Query) (solution : Solution) (s : Session) :
    Announces q s [solution]
      { s.tell q.root.hooks? solution.announced with latest := some solution } := by
  have same : { s.tell q.root.hooks? solution.announced with latest := some solution } =
      (s.tell q.root.hooks? solution.announced).noting s.statistics (some solution) := by
    rw [← Session.statistics_tell solution.announced s]
    rfl
  rw [same]
  refine ⟨(Session.Extends.tell _ _ s).trans (.noting _ _ _), ?_⟩
  rw [Session.lifecycle_noting, Session.lifecycle_tell, if_pos (by rfl)]
  rfl

/-- A run that ends leaves its statistics behind and announces its end. -/
theorem finish_closes (searches : run.stream = some s)
    (ran : Runs (run.finish q) before next after) : Closes q before [] next after := by
  obtain rfl := runs_finish ran
  rw [finish_some q searches] at ran
  obtain ⟨_, noted, notes, ran⟩ := runs_bind.mp ran
  obtain ⟨_, told, tells, ran⟩ := runs_bind.mp ran
  obtain ⟨_, written, writes, ran⟩ := runs_bind.mp ran
  obtain ⟨_, rfl⟩ := runs_pure.mp ran
  rw [Context.fire_eq_tell] at tells
  cases notes
  cases tells
  cases writes
  refine ⟨rfl, ?_, ?_⟩
  · apply (Session.Extends.noting run.statistics before.latest before).trans
    exact (Session.Extends.tell _ _ _).trans (.write _ _)
  · rw [Session.lifecycle_write _ rfl, Session.lifecycle_tell, if_pos (by rfl)]
    exact Session.tell_noting run.statistics before.latest _ before.lifecycle

theorem solutions_nil : solutions q [] = [] := rfl

theorem solutions_cons (turn : Turn) (played : List Turn) :
    solutions q (turn :: played) = solutions q [turn] ++ solutions q played := by
  unfold solutions answers
  rw [← List.filterMap_append, ← List.filterMap_append]
  rfl

/-- A turn announces its solution if it has one, and then that the run ends if it does. -/
theorem turn_shows {turn : Turn} (searches : run.stream = some s) (hooked : run.Hooked q)
    (ran : Runs (run.turn program q s) before (next, turn) after) :
    Closes q before (solutions q [turn]) next after ∨
      (next.stream.isSome ∧ next.Hooked q ∧ Announces q before (solutions q [turn]) after) := by
  cases stops : run.isTerminated q with
  | true =>
      rw [turn_stopped stops] at ran
      obtain ⟨ended, stopped, same⟩ := runs_map.mp ran
      cases same
      obtain ⟨_, written, writes, finished⟩ := runs_bind.mp stopped
      cases writes
      left
      have notified : Announces q before [] (before.write
          (.terminated run.scope.steps run.scope.solutions)) :=
        .of_same (.write _ _) (before.lifecycle_write rfl)
      have underWay : ({ run with terminatedEarly := true } : Run).stream = some s := searches
      exact notified.closes (finish_closes underWay finished)
  | false =>
      rw [turn_moved stops] at ran
      obtain ⟨move, between, moved, rest⟩ := runs_bind.mp ran
      obtain ⟨left, accepted, same⟩ := runs_map.mp rest
      cases same
      obtain ⟨same, kept, carries⟩ := (Stream.step_minds program (hooked s searches)).runs moved
      have searched : Announces q before [] between := .of_same kept same
      cases move with
      | done => exact .inl (searched.closes (finish_closes rfl accepted))
      | fault fault => exact .inl (searched.closes (finish_closes rfl accepted))
      | forced rest =>
          obtain ⟨rfl, rfl⟩ := runs_pure.mp accepted
          refine .inr ⟨rfl, ?_, searched⟩
          rintro _ ⟨⟩
          exact carries
      | yield ctx rest =>
          obtain ⟨_, told, tells, accepted⟩ := runs_bind.mp accepted
          obtain ⟨_, noted, notes, accepted⟩ := runs_bind.mp accepted
          obtain ⟨rfl, rfl⟩ := runs_pure.mp accepted
          rw [Context.fire_eq_tell, carries.1] at tells
          cases tells
          cases notes
          refine .inr ⟨rfl, ?_, searched.trans (announces_solution q _ between)⟩
          rintro _ ⟨⟩
          exact carries.2

/-- The course of a run that is given up after it announces its solutions and then its end. -/
theorem course_closes (live : run.stream.isSome) (hooked : run.Hooked q)
    (ran : Runs (run.course clock program q count) before (last, played) mid)
    (ended : Runs (last.finish q) mid final after) :
    Closes q before (solutions q played) final after := by
  induction count generalizing run before played with
  | zero =>
      obtain ⟨same, rfl⟩ := runs_pure.mp ran
      cases same
      obtain ⟨s, searches⟩ := Option.isSome_iff_exists.mp live
      exact finish_closes searches ended
  | succ count ih =>
      obtain ⟨s, searches⟩ := Option.isSome_iff_exists.mp live
      obtain ⟨turn, later, next, between, rfl, turns, goesOn⟩ := (runs_course_succ searches).mp ran
      have underWay : (run.timed clock).stream = some s := searches
      have carries : (run.timed clock).Hooked q := hooked
      rw [solutions_cons]
      rcases turn_shows underWay carries turns with closes | ⟨still, passed, announces⟩
      · obtain ⟨rfl, rfl, rfl⟩ := (runs_course_nil _ closes.ended).mp goesOn
        rw [finish_ended q closes.ended] at ended
        obtain ⟨rfl, rfl⟩ := runs_pure.mp ended
        rw [solutions_nil, List.append_nil]
        exact closes
      · exact announces.closes (ih still passed goesOn)

theorem turn_numbers {turn : Turn} (here : turn.scope = run.scope) :
    (solutions q [turn]).map (·.index) =
        List.range' run.scope.solutions (solutions q [turn]).length ∧
      (turn.leaves run).scope.solutions = run.scope.solutions + (solutions q [turn]).length ∧
      (turn.leaves run).terminatedEarly = (run.terminatedEarly || turn.isStop) := by
  match turn, here with
  | .stopped scope, _ => exact ⟨rfl, rfl, (Bool.or_true _).symm⟩
  | .moved scope .done, _ => exact ⟨rfl, rfl, (Bool.or_false _).symm⟩
  | .moved scope (.fault fault), _ => exact ⟨rfl, rfl, (Bool.or_false _).symm⟩
  | .moved scope (.forced rest), _ => exact ⟨rfl, rfl, (Bool.or_false _).symm⟩
  | .moved scope (.yield ctx rest), here =>
      have numbered : [scope.solutions] = [run.scope.solutions] :=
        congrArg (fun scope : SearchScope => [scope.solutions]) here
      exact ⟨numbered, rfl, (Bool.or_false _).symm⟩

/-- Solutions are numbered as they come, and the run is marked if its termination stopped it. -/
theorem runs_course_numbers
    (ran : Runs (run.course clock program q count) before (last, played) after) :
    (solutions q played).map (·.index) =
        List.range' run.scope.solutions (solutions q played).length ∧
      last.scope.solutions = run.scope.solutions + (solutions q played).length ∧
      last.terminatedEarly = (run.terminatedEarly || played.any Turn.isStop) := by
  induction count generalizing run before played with
  | zero =>
      obtain ⟨same, rfl⟩ := runs_pure.mp ran
      cases same
      exact ⟨rfl, rfl, (Bool.or_false _).symm⟩
  | succ count ih =>
      cases searches : run.stream with
      | none =>
          obtain ⟨rfl, rfl, rfl⟩ := (runs_course_nil _ searches).mp ran
          exact ⟨rfl, rfl, (Bool.or_false _).symm⟩
      | some s =>
          obtain ⟨turn, later, next, mid, rfl, turns, goesOn⟩ := (runs_course_succ searches).mp ran
          obtain ⟨rfl, here, _⟩ := runs_turn turns
          obtain ⟨indices, total, early⟩ := ih goesOn
          obtain ⟨index, more, stop⟩ := turn_numbers (q := q) here
          rw [more] at indices total
          rw [solutions_cons, List.map_append, List.length_append, index, indices, total, early,
            stop, List.any_cons]
          exact ⟨List.range'_append_1, Nat.add_assoc _ _ _, Bool.or_assoc _ _ _⟩

/-- A turn stops the run if the termination is reached before it. -/
theorem runs_course_stops
    (ran : Runs (run.course clock program q count) before (last, played) after) :
    ∀ turn ∈ played, turn.isStop = true ↔
      ∃ t, q.termination = some t ∧ t.reached turn.scope = true := by
  induction count generalizing run before played with
  | zero =>
      obtain ⟨same, rfl⟩ := runs_pure.mp ran
      cases same
      exact nofun
  | succ count ih =>
      cases searches : run.stream with
      | none =>
          obtain ⟨rfl, rfl, rfl⟩ := (runs_course_nil _ searches).mp ran
          exact nofun
      | some s =>
          obtain ⟨turn, later, next, mid, rfl, turns, goesOn⟩ := (runs_course_succ searches).mp ran
          obtain ⟨_, here, stops⟩ := runs_turn turns
          refine List.forall_mem_cons.mpr ⟨?_, ih goesOn⟩
          rw [stops, here, isTerminated]
          cases q.termination <;> simp

theorem filterMap_padded {reports : List Pull} (fewer : reports.length ≤ count) (steps : Nat) :
    (padded count steps reports).filterMap Pull.solution? =
      reports.filterMap Pull.solution? := by
  rw [padded, List.take_of_length_le fewer, List.filterMap_append,
    List.filterMap_replicate_of_none rfl, List.append_nil]

/-- After a pull that gives no solution, nothing happens any more. -/
theorem runs_calls_quiet {pulls : List Pull}
    (ran : Runs (run.calls clock program q moves count) before (last, pulls) after) (i : Nat)
    {pull : Pull} (there : pulls[i]? = some pull) (unsolved : pull.solution? = none) :
    Runs (run.calls clock program q moves (i + 1)) before (last, pulls.take (i + 1)) after ∧
      last.stream = none ∧ ∀ later ∈ pulls.drop (i + 1), later.pulled = none := by
  induction count generalizing run before pulls i with
  | zero =>
      obtain ⟨same, rfl⟩ := runs_pure.mp ran
      cases same
      cases there
  | succ count ih =>
      obtain ⟨first, later, next, mid, rfl, pulled, rest⟩ := runs_calls_succ.mp ran
      cases i with
      | zero =>
          cases there
          have ended : next.stream = none := by
            cases searches : run.stream with
            | none => exact (runs_nextBy_ended searches pulled).1 ▸ searches
            | some s =>
                obtain ⟨_, _, _, _, ends⟩ := runs_nextBy searches pulled
                refine ends.resolve_right ?_
                rintro ⟨solution, solved⟩
                rw [Pull.solution?, solved] at unsolved
                cases unsolved
          obtain ⟨rfl, rfl, rfl⟩ := runs_calls_ended ended rest
          refine ⟨runs_calls_succ.mpr ⟨_, [], next, mid, rfl, pulled, rfl⟩, ended, ?_⟩
          intro other member
          rw [List.eq_of_mem_replicate member]
      | succ i =>
          obtain ⟨same, ended, nothing⟩ := ih rest i there
          exact ⟨runs_calls_succ.mpr ⟨first, _, next, mid, rfl, pulled, same⟩, ended, nothing⟩

end Run

namespace Query

variable {clock : Clock} {program : Program} {q : Query} {run : Run} {before after : Session}
variable {moves count : Nat} {pulls : List Run.Pull}

/-- A new run announces its start before anything else happens. -/
theorem start_shows (ran : Runs (Run.start q) before run after) :
    run.stream.isSome ∧ run.Hooked q ∧ run.terminatedEarly = false ∧
      ((before.write (.queryStarted q.projection.length q.goal.name)).tell q.root.hooks?
        q.started).Extends after ∧
      after.lifecycle = before.lifecycle.tell q.root.hooks? q.started := by
  obtain ⟨_, written, writes, ran⟩ := runs_bind.mp ran
  obtain ⟨_, told, tells, ran⟩ := runs_bind.mp ran
  obtain ⟨stream, searched, applies, ran⟩ := runs_bind.mp ran
  obtain ⟨rfl, rfl⟩ := runs_pure.mp ran
  rw [Context.fire_eq_tell] at tells
  cases writes
  cases tells
  have root : q.root.Hooked q.root.hooks? := rfl
  obtain ⟨same, kept, hands⟩ := ((discipline_minds _).apply q.goal root).runs applies
  refine ⟨rfl, ?_, rfl, kept, ?_⟩
  · rintro _ ⟨⟩
    exact hands
  · rw [same, Session.lifecycle_tell, if_pos (by rfl), Session.lifecycle_write _ rfl]
    rfl

/-- Every run is accounted for, by whatever clock its termination goes, however often it is
pulled and whenever it is given up.  Its pulls give what is reported of the turns it takes, and
nothing once it has ended.  Its start is announced before anything else, then every solution that
was returned, with its index, counted from zero, and last its end, once, with the numbers of
forced suspensions and of solutions.  The statistics hold the same numbers, and say whether the
termination was reached while something was left to search.  After a pull that gives nothing or
an error, nothing happens any more. -/
theorem life_accounted (ran : Runs (q.life clock program moves count) before (run, pulls) after) :
    ∃ played last mid, Runs (q.course clock program played.length) before (last, played) mid ∧
      Runs (last.finish q) mid run after ∧
      pulls = Run.padded count run.scope.steps (Run.answers q played) ∧
      let solutions := pulls.filterMap (·.solution?)
      let steps := played.countP Run.Turn.isForced
      solutions.map (·.index) = List.range solutions.length ∧
      ((before.write (.queryStarted q.projection.length q.goal.name)).tell q.root.hooks?
        q.started).Extends after ∧
      after.lifecycle = (before.lifecycle.tellAll q.root.hooks?
        (q.started :: solutions.map (·.announced) ++ [q.ended steps solutions.length])).noting
          after.statistics (solutions.getLast?.or before.latest) ∧
      after.statistics.steps = steps ∧ after.statistics.solutions = solutions.length ∧
      (after.statistics.terminatedEarly = true ↔
        ∃ turn ∈ played, ∃ t, q.termination = some t ∧ t.reached turn.scope = true) ∧
      ∀ i pull, pulls[i]? = some pull → pull.solution? = none →
        Runs (q.calls clock program moves (i + 1)) before (run, pulls.take (i + 1)) after ∧
          ∀ later ∈ pulls.drop (i + 1), later.pulled = none := by
  obtain ⟨⟨last, given⟩, mid, called, ran⟩ := runs_bind.mp ran
  obtain ⟨final, closed, ended, ran⟩ := runs_bind.mp ran
  obtain ⟨same, atEnd⟩ := runs_pure.mp ran
  cases same
  subst atEnd
  obtain ⟨first, begun, starts, calls⟩ := runs_bind.mp called
  obtain ⟨live, hooked, unmarked, opened, shown⟩ := start_shows starts
  obtain ⟨played, course, rfl, fewer, _⟩ := Run.runs_calls calls
  have closes := Run.course_closes live hooked course ended
  obtain ⟨indices, total, early⟩ := Run.runs_course_numbers course
  obtain ⟨_, forced, _⟩ := Run.runs_course_scope course
  have reached := Run.runs_course_stops course
  have finished := Run.runs_finish ended
  have scope : run.scope = last.scope := finished ▸ rfl
  rw [Run.runs_start starts] at indices total forced
  simp only [SearchScope.start, Nat.zero_add] at indices total forced
  rw [← scope] at total forced
  have results : closed.statistics = run.statistics := congrArg Session.statistics closes.shown
  have latest : begun.latest = before.latest :=
    (congrArg Session.latest shown).trans (Session.latest_tell _ _)
  have returned : (Run.padded count last.scope.steps (Run.answers q played)).filterMap
      (·.solution?) = Run.solutions q played := Run.filterMap_padded fewer _
  refine ⟨played, last, mid, runs_bind.mpr ⟨first, begun, starts, course⟩, ended, by rw [scope], ?_⟩
  dsimp only
  rw [returned, results, ← forced, ← total]
  refine ⟨?_, opened.trans closes.kept, ?_, rfl, rfl, ?_, ?_⟩
  · rw [indices, ← total, List.range_eq_range']
  · rw [closes.shown, shown, latest]
    rfl
  · have marked : run.terminatedEarly = played.any Run.Turn.isStop := by
      rw [finished, early, unmarked, Bool.false_or]
    change run.terminatedEarly = true ↔ _
    rw [marked, List.any_eq_true]
    exact exists_congr fun turn => and_congr_right (reached turn)
  · intro i pull there unsolved
    obtain ⟨same, none, nothing⟩ := Run.runs_calls_quiet calls i there unsolved
    rw [Run.finish_ended q none] at ended
    obtain ⟨rfl, rfl⟩ := runs_pure.mp ended
    exact ⟨runs_bind.mpr ⟨first, begun, starts, same⟩, nothing⟩

/-- A recorder listens to the runs of a query that has a solution and then a fault. -/
def faulty : Query where
  goal := .delay (.yieldThenAbort (.raised "test" "broken"))
  projection := []
  root := ⟨[⟨.hooks, Registry.empty.subscribe ["query"] (.recorder 0)⟩]⟩
  termination := some (.stepCount 5)

/-- A run is pulled twice after its fault, and its end is announced once. -/
theorem life_accounted_faulty : ∃ run pulls after,
    Runs (faulty.life .still ⟨[], 0⟩ 5 4) (.start 0 0) (run, pulls) after ∧
      pulls.map (·.solution?.isSome) = [true, false, false, false] ∧
      after.recorded.toList.map (·.key) = [.queryStarted, .querySolution, .queryEnded] ∧
      after.statistics.steps = 1 ∧ after.statistics.terminatedEarly = false ∧
      after.statistics.solutions = (pulls.filterMap (·.solution?)).length ∧
      Runs (faulty.calls .still ⟨[], 0⟩ 5 2) (.start 0 0) (run, pulls.take 2) after := by
  obtain ⟨run, pulls, after, ran, given, recorded, steps, early, error⟩ : ∃ run pulls after,
      Runs (faulty.life .still ⟨[], 0⟩ 5 4) (.start 0 0) (run, pulls) after ∧
      pulls.map (·.solution?.isSome) = [true, false, false, false] ∧
      after.recorded.toList.map (·.key) = [.queryStarted, .querySolution, .queryEnded] ∧
      after.statistics.steps = 1 ∧ after.statistics.terminatedEarly = false ∧
      ∃ pull, pulls[1]? = some pull ∧ pull.solution? = none :=
    ⟨_, _, _, rfl, rfl, rfl, rfl, rfl, _, rfl, rfl⟩
  obtain ⟨pull, there, unsolved⟩ := error
  obtain ⟨_, _, _, _, _, _, _, _, _, _, solutions, _, quiet⟩ := life_accounted ran
  exact ⟨run, pulls, after, ran, given, recorded, steps, early, solutions,
    (quiet 1 pull there unsolved).1⟩

end Query

end RelationalSolver
