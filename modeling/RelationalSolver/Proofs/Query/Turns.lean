import RelationalSolver.Proofs.Session.Engine
import RelationalSolver.Query.Iteration

/-!
# Runs turn by turn

A pull goes through turns: it stops because the termination says so, or it makes one move of
the stream.  The course of a run is the list of its turns, however they are spread over pulls.
The time that a termination looks at is read from a clock before every turn; a clock that
stands still leaves it to the scope.
-/

namespace RelationalSolver

open Engine

/-- How far a run had come by a clock, which may depend on how far it has come otherwise. -/
abbrev Clock := SearchScope → Nat

/-- The clock that stands still. -/
def Clock.still : Clock := SearchScope.elapsed

namespace Run

/-- What a run that has not ended does next. -/
inductive Turn where
  /-- One move of the stream. -/
  | moved (scope : SearchScope) (move : Move)
  /-- The termination says that the run is to stop. -/
  | stopped (scope : SearchScope)

namespace Turn

/-- How far the run had come before. -/
def scope : Turn → SearchScope
  | .moved scope _ => scope
  | .stopped scope => scope

/-- A suspension was forced. -/
def isForced : Turn → Bool
  | .moved _ (.forced _) => true
  | _ => false

/-- A solution was yielded. -/
def isYield : Turn → Bool
  | .moved _ (.yield _ _) => true
  | _ => false

/-- The termination ended the run. -/
def isStop : Turn → Bool
  | .stopped _ => true
  | _ => false

/-- What is reported of the turn, if the pull comes to its end with it. -/
def pull? (q : Query) : Turn → Option Pull
  | .moved scope (.yield ctx _) => some ⟨some (.ok (q.solution ctx scope.solutions)), scope.steps⟩
  | .moved _ (.forced _) => none
  | .moved scope .done => some ⟨none, scope.steps⟩
  | .moved scope (.fault fault) => some ⟨some (.error (.invariant fault)), scope.steps⟩
  | .stopped scope => some ⟨none, scope.steps⟩

/-- What the turn leaves of the run. -/
def leaves (run : Run) : Turn → Run
  | .moved _ (.yield _ rest) => ⟨some rest, run.scope.recordSolution, run.terminatedEarly⟩
  | .moved _ (.forced rest) => ⟨some rest, run.scope.recordStep, run.terminatedEarly⟩
  | .moved _ .done => { run with stream := none }
  | .moved _ (.fault _) => { run with stream := none }
  | .stopped _ => { run with stream := none, terminatedEarly := true }

end Turn

/-- What is reported of turns. -/
def answers (q : Query) (played : List Turn) : List Pull := played.filterMap (·.pull? q)

variable {clock : Clock} {program : Program} {q : Query} {run next last : Run} {s : Stream}
variable {before mid after : Session} {moves count : Nat}

/-- The run when the clock was read. -/
def timed (clock : Clock) (run : Run) : Run :=
  { run with scope := { run.scope with elapsed := clock run.scope } }

/-- Take notice of a move of the stream. -/
def accept (q : Query) (run : Run) : Move → Engine Run
  | .done => { run with stream := some .empty }.finish q
  | .yield ctx rest => do
      ctx.fire .querySolution (.solution run.scope.solutions)
      modify fun s => { s with latest := some (q.solution ctx run.scope.solutions) }
      pure ⟨some rest, run.scope.recordSolution, run.terminatedEarly⟩
  | .forced rest => pure ⟨some rest, run.scope.recordStep, run.terminatedEarly⟩
  | .fault _ => { run with stream := some .empty }.finish q

/-- Stop a run because the termination says so. -/
def stop (q : Query) (run : Run) : Engine Run := do
  Engine.notify (.terminated run.scope.steps run.scope.solutions)
  { run with terminatedEarly := true }.finish q

/-- One turn of a run with something left to search. -/
def turn (program : Program) (q : Query) (run : Run) (s : Stream) : Engine (Run × Turn) := do
  if run.isTerminated q then
    pure (← run.stop q, .stopped run.scope)
  else
    let move ← s.step program
    pure (← run.accept q move, .moved run.scope move)

/-- Pull the next solution by the clock, with at most so many turns. -/
def nextBy (clock : Clock) (program : Program) (q : Query) : Nat → Run → Engine (Run × Pull)
  | 0, _ => throw .unending
  | moves + 1, run =>
      match run.stream with
      | none => pure (run, ⟨none, run.scope.steps⟩)
      | some s => do
          let (run, turn) ← (run.timed clock).turn program q s
          match turn.pull? q with
          | some pull => pure (run, pull)
          | none => nextBy clock program q moves run

/-- Pull by the clock so many times, whatever comes of it. -/
def calls (clock : Clock) (program : Program) (q : Query) (moves : Nat) :
    Nat → Run → Engine (Run × List Pull)
  | 0, run => pure (run, [])
  | count + 1, run => do
      let (run, pull) ← run.nextBy clock program q moves
      let (last, later) ← calls clock program q moves count run
      pure (last, pull :: later)

/-- The first turns of a run by the clock, at most so many, up to its end. -/
def course (clock : Clock) (program : Program) (q : Query) : Nat → Run → Engine (Run × List Turn)
  | 0, run => pure (run, [])
  | count + 1, run =>
      match run.stream with
      | none => pure (run, [])
      | some s => do
          let (run, turn) ← (run.timed clock).turn program q s
          let (last, later) ← course clock program q count run
          pure (last, turn :: later)

/-! ## Pulls and their turns -/

@[simp] theorem timed_still (run : Run) : run.timed .still = run := rfl

@[simp] theorem stream_timed : (run.timed clock).stream = run.stream := rfl

@[simp] theorem steps_timed : (run.timed clock).scope.steps = run.scope.steps := rfl

@[simp] theorem solutions_timed : (run.timed clock).scope.solutions = run.scope.solutions := rfl

theorem finish_ended (q : Query) (ended : run.stream = none) : run.finish q = pure run := by
  rw [finish, ended]
  rfl

theorem finish_some (q : Query) (searches : run.stream = some s) : run.finish q = (do
    modify fun session => { session with statistics :=
      ⟨run.scope.elapsed, run.scope.steps, run.scope.solutions, run.terminatedEarly⟩ }
    q.root.fire .queryEnded (.lifecycle run.scope.steps run.scope.solutions)
    Engine.notify (.queryEnded run.scope.steps run.scope.solutions run.terminatedEarly)
    pure { run with stream := none }) := by
  rw [finish, searches]
  rfl

theorem turn_stopped (stops : run.isTerminated q = true) (s : Stream) :
    run.turn program q s = (·, .stopped run.scope) <$> run.stop q := by
  rw [turn, if_pos stops, map_eq_pure_bind]

theorem turn_moved (goesOn : run.isTerminated q = false) (s : Stream) :
    run.turn program q s = (do
      let move ← s.step program
      (·, .moved run.scope move) <$> run.accept q move) := by
  simp only [turn, goesOn, Bool.false_eq_true, if_false, map_eq_pure_bind]

/-- While the clock stands still, a pull goes through turns until one is reported. -/
theorem nextBy_still (program : Program) (q : Query) (moves : Nat) (run : Run) :
    run.nextBy .still program q moves =
      (fun (run, pulled) => (run, ⟨pulled, run.scope.steps⟩)) <$> run.next program q moves := by
  induction moves generalizing run with
  | zero => rfl
  | succ moves ih =>
      obtain ⟨stream, scope, early⟩ := run
      rw [nextBy, next]
      cases stream with
      | none =>
          dsimp only
          split <;> simp [finish_ended]
      | some s =>
          dsimp only [timed_still]
          split
          · rename_i stops
            rw [turn_stopped stops]
            simp [stop, finish_some, Turn.pull?]
          · rename_i goesOn
            rw [turn_moved (by simpa using goesOn)]
            simp only [map_bind, bind_assoc]
            apply bind_congr
            intro move
            cases move with
            | done => simp [accept, finish_some, Turn.pull?]
            | yield ctx rest => simp [accept, Turn.pull?, SearchScope.recordSolution]
            | forced rest => simp [accept, Turn.pull?, ih]
            | fault fault => simp [accept, finish_some, Turn.pull?]

/-- While the clock stands still, pulls by the clock are pulls one after the other. -/
theorem calls_still (program : Program) (q : Query) (moves count : Nat) (run : Run) :
    run.calls .still program q moves (count + 1) = (do
      let (run, pulled) ← run.next program q moves
      let (last, later) ← run.calls .still program q moves count
      pure (last, ⟨pulled, run.scope.steps⟩ :: later)) := by
  rw [calls, nextBy_still, bind_map_left]

/-! ## Turns -/

theorem runs_start (ran : Runs (start q) before run after) : run.scope = .start := by
  obtain ⟨_, _, _, ran⟩ := runs_bind.mp ran
  obtain ⟨_, _, _, ran⟩ := runs_bind.mp ran
  obtain ⟨_, _, _, ran⟩ := runs_bind.mp ran
  rw [← (runs_pure.mp ran).1]

theorem runs_finish (ran : Runs (run.finish q) before next after) :
    next = { run with stream := none } := by
  rw [finish] at ran
  split at ran
  · rename_i ended
    rw [← (runs_pure.mp ran).1, ← Option.isNone_iff_eq_none.mp ended]
  · obtain ⟨_, _, _, ran⟩ := runs_bind.mp ran
    obtain ⟨_, _, _, ran⟩ := runs_bind.mp ran
    obtain ⟨_, _, _, ran⟩ := runs_bind.mp ran
    exact (runs_pure.mp ran).1.symm

theorem runs_accept {move : Move} (ran : Runs (run.accept q move) before next after)
    (scope : SearchScope) : next = (Turn.moved scope move).leaves run := by
  have ends : Runs (finish q { run with stream := some .empty }) before next after →
      next = { run with stream := none } := runs_finish
  cases move with
  | done => exact ends ran
  | fault fault => exact ends ran
  | forced rest => exact (runs_pure.mp ran).1.symm
  | yield ctx rest =>
      obtain ⟨_, _, _, ran⟩ := runs_bind.mp ran
      obtain ⟨_, _, _, ran⟩ := runs_bind.mp ran
      exact (runs_pure.mp ran).1.symm

/-- A turn stops the run exactly if the termination says so. -/
theorem runs_turn {turn : Turn} (ran : Runs (run.turn program q s) before (next, turn) after) :
    next = turn.leaves run ∧ turn.scope = run.scope ∧ turn.isStop = run.isTerminated q := by
  cases stops : run.isTerminated q with
  | true =>
      rw [turn_stopped stops] at ran
      obtain ⟨ended, stopped, same⟩ := runs_map.mp ran
      cases same
      obtain ⟨_, _, _, finished⟩ := runs_bind.mp stopped
      exact ⟨runs_finish finished, rfl, rfl⟩
  | false =>
      rw [turn_moved stops] at ran
      obtain ⟨move, between, _, ran⟩ := runs_bind.mp ran
      obtain ⟨left, accepted, same⟩ := runs_map.mp ran
      cases same
      exact ⟨runs_accept accepted _, rfl, rfl⟩

namespace Turn

variable {turn : Turn} {pull : Pull}

/-- A turn that is not reported forces a suspension. -/
theorem forced_of_pull? (silent : turn.pull? q = none) :
    ∃ rest, turn = .moved turn.scope (.forced rest) := by
  match turn, silent with
  | .moved scope (.forced rest), _ => exact ⟨rest, rfl⟩

/-- A turn that is reported forces nothing, and ends the run or gives a solution. -/
theorem leaves_of_pull? (reported : turn.pull? q = some pull) (here : turn.scope = run.scope) :
    pull.steps = (turn.leaves run).scope.steps ∧
      ((turn.leaves run).stream = none ∨ ∃ solution, pull.pulled = some (.ok solution)) := by
  have steps : turn.scope.steps = run.scope.steps := congrArg SearchScope.steps here
  match turn, reported, steps with
  | .stopped scope, rfl, steps => exact ⟨steps, .inl rfl⟩
  | .moved scope .done, rfl, steps => exact ⟨steps, .inl rfl⟩
  | .moved scope (.fault fault), rfl, steps => exact ⟨steps, .inl rfl⟩
  | .moved scope (.yield ctx rest), rfl, steps => exact ⟨steps, .inr ⟨_, rfl⟩⟩

theorem scope_leaves (turn : Turn) (run : Run) :
    (turn.leaves run).scope.steps = run.scope.steps + [turn].countP isForced ∧
      (turn.leaves run).scope.solutions = run.scope.solutions + [turn].countP isYield := by
  match turn with
  | .stopped scope => exact ⟨rfl, rfl⟩
  | .moved scope .done => exact ⟨rfl, rfl⟩
  | .moved scope (.fault fault) => exact ⟨rfl, rfl⟩
  | .moved scope (.forced rest) => exact ⟨rfl, rfl⟩
  | .moved scope (.yield ctx rest) => exact ⟨rfl, rfl⟩

end Turn

/-! ## Courses -/

variable {played : List Turn}

theorem runs_course_nil (count : Nat) (ended : run.stream = none) :
    Runs (run.course clock program q count) before (next, played) after ↔
      run = next ∧ played = [] ∧ before = after := by
  have nothing : run.course clock program q count = pure (run, []) := by
    cases count with
    | zero => rfl
    | succ count => rw [course, ended]
  rw [nothing, runs_pure]
  constructor
  · rintro ⟨same, rfl⟩
    cases same
    exact ⟨rfl, rfl, rfl⟩
  · rintro ⟨rfl, rfl, rfl⟩
    exact ⟨rfl, rfl⟩

theorem runs_course_succ (searches : run.stream = some s) :
    Runs (run.course clock program q (count + 1)) before (last, played) after ↔
      ∃ turn later next mid, played = turn :: later ∧
        Runs ((run.timed clock).turn program q s) before (next, turn) mid ∧
        Runs (next.course clock program q count) mid (last, later) after := by
  rw [course, searches]
  constructor
  · intro ran
    obtain ⟨⟨next, turn⟩, mid, turns, ran⟩ := runs_bind.mp ran
    obtain ⟨⟨final, later⟩, between, goesOn, ran⟩ := runs_bind.mp ran
    obtain ⟨same, rfl⟩ := runs_pure.mp ran
    cases same
    exact ⟨turn, later, next, mid, rfl, turns, goesOn⟩
  · rintro ⟨turn, later, next, mid, rfl, turns, goesOn⟩
    apply runs_bind.mpr
    refine ⟨_, mid, turns, ?_⟩
    apply runs_bind.mpr
    exact ⟨_, after, goesOn, rfl⟩

/-- Only as many turns are asked for as there are. -/
theorem runs_course_length (ran : Runs (run.course clock program q count) before (last, played)
    after) : Runs (run.course clock program q played.length) before (last, played) after ∧
      played.length ≤ count ∧ (played.length < count → last.stream = none) := by
  induction count generalizing run before played with
  | zero =>
      obtain ⟨same, rfl⟩ := runs_pure.mp ran
      cases same
      exact ⟨rfl, Nat.le_refl 0, fun less => absurd less (Nat.not_lt_zero _)⟩
  | succ count ih =>
      cases searches : run.stream with
      | none =>
          obtain ⟨rfl, rfl, rfl⟩ := (runs_course_nil _ searches).mp ran
          exact ⟨rfl, Nat.zero_le _, fun _ => searches⟩
      | some s =>
          obtain ⟨turn, later, next, mid, rfl, turns, goesOn⟩ := (runs_course_succ searches).mp ran
          obtain ⟨same, fewer, ends⟩ := ih goesOn
          refine ⟨(runs_course_succ searches).mpr ⟨turn, later, next, mid, rfl, turns, same⟩,
            Nat.succ_le_succ fewer, ?_⟩
          exact fun less => ends (Nat.lt_of_succ_lt_succ less)

/-- How far a run has come before each of its turns, and after the last. -/
theorem runs_course_scope (ran : Runs (run.course clock program q count) before (last, played)
    after) :
    (∀ i turn, played[i]? = some turn →
      turn.scope.steps = run.scope.steps + (played.take i).countP Turn.isForced ∧
      turn.scope.solutions = run.scope.solutions + (played.take i).countP Turn.isYield) ∧
    last.scope.steps = run.scope.steps + played.countP Turn.isForced ∧
    last.scope.solutions = run.scope.solutions + played.countP Turn.isYield := by
  induction count generalizing run before played with
  | zero =>
      obtain ⟨same, rfl⟩ := runs_pure.mp ran
      cases same
      exact ⟨nofun, rfl, rfl⟩
  | succ count ih =>
      cases searches : run.stream with
      | none =>
          obtain ⟨rfl, rfl, rfl⟩ := (runs_course_nil _ searches).mp ran
          exact ⟨nofun, rfl, rfl⟩
      | some s =>
          obtain ⟨turn, later, next, mid, rfl, turns, goesOn⟩ := (runs_course_succ searches).mp ran
          obtain ⟨rfl, here, _⟩ := runs_turn turns
          obtain ⟨steps, solutions⟩ := turn.scope_leaves (run.timed clock)
          obtain ⟨each, stepsLast, solutionsLast⟩ := ih goesOn
          simp only [steps, solutions, steps_timed, solutions_timed] at each stepsLast solutionsLast
          simp only [List.countP_cons (l := later), List.countP_singleton] at *
          refine ⟨?_, by omega, by omega⟩
          intro i found there
          cases i with
          | zero =>
              cases there
              rw [here]
              exact ⟨rfl, rfl⟩
          | succ i =>
              obtain ⟨stepsThere, solutionsThere⟩ := each i found there
              rw [List.take_succ_cons, List.countP_cons, List.countP_cons]
              omega

theorem runs_course_append {first later : List Turn} (count : Nat)
    (ran : Runs (run.course clock program q first.length) before (next, first) mid)
    (goesOn : Runs (next.course clock program q count) mid (last, later) after) :
    Runs (run.course clock program q (first.length + count)) before (last, first ++ later)
      after := by
  induction first generalizing run before with
  | nil =>
      obtain ⟨same, rfl⟩ := runs_pure.mp ran
      cases same
      rw [List.length_nil, Nat.zero_add]
      exact goesOn
  | cons turn first ih =>
      cases searches : run.stream with
      | none => cases ((runs_course_nil _ searches).mp ran).2.1
      | some s =>
          obtain ⟨_, _, between, start, same, turns, rest⟩ := (runs_course_succ searches).mp ran
          cases same
          rw [List.length_cons, Nat.add_right_comm]
          exact (runs_course_succ searches).mpr ⟨_, _, _, _, rfl, turns, ih rest⟩

/-! ## Pulls -/

theorem runs_nextBy_ended (ended : run.stream = none) {pull : Pull}
    (ran : Runs (run.nextBy clock program q moves) before (next, pull) after) :
    run = next ∧ pull = ⟨none, run.scope.steps⟩ ∧ before = after := by
  cases moves with
  | zero => exact absurd ran not_runs_throw
  | succ moves =>
      rw [nextBy, ended] at ran
      obtain ⟨same, rfl⟩ := runs_pure.mp ran
      cases same
      exact ⟨rfl, rfl, rfl⟩

/-- A pull from a run that has not ended goes through turns, of which the last is reported.  If
it does not give a solution, the run has ended. -/
theorem runs_nextBy (searches : run.stream = some s) {pull : Pull}
    (ran : Runs (run.nextBy clock program q moves) before (next, pull) after) :
    ∃ played : List Turn,
      Runs (run.course clock program q played.length) before (next, played) after ∧
      answers q played = [pull] ∧ pull.steps = next.scope.steps ∧
      (next.stream = none ∨ ∃ solution, pull.pulled = some (.ok solution)) := by
  induction moves generalizing run before s with
  | zero => exact absurd ran not_runs_throw
  | succ moves ih =>
      rw [nextBy, searches] at ran
      obtain ⟨⟨left, turn⟩, mid, turns, goesOn⟩ := runs_bind.mp ran
      obtain ⟨rfl, here, _⟩ := runs_turn turns
      have course : Runs (run.course clock program q [turn].length) before
          (turn.leaves (run.timed clock), [turn]) mid :=
        (runs_course_succ searches).mpr ⟨turn, [], _, mid, rfl, turns, rfl⟩
      dsimp only at goesOn
      cases reported : turn.pull? q with
      | some found =>
          rw [reported] at goesOn
          obtain ⟨same, rfl⟩ := runs_pure.mp goesOn
          cases same
          obtain ⟨steps, ends⟩ := Turn.leaves_of_pull? reported here
          exact ⟨[turn], course, by simp [answers, reported], steps, ends⟩
      | none =>
          rw [reported] at goesOn
          obtain ⟨rest, forces⟩ := Turn.forced_of_pull? reported
          have left : (turn.leaves (run.timed clock)).stream = some rest := forces ▸ rfl
          obtain ⟨played, later, found, steps, ends⟩ := ih left goesOn
          refine ⟨turn :: played, ?_, by simpa [answers, reported] using found, steps, ends⟩
          have whole := runs_course_append _ course later
          rwa [Nat.add_comm] at whole

/-! ## Sequences of pulls -/

variable {pulls : List Pull}

theorem runs_calls_succ :
    Runs (run.calls clock program q moves (count + 1)) before (last, pulls) after ↔
      ∃ pull later next mid, pulls = pull :: later ∧
        Runs (run.nextBy clock program q moves) before (next, pull) mid ∧
        Runs (next.calls clock program q moves count) mid (last, later) after := by
  constructor
  · intro ran
    obtain ⟨⟨next, pull⟩, mid, first, goesOn⟩ := runs_bind.mp ran
    obtain ⟨⟨final, later⟩, _, rest, same⟩ := runs_bind.mp goesOn
    obtain ⟨same, rfl⟩ := runs_pure.mp same
    cases same
    exact ⟨pull, later, next, mid, rfl, first, rest⟩
  · rintro ⟨pull, later, next, mid, rfl, first, rest⟩
    apply runs_bind.mpr
    refine ⟨_, mid, first, ?_⟩
    apply runs_bind.mpr
    exact ⟨_, after, rest, rfl⟩

/-- Pulls from a run that has ended give nothing and leave the session as it is. -/
theorem runs_calls_ended (ended : run.stream = none)
    (ran : Runs (run.calls clock program q moves count) before (last, pulls) after) :
    run = last ∧ pulls = List.replicate count ⟨none, run.scope.steps⟩ ∧ before = after := by
  induction count generalizing before pulls with
  | zero =>
      obtain ⟨same, rfl⟩ := runs_pure.mp ran
      cases same
      exact ⟨rfl, rfl, rfl⟩
  | succ count ih =>
      obtain ⟨pull, later, next, mid, rfl, first, rest⟩ := runs_calls_succ.mp ran
      obtain ⟨rfl, rfl, rfl⟩ := runs_nextBy_ended ended first
      obtain ⟨rfl, rfl, rfl⟩ := ih rest
      exact ⟨rfl, rfl, rfl⟩

/-- Conversely, there are such pulls. -/
theorem calls_ended (ended : run.stream = none) (count : Nat) (before : Session) :
    Runs (run.calls clock program q (moves + 1) count) before
      (run, List.replicate count ⟨none, run.scope.steps⟩) before := by
  induction count with
  | zero => rfl
  | succ count ih =>
      refine runs_calls_succ.mpr ⟨_, _, run, before, rfl, ?_, ih⟩
      rw [nextBy, ended]
      rfl

/-- Reports of turns, and nothing for the other pulls. -/
def padded (count steps : Nat) (reports : List Pull) : List Pull :=
  reports.take count ++ List.replicate (count - reports.length) ⟨none, steps⟩

/-- What pulls give is what is reported of the turns they go through, and nothing once the run
has ended. -/
theorem runs_calls
    (ran : Runs (run.calls clock program q moves count) before (last, pulls) after) :
    ∃ played : List Turn,
      Runs (run.course clock program q played.length) before (last, played) after ∧
      pulls = padded count last.scope.steps (answers q played) ∧
      (answers q played).length ≤ count ∧
      ((answers q played).length < count → last.stream = none) := by
  induction count generalizing run before pulls with
  | zero =>
      obtain ⟨same, rfl⟩ := runs_pure.mp ran
      cases same
      exact ⟨[], rfl, rfl, Nat.le_refl 0, fun less => absurd less (Nat.lt_irrefl 0)⟩
  | succ count ih =>
      cases searches : run.stream with
      | none =>
          obtain ⟨rfl, rfl, rfl⟩ := runs_calls_ended searches ran
          exact ⟨[], rfl, rfl, Nat.zero_le _, fun _ => searches⟩
      | some s =>
          obtain ⟨pull, later, next, mid, rfl, first, rest⟩ := runs_calls_succ.mp ran
          obtain ⟨start, course, reported, _, _⟩ := runs_nextBy searches first
          obtain ⟨played, goesOn, rfl, fewer, ends⟩ := ih rest
          have whole : answers q (start ++ played) = pull :: answers q played := by
            rw [answers, List.filterMap_append]
            exact congrArg (· ++ answers q played) reported
          refine ⟨start ++ played, ?_, ?_, ?_, ?_⟩
          · rw [List.length_append]
            exact runs_course_append _ course goesOn
          · simp [padded, whole]
          · rw [whole]
            exact Nat.succ_le_succ fewer
          · rw [whole]
            exact fun less => ends (Nat.lt_of_succ_lt_succ less)

/-- A pull with enough turns gives what is reported first of a course. -/
theorem nextBy_of_course {played : List Turn}
    (course : Runs (run.course clock program q played.length) before (last, played) after)
    (searches : run.stream = some s)
    (ended : last.stream = none ∨ 0 < (answers q played).length)
    (enough : played.length ≤ moves) :
    ∃ first later pull next mid, played = first ++ later ∧ answers q first = [pull] ∧
      Runs (run.nextBy clock program q moves) before (next, pull) mid ∧
      Runs (next.course clock program q later.length) mid (last, later) after := by
  induction played generalizing run before s moves with
  | nil =>
      obtain ⟨same, rfl⟩ := runs_pure.mp course
      cases same
      rcases ended with ended | impossible
      · rw [searches] at ended
        cases ended
      · cases impossible
  | cons turn played ih =>
      obtain ⟨_, _, next, mid, same, turns, goesOn⟩ := (runs_course_succ searches).mp course
      cases same
      obtain ⟨moves, rfl⟩ := Nat.exists_eq_add_of_le' (Nat.le_trans (Nat.succ_pos _) enough)
      have begins : ∀ {result final}, Runs (match turn.pull? q with
            | some pull => pure (next, pull)
            | none => next.nextBy clock program q moves) mid result final →
          Runs (run.nextBy clock program q (moves + 1)) before result final := by
        intro result final continues
        rw [nextBy, searches]
        exact runs_bind.mpr ⟨_, mid, turns, continues⟩
      cases reported : turn.pull? q with
      | some pull =>
          refine ⟨[turn], played, pull, next, mid, rfl, by simp [answers, reported], ?_, goesOn⟩
          apply begins
          rw [reported]
          rfl
      | none =>
          obtain ⟨rest, forces⟩ := Turn.forced_of_pull? reported
          obtain ⟨rfl, _, _⟩ := runs_turn turns
          have left : (turn.leaves (run.timed clock)).stream = some rest := forces ▸ rfl
          have silent : answers q (turn :: played) = answers q played := by simp [answers, reported]
          rw [silent] at ended
          obtain ⟨first, later, pull, reached, between, rfl, found, pulls, rest⟩ :=
            ih goesOn left ended (Nat.le_of_succ_le_succ enough)
          refine ⟨turn :: first, later, pull, reached, between, rfl, ?_, ?_, rest⟩
          · simpa [answers, reported] using found
          · apply begins
            rw [reported]
            exact pulls

/-- Pulls with enough turns give what is reported of a course that comes to an end, or in which
no fewer turns are reported. -/
theorem calls_of_course {played : List Turn} (count : Nat)
    (course : Runs (run.course clock program q played.length) before (last, played) after)
    (ended : last.stream = none ∨ count ≤ (answers q played).length)
    (enough : played.length < moves) :
    ∃ next mid, Runs (run.calls clock program q moves count) before
      (next, padded count last.scope.steps (answers q played)) mid := by
  induction count generalizing run before played with
  | zero => exact ⟨run, before, by simp only [padded, List.take_zero, Nat.zero_sub]; rfl⟩
  | succ count ih =>
      obtain ⟨moves, rfl⟩ := Nat.exists_eq_add_of_le' (Nat.le_trans (Nat.succ_pos _) enough)
      cases searches : run.stream with
      | none =>
          obtain ⟨rfl, rfl, rfl⟩ := (runs_course_nil _ searches).mp course
          exact ⟨run, before, calls_ended searches (count + 1) before⟩
      | some s =>
          obtain ⟨first, later, pull, next, mid, rfl, found, pulls, goesOn⟩ :=
            nextBy_of_course course searches (ended.imp_right (Nat.lt_of_lt_of_le (Nat.succ_pos _)))
              (Nat.le_of_lt enough)
          have fewer : later.length < moves + 1 := by
            rw [List.length_append] at enough
            exact Nat.lt_of_le_of_lt (Nat.le_add_left _ _) enough
          have whole : answers q (first ++ later) = pull :: answers q later := by
            rw [answers, List.filterMap_append]
            exact congrArg (· ++ answers q later) found
          rw [whole] at ended
          obtain ⟨final, between, rest⟩ := ih goesOn (ended.imp_right Nat.le_of_succ_le_succ) fewer
          refine ⟨final, between, runs_calls_succ.mpr ⟨pull, _, next, mid, ?_, pulls, rest⟩⟩
          simp [padded, whole]

end Run

namespace Query

variable (clock : Clock) (program : Program) (q : Query)

/-- The first turns of a new run. -/
def course (count : Nat) : Engine (Run × List Run.Turn) := do
  (← Run.start q).course clock program q count

/-- Pull a new run by the clock so many times. -/
def calls (moves count : Nat) : Engine (Run × List Run.Pull) := do
  (← Run.start q).calls clock program q moves count

/-- Pull a new run by the clock so many times, and give it up. -/
def life (moves count : Nat) : Engine (Run × List Run.Pull) := do
  let (run, pulls) ← q.calls clock program moves count
  pure (← run.finish q, pulls)

end Query

end RelationalSolver
