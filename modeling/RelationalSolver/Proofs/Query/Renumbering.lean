import RelationalSolver.Proofs.Query.Condensing
import RelationalSolver.Proofs.Stream.Renumbering

/-!
# Queries under other numbers

Queries that are the same but for the numbers of variables run alike: a pull of the one gives
what a pull of the other gives, under other numbers and after as many steps.
-/

namespace RelationalSolver

open Engine

/-- The queries ask the same, but for the numbers of variables. -/
structure Query.Renumbers (ρ : ℕ → ℕ) (q other : Query) : Prop where
  goal : q.goal.Renumbers ρ other.goal
  projection : other.projection = q.projection.map (·.renumber ρ)
  termination : other.termination = q.termination
  root : q.root.Renumbers ρ other.root

/-- The runs have come as far, with streams that are the same but for the numbers of
variables. -/
structure Run.Renumbers (ρ : ℕ → ℕ) (run other : Run) : Prop where
  stream : Option.Rel (Stream.Renumbers ρ) run.stream other.stream
  scope : other.scope = run.scope
  early : other.terminatedEarly = run.terminatedEarly

/-- The same pull, under other numbers. -/
def Run.Pull.renumber (ρ : ℕ → ℕ) (pull : Run.Pull) : Run.Pull :=
  { pull with pulled := pull.pulled.map fun given => given.map (·.renumber ρ) }

variable {ρ : ℕ ↪o ℕ} {program : Program} {q qOther : Query} {run runOther : Run}

theorem Query.Renumbers.solution_eq (same : q.Renumbers ρ qOther) {ctx other : Context}
    (alike : ctx.Renumbers ρ other) (index : ℕ) :
    qOther.solution other index = (q.solution ctx index).renumber ρ := by
  have bindings : (q.projection.map (·.renumber ρ)).map (fun v => (v, other.resolve (.var v))) =
      (q.projection.map fun v => (v, ctx.resolve (.var v))).map
        fun entry => (entry.1.renumber ρ, entry.2.renumber ρ) := by
    rw [List.map_map, List.map_map]
    exact List.map_congr_left fun v _ => congrArg (Prod.mk _) (alike.resolve (.var v))
  unfold Query.solution Solution.renumber
  rw [same.projection, alike.bindingsMade, bindings]

namespace Run

theorem start_renumber (same : q.Renumbers ρ qOther) :
    Engine.Renumbers ρ (Renumbers ρ) (start q) (start qOther) := by
  unfold start
  rw [same.projection, List.length_map, same.goal.name]
  apply (Engine.Renumbers.notify (.queryStarted _ _)).bind
  intro _ _ _
  apply (same.root.fire .queryStarted .nothing).bind
  intro _ _ _
  apply (Goal.apply_renumber same.goal same.root).bind
  exact fun s t stream => .pure ⟨.some stream, rfl, rfl⟩

/-- A run that has ended has no stream left, and nothing else has numbers. -/
theorem Renumbers.finish (alike : run.Renumbers ρ runOther) (same : q.Renumbers ρ qOther) :
    Engine.Renumbers ρ (fun last lastOther => lastOther = last ∧ last.stream = none)
      (run.finish q) (runOther.finish qOther) := by
  obtain ⟨stream, _, _⟩ := run
  obtain ⟨streamOther, scope, early⟩ := runOther
  obtain ⟨streams, rfl, rfl⟩ := alike
  cases streams with
  | none => exact .pure ⟨rfl, rfl⟩
  | some alike =>
      apply (Engine.Renumbers.signal (.ended ⟨scope.elapsed, scope.steps, scope.solutions, early⟩)
        (fun _ => rfl) fun _ => rfl).bind
      intro _ _ _
      apply (same.root.fire .queryEnded (.lifecycle _ _)).bind
      intro _ _ _
      exact (Engine.Renumbers.notify (.queryEnded _ _ _)).bind fun _ _ _ => .pure ⟨rfl, rfl⟩

/-- Two runs and what the same pull of them gave. -/
def Pulls (ρ : ℕ → ℕ) (result other : Run × Pulled) : Prop :=
  result.1.Renumbers ρ other.1 ∧
    other.2 = result.2.map fun given => given.map (·.renumber ρ)

/-- Ending a run, with the same to be told of it. -/
theorem Renumbers.ending (alike : run.Renumbers ρ runOther) (same : q.Renumbers ρ qOther)
    (ended : Option SolverError) :
    Engine.Renumbers ρ (Pulls ρ) (do pure (← run.finish q, ended.map .error))
      (do pure (← runOther.finish qOther, ended.map .error)) := by
  apply (alike.finish same).bind
  rintro last _ ⟨rfl, finished⟩
  refine .pure ⟨⟨?_, rfl, rfl⟩, ?_⟩
  · rw [finished]
    exact .none
  · cases ended <;> rfl

theorem Renumbers.next (defined : program.definitions.Renumbers ρ program.definitions)
    (same : q.Renumbers ρ qOther) (moves : ℕ) (alike : run.Renumbers ρ runOther) :
    Engine.Renumbers ρ (Pulls ρ) (run.next program q moves)
      (runOther.next program qOther moves) := by
  induction moves generalizing run runOther with
  | zero => exact .throw _
  | succ moves ih =>
      have stops : runOther.isTerminated qOther = run.isTerminated q := by
        unfold isTerminated
        rw [same.termination, alike.scope]
      obtain ⟨stream, _, _⟩ := run
      obtain ⟨streamOther, scope, early⟩ := runOther
      obtain ⟨streams, rfl, rfl⟩ := alike
      rw [Run.next, Run.next, stops]
      split
      · cases streams with
        | none =>
            have ended : Renumbers ρ ⟨none, scope, early⟩ ⟨none, scope, early⟩ :=
              ⟨.none, rfl, rfl⟩
            exact ended.ending same none
        | @some s t alike =>
            have stopped : Renumbers ρ ⟨some s, scope, true⟩ ⟨some t, scope, true⟩ :=
              ⟨.some alike, rfl, rfl⟩
            apply (Engine.Renumbers.notify (.terminated scope.steps scope.solutions)).bind
            exact fun _ _ _ => stopped.ending same none
      · cases streams with
        | none => exact .pure ⟨⟨.none, rfl, rfl⟩, rfl⟩
        | some alike =>
            apply (alike.step defined).bind
            intro move moveOther moved
            have emptied : Renumbers ρ ⟨some .empty, scope, early⟩ ⟨some .empty, scope, early⟩ :=
              ⟨.some .empty, rfl, rfl⟩
            cases moved with
            | done => exact emptied.ending same none
            | fault fault => exact emptied.ending same (some (.invariant fault))
            | forced rest => exact ih ⟨.some rest, rfl, rfl⟩
            | @yield ctx other _ _ yielded rest =>
                dsimp only
                rw [same.solution_eq yielded]
                apply (yielded.fire .querySolution (.solution scope.solutions)).bind
                intro _ _ _
                apply (Engine.Renumbers.signal (.yielded (q.solution ctx scope.solutions))
                  (fun _ => rfl) fun _ => rfl).bind
                exact fun _ _ _ => .pure ⟨⟨.some rest, rfl, rfl⟩, rfl⟩

theorem Renumbers.iterate (defined : program.definitions.Renumbers ρ program.definitions)
    (same : q.Renumbers ρ qOther) (moves count : ℕ) (ended : Bool)
    (alike : run.Renumbers ρ runOther) :
    Engine.Renumbers ρ (fun result other =>
        other.1 = result.1.map (·.renumber ρ) ∧ result.2.Renumbers ρ other.2)
      (run.iterate program q moves count ended)
      (runOther.iterate program qOther moves count ended) := by
  induction count generalizing run runOther ended with
  | zero => exact .pure ⟨rfl, alike⟩
  | succ count ih =>
      apply (alike.next defined same moves).bind
      rintro ⟨next, pulled⟩ ⟨nextOther, _⟩ ⟨matched, rfl⟩
      dsimp only at matched ⊢
      rw [matched.scope, Option.isNone_map]
      split
      · exact .pure ⟨rfl, matched⟩
      · apply (ih _ matched).bind
        rintro ⟨later, last⟩ ⟨_, lastOther⟩ ⟨rfl, final⟩
        exact .pure ⟨rfl, final⟩

end Run

namespace Query.Renumbers

variable (defined : program.definitions.Renumbers ρ program.definitions)
variable (same : q.Renumbers ρ qOther)
include defined same

theorem moves (count : ℕ) :
    Engine.Renumbers ρ (List.Forall₂ (Move.Renumbers ρ)) (q.moves program count)
      (qOther.moves program count) := by
  apply (Run.start_renumber same).bind
  rintro ⟨stream, _, _⟩ ⟨streamOther, _, _⟩ ⟨streams, _, _⟩
  cases streams with
  | none => exact Stream.Renumbers.empty.moves defined count
  | some alike => exact alike.moves defined count

/-- A run that is given up after some pulls has given the same. -/
theorem iterate (moves count : ℕ) :
    Engine.Renumbers ρ (fun result other => other = (result.1.map (·.renumber ρ), result.2))
      (q.iterate program moves count) (qOther.iterate program moves count) := by
  apply (Run.start_renumber same).bind
  intro run runOther started
  apply (started.iterate defined same moves count false).bind
  rintro ⟨pulls, last⟩ ⟨_, lastOther⟩ ⟨rfl, alike⟩
  apply (alike.finish same).bind
  rintro final _ ⟨rfl, _⟩
  exact .pure rfl

end Query.Renumbers

end RelationalSolver
