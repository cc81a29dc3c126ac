import RelationalSolver.Proofs.Stream.Coupling
import RelationalSolver.Query.Iteration

/-!
# Queries with and without condensing

Two queries that differ in their walk hooks, and have no bind hooks, run alike: their streams
make the same moves, their pulls give the same, and observers are told the same but for the
chains that were condensed.
-/

namespace RelationalSolver

open Engine

/-! ## Runs -/

/-- The queries ask the same, from contexts that match. -/
structure Query.Matches (q other : Query) : Prop where
  goal : other.goal = q.goal
  projection : other.projection = q.projection
  termination : other.termination = q.termination
  root : q.root.Matches other.root

/-- The runs have come as far, with streams that match. -/
structure Run.Matches (run other : Run) : Prop where
  stream : Option.Rel Stream.Matches run.stream other.stream
  scope : other.scope = run.scope
  early : other.terminatedEarly = run.terminatedEarly

variable {program : Program} {q qOther : Query} {run runOther : Run}

theorem Query.Matches.solution_eq (same : q.Matches qOther) {ctx other : Context}
    (alike : ctx.Matches other) (index : Nat) :
    qOther.solution other index = q.solution ctx index := by
  unfold Query.solution
  simp only [same.projection, alike.resolve, alike.bindingsMade]

namespace Run

theorem start_agrees (same : q.Matches qOther) : Agrees Matches (start q) (start qOther) := by
  unfold start
  rw [same.projection, same.goal]
  apply (Agrees.notify _).bind
  intro _ _ _
  apply (same.root.fire _ _).bind
  intro _ _ _
  apply (q.goal.apply_agrees same.root).bind
  exact fun s t alike => .pure ⟨.some alike, rfl, rfl⟩

/-- Keeping something about a run makes no difference to what is observed. -/
theorem keeping_agrees {keep : Session → Session}
    (apart : ∀ s : Session, (keep s).uncondensed = keep s.uncondensed) :
    Agrees Eq (modify keep : Engine Unit) (modify keep) := by
  apply Agrees.modifying
  intro s other alike
  unfold Session.Matches at alike ⊢
  rw [apart, apart, alike]

theorem Matches.finish (alike : run.Matches runOther) (same : q.Matches qOther) :
    Agrees (fun last lastOther => last = lastOther ∧ last.stream = none) (run.finish q)
      (runOther.finish qOther) := by
  obtain ⟨stream, _, _⟩ := run
  obtain ⟨streamOther, scope, early⟩ := runOther
  obtain ⟨streams, rfl, rfl⟩ := alike
  cases streams with
  | none => exact .pure ⟨rfl, rfl⟩
  | some alike =>
      apply Agrees.bind (keeping_agrees ?_)
      · intro _ _ _
        apply (same.root.fire _ _).bind
        intro _ _ _
        exact (Agrees.notify _).bind fun _ _ _ => .pure ⟨rfl, rfl⟩
      · exact fun _ => rfl

/-- Ending a run, with the same to be told of it. -/
theorem Matches.ending (alike : run.Matches runOther) (same : q.Matches qOther) (pulled : Pulled) :
    Agrees (fun result resultOther => result.1.Matches resultOther.1 ∧ result.2 = resultOther.2)
      (do pure (← run.finish q, pulled)) (do pure (← runOther.finish qOther, pulled)) := by
  apply (alike.finish same).bind
  rintro last _ ⟨rfl, ended⟩
  refine .pure ⟨⟨?_, rfl, rfl⟩, rfl⟩
  rw [ended]
  exact .none

theorem Matches.next (same : q.Matches qOther) (moves : Nat) (alike : run.Matches runOther) :
    Agrees (fun result resultOther => result.1.Matches resultOther.1 ∧ result.2 = resultOther.2)
      (run.next program q moves) (runOther.next program qOther moves) := by
  induction moves generalizing run runOther with
  | zero => exact .throw _
  | succ moves ih =>
      have stops : runOther.isTerminated qOther = run.isTerminated q := by
        unfold isTerminated
        rw [same.termination, alike.scope]
      obtain ⟨stream, _, _⟩ := run
      obtain ⟨streamOther, scope, early⟩ := runOther
      obtain ⟨streams, rfl, rfl⟩ := alike
      rw [Run.next, Run.next, stops]
      split
      · cases streams with
        | none =>
            have ended : Matches ⟨none, scope, early⟩ ⟨none, scope, early⟩ := ⟨.none, rfl, rfl⟩
            exact ended.ending same none
        | @some s t alike =>
            have stopped : Matches ⟨some s, scope, true⟩ ⟨some t, scope, true⟩ :=
              ⟨.some alike, rfl, rfl⟩
            exact (Agrees.notify _).bind fun _ _ _ => stopped.ending same none
      · cases streams with
        | none => exact .pure ⟨⟨.none, rfl, rfl⟩, rfl⟩
        | some alike =>
            apply (alike.step program).bind
            intro move moveOther moved
            cases moved with
            | done => exact Matches.ending ⟨.some .empty, rfl, rfl⟩ same none
            | fault fault => exact Matches.ending ⟨.some .empty, rfl, rfl⟩ same _
            | forced rest => exact ih ⟨.some rest, rfl, rfl⟩
            | yield matched rest =>
                dsimp only
                rw [same.solution_eq matched]
                apply (matched.fire _ _).bind
                intro _ _ _
                apply Agrees.bind (keeping_agrees ?_)
                · exact fun _ _ _ => .pure ⟨⟨.some rest, rfl, rfl⟩, rfl⟩
                · exact fun _ => rfl

theorem Matches.iterate (same : q.Matches qOther) (moves count : Nat) (ended : Bool)
    (alike : run.Matches runOther) :
    Agrees (fun result resultOther => result.1 = resultOther.1 ∧ result.2.Matches resultOther.2)
      (run.iterate program q moves count ended)
      (runOther.iterate program qOther moves count ended) := by
  induction count generalizing run runOther ended with
  | zero => exact .pure ⟨rfl, alike⟩
  | succ count ih =>
      apply (Matches.next same moves alike).bind
      rintro ⟨next, pulled⟩ ⟨nextOther, _⟩ ⟨matched, rfl⟩
      dsimp only
      rw [matched.scope]
      split
      · exact .pure ⟨rfl, matched⟩
      · apply (ih _ matched).bind
        rintro ⟨later, last⟩ ⟨_, lastOther⟩ ⟨rfl, final⟩
        exact .pure ⟨rfl, final⟩

end Run

namespace Query

/-- Start a run of the query and make the first moves of its stream. -/
def moves (program : Program) (q : Query) (count : Nat) : Engine (List Move) := do
  let run ← Run.start q
  (run.stream.getD .empty).moves program count

theorem Matches.moves (same : q.Matches qOther) (count : Nat) :
    Agrees (List.Forall₂ Move.Matches) (q.moves program count) (qOther.moves program count) := by
  apply (Run.start_agrees same).bind
  rintro ⟨stream, _, _⟩ ⟨streamOther, _, _⟩ ⟨streams, _, _⟩
  cases streams with
  | none => exact Stream.Matches.empty.moves count
  | some alike => exact alike.moves count

/-- A run that is given up after some pulls has given the same. -/
theorem Matches.iterate (same : q.Matches qOther) (moves count : Nat) :
    Agrees Eq (q.iterate program moves count) (qOther.iterate program moves count) := by
  apply (Run.start_agrees same).bind
  intro run runOther started
  apply (Run.Matches.iterate same moves count false started).bind
  rintro ⟨pulls, last⟩ ⟨_, lastOther⟩ ⟨rfl, alike⟩
  apply (alike.finish same).bind
  rintro final _ ⟨rfl, _⟩
  exact .pure rfl

end Query

/-! ## Setups -/

namespace QuerySetup

variable {setup : QuerySetup} {hooks : Registry}

/-- The hooks that runs of the query see: those of the setup or, if it has none, those of the
starting context. -/
def registry (setup : QuerySetup) : Registry :=
  if setup.hooks.isEmpty then setup.context.hooks?.getD .empty else setup.hooks

/-- The same query with other hooks. -/
def hookedBy (setup : QuerySetup) (hooks : Registry) : QuerySetup := { setup with hooks := hooks }

/-- Build the query and go on with it. -/
def buildThen {α : Type} (setup : QuerySetup) (entropy : UInt64) (go : Query → Engine α) :
    Engine (Except SolverError α) := do
  match ← setup.build entropy with
  | .error e => pure (.error e)
  | .ok q => .ok <$> go q

/-- The setup makes the occurrence test, has no bind hooks and starts from a context in which
names do not collide and no variable leads back to itself. -/
structure Observed (setup : QuerySetup) : Prop where
  checked : setup.config.occursCheck = true
  free : setup.registry.bindHooks = []
  clear : setup.context.Clear
  acyclic : setup.context.substitution.Acyclic

/-- The starting context with the hooks of the query. -/
def hooked (setup : QuerySetup) : Context :=
  let checked := setup.context.put .unification .enabled
  if setup.hooks.isEmpty then checked else checked.put .hooks setup.hooks

theorem registry_hooked (setup : QuerySetup) :
    setup.hooked.hooks?.getD .empty = setup.registry := by
  unfold hooked registry
  split
  · rw [Context.hooks?_put (by decide)]
  · rw [Context.hooks?, Context.get?_put_self]
    rfl

theorem get?_hooked {key : FacetKey} (different : key ≠ .hooks) :
    setup.hooked.get? key = (setup.context.put .unification .enabled).get? key := by
  unfold hooked
  split
  · rfl
  · exact Context.get?_put_of_ne different.symm

theorem Observed.clear_hooked (observed : setup.Observed) : setup.hooked.Clear := by
  unfold hooked
  split
  · exact observed.clear.put rfl
  · exact (observed.clear.put rfl).put rfl

/-- The context that runs start from. -/
theorem Observed.rootOf_eq (observed : setup.Observed) (pipeline : Pipeline) :
    setup.rootOf pipeline = .ok (setup.hooked.put .planner pipeline) := by
  have clear : (setup.context.put .unification .enabled).Clear := observed.clear.put rfl
  rw [← observed.clear_hooked.trySet_eq rfl]
  unfold rootOf hooked
  rw [observed.checked, if_pos rfl]
  dsimp only
  rw [observed.clear.trySet_eq rfl]
  change (if setup.hooks.isEmpty then _ else _) = _
  split
  · rfl
  · rw [clear.trySet_eq rfl]
    rfl

theorem Observed.root (observed : setup.Observed) (pipeline : Pipeline) :
    (setup.hooked.put .planner pipeline).Observed where
  free := by
    intro registry found
    rw [Context.hooks?_put (by decide)] at found
    have same : (some registry).getD .empty = setup.registry := found ▸ setup.registry_hooked
    rw [← observed.free, ← same]
    rfl
  checked := by
    rw [Context.occursCheck, Context.get_put_of_ne (by decide), Context.get,
      get?_hooked (by decide), Context.get?_put_self]
    rfl
  clear := observed.clear_hooked.put rfl
  acyclic := by
    rw [Context.substitution, Context.get_put_of_ne (by decide), Context.get,
      get?_hooked (by decide), Context.get?_put_of_ne (by decide)]
    exact observed.acyclic

theorem get?_root_hookedBy {key : FacetKey} (different : key ≠ .hooks) (pipeline : Pipeline) :
    ((setup.hookedBy hooks).hooked.put .planner pipeline).get? key =
      (setup.hooked.put .planner pipeline).get? key := by
  by_cases planner : .planner = key
  · subst planner
    rw [Context.get?_put_self, Context.get?_put_self]
  · rw [Context.get?_put_of_ne planner, Context.get?_put_of_ne planner, get?_hooked different,
      get?_hooked different]
    rfl

/-- Runs of setups with the same observers start from contexts that match. -/
theorem Observed.root_matches (observed : setup.Observed)
    (observedOther : (setup.hookedBy hooks).Observed)
    (observers : (setup.hookedBy hooks).registry.observers = setup.registry.observers)
    (pipeline : Pipeline) :
    (setup.hooked.put .planner pipeline).Matches
      ((setup.hookedBy hooks).hooked.put .planner pipeline) where
  observed := observed.root pipeline
  observedOther := observedOther.root pipeline
  alike := by
    rw [Context.substitution, Context.substitution, Context.get, Context.get,
      get?_root_hookedBy (by decide)]
    exact .refl (observed.root pipeline).acyclic.walksEnd
  observers := by
    have listed : ∀ setup : QuerySetup,
        (setup.hooked.put .planner pipeline).observers = setup.registry.observers := by
      intro setup
      rw [Context.observers, Context.hooks?_put (by decide), ← registry_hooked]
      cases setup.hooked.hooks? <;> rfl
    rw [listed, listed, observers]
  counter name _ := by
    rw [Context.counter, Context.counter, Context.get, Context.get,
      get?_root_hookedBy (by decide)]
  same key _ _ notHooks := get?_root_hookedBy notHooks pipeline

/-- Setups that differ in walk hooks only build queries that match. -/
theorem Observed.build_agrees (observed : setup.Observed)
    (observedOther : (setup.hookedBy hooks).Observed)
    (observers : (setup.hookedBy hooks).registry.observers = setup.registry.observers)
    (entropy : UInt64) :
    Agrees (Agrees.Tried Query.Matches) (setup.build entropy)
      ((setup.hookedBy hooks).build entropy) := by
  have goal : (setup.hookedBy hooks).goal = setup.goal := rfl
  have config : (setup.hookedBy hooks).config = setup.config := rfl
  have projection : (setup.hookedBy hooks).projection = setup.projection := rfl
  have passes : (setup.hookedBy hooks).passes = setup.passes := rfl
  have termination : (setup.hookedBy hooks).termination = setup.termination := rfl
  unfold build
  rw [goal, config, projection, passes, termination]
  split
  · exact .pure (.failed _)
  · dsimp only
    split
    · exact .pure (.failed _)
    · apply (Agrees.notifyAll _).bind
      intro _ _ _
      apply (Agrees.notify _).bind
      intro _ _ _
      rw [observed.rootOf_eq, observedOther.rootOf_eq]
      refine .pure (.result ⟨rfl, rfl, rfl, ?_⟩)
      exact observed.root_matches observedOther observers _

end QuerySetup

/-! ## What is seen of a run -/

/-- Terms walk and resolve to the same in both contexts, the same constraints are pending, and
as many bindings were made. -/
structure Context.LooksLike (ctx other : Context) : Prop where
  walk : ∀ t, other.walk t = ctx.walk t
  resolve : ∀ t, other.resolve t = ctx.resolve t
  pending : other.get .constraints = ctx.get .constraints
  bindingsMade : other.bindingsMade = ctx.bindingsMade

/-- Moves of the same kind, with the same fault or contexts that look alike. -/
inductive Move.LooksLike : Move → Move → Prop
  | yield {ctx other : Context} {rest restOther : Stream} : ctx.LooksLike other →
      Move.LooksLike (.yield ctx rest) (.yield other restOther)
  | forced {next nextOther : Stream} : Move.LooksLike (.forced next) (.forced nextOther)
  | done : Move.LooksLike .done .done
  | fault (fault : Fault) : Move.LooksLike (.fault fault) (.fault fault)

theorem Move.Matches.looksLike {move moveOther : Move} (alike : move.Matches moveOther) :
    move.LooksLike moveOther := by
  cases alike with
  | yield alike rest => exact .yield ⟨alike.walk, alike.resolve, alike.pending, alike.bindingsMade⟩
  | forced rest => exact .forced
  | done => exact .done
  | fault fault => exact .fault fault

namespace QuerySetup

variable {setup : QuerySetup} {hooks : Registry}

theorem buildThen_agrees {α β : Type} {R : α → β → Prop} {entropy : UInt64}
    {go : Query → Engine α} {goOther : Query → Engine β} (observed : setup.Observed)
    (observedOther : (setup.hookedBy hooks).Observed)
    (observers : (setup.hookedBy hooks).registry.observers = setup.registry.observers)
    (goes : ∀ q qOther : Query, q.Matches qOther → Agrees R (go q) (goOther qOther)) :
    Agrees (Agrees.Tried R) (setup.buildThen entropy go)
      ((setup.hookedBy hooks).buildThen entropy goOther) := by
  apply (observed.build_agrees observedOther observers entropy).bind
  intro built builtOther same
  cases same with
  | failed e => exact .pure (.failed e)
  | result same => exact (goes _ _ same).map fun _ _ => .result

/-- Walk hooks are invisible.  Queries with the same observers and without bind hooks, whose
walk hooks may be any, are built alike; the streams of their runs make the same moves, and the
pulls of their runs give the same solutions and errors after as many steps.  Observers are
told the same of both but for the chains that were condensed. -/
theorem walkHooks_invisible (observed : setup.Observed) (hooks : Registry)
    (free : (setup.hookedBy hooks).registry.bindHooks = [])
    (observers : (setup.hookedBy hooks).registry.observers = setup.registry.observers)
    (entropy : UInt64) (program : Program) (moves count : Nat) :
    Agrees (Agrees.Tried (List.Forall₂ Move.LooksLike))
        (setup.buildThen entropy (·.moves program count))
        ((setup.hookedBy hooks).buildThen entropy (·.moves program count)) ∧
      Agrees (Agrees.Tried Eq) (setup.buildThen entropy (·.iterate program moves count))
        ((setup.hookedBy hooks).buildThen entropy (·.iterate program moves count)) := by
  have observedOther : (setup.hookedBy hooks).Observed :=
    ⟨observed.checked, free, observed.clear, observed.acyclic⟩
  constructor
  · apply buildThen_agrees observed observedOther observers
    intro q qOther same
    apply (same.moves count).mono
    exact fun _ _ => List.Forall₂.imp fun _ _ => Move.Matches.looksLike
  · exact buildThen_agrees observed observedOther observers fun q qOther same =>
      same.iterate moves count

/-- A chain of two variables is walked on the way to a value.  Everything is recorded. -/
def chained (walkHooks : List WalkHook) : QuerySetup :=
  { QuerySetup.ofGoal (.conj
      [.equal (.var (.numbered 1)) (.var (.numbered 2)),
        .equal (.var (.numbered 2)) (.var (.numbered 3)),
        .equal (.var (.numbered 1)) (.int 1)] []) with
    projection := [.numbered 1]
    config := { QueryConfig.default with occursCheck := true, heuristics := some [] }
    hooks := ⟨[([], [.recorder 0])], [], walkHooks⟩ }

/-- A run that condenses a chain, and reports it, agrees with the run that does not. -/
theorem walkHooks_invisible_chained :
    (chained [⟨2⟩]).Observed ∧
      (((chained [⟨2⟩]).buildThen 0 (·.iterate ⟨[], 0⟩ 10 3)).run.run
        (.start 3 0)).2.recorded.toList.any (·.key = .condensed) = true ∧
      Agrees (Agrees.Tried (List.Forall₂ Move.LooksLike))
        ((chained [⟨2⟩]).buildThen 0 (·.moves ⟨[], 0⟩ 3))
        ((chained []).buildThen 0 (·.moves ⟨[], 0⟩ 3)) ∧
      Agrees (Agrees.Tried Eq) ((chained [⟨2⟩]).buildThen 0 (·.iterate ⟨[], 0⟩ 10 3))
        ((chained []).buildThen 0 (·.iterate ⟨[], 0⟩ 10 3)) := by
  have observed : (chained [⟨2⟩]).Observed := ⟨rfl, rfl, nofun, Substitution.acyclic_empty⟩
  exact ⟨observed, by decide +kernel, walkHooks_invisible observed (chained []).hooks rfl rfl 0
    ⟨[], 0⟩ 10 3⟩

end QuerySetup

end RelationalSolver
