import RelationalSolver.Proofs.Stream.Simulation

/-!
# Running goals works through tasks

Applying a goal, trying the rows of a relation and forcing a suspension are runs of
the tasks that they stand for.  A search that makes moves hands out the contexts of
tasks that have nothing left to do.
-/

namespace RelationalSolver

open Engine

variable {program : Program} {goals : List Goal}
variable {tasks next others : List Task} {allotted : Allotments}

theorem runs_freshVars {count : Nat} {before after : Session} {vars : List Var} :
    Runs (freshVars count) before vars after ↔
      vars = newVars before.nextOrdinal count ∧
        after = { before with nextOrdinal := before.nextOrdinal + count } := by
  constructor
  · intro ran
    cases ran
    exact ⟨rfl, rfl⟩
  · rintro ⟨rfl, rfl⟩
    rfl

theorem notify_detached (notice : Notice) : Detached (notify notice) fun _ => True :=
  .modifying (fun _ => rfl) trivial

/-! ## Applying goals -/

namespace Goal

theorem planned_detached (ctx : Context) (parts : List Goal) :
    Detached (planned ctx parts) fun _ => True := by
  rw [planned]
  dsimp only
  split
  · exact .pure trivial
  · apply (Detached.ofBounded fun _ _ => trivial).bind
    rintro ⟨plan, notices⟩ _
    have notified : Detached (notices.forM notify) fun _ => True := by
      induction notices with
      | nil => exact .pure trivial
      | cons notice notices ih => exact (notify_detached notice).bind fun _ _ => ih
    exact notified.bind fun _ _ => .pure trivial

/-- Applying the goal works through a task that begins with it. -/
def AppliesWithin (program : Program) (depth : Nat) : Prop :=
  ∀ (g : Goal) (ctx : Context) (goals : List Goal) (path : Path),
    Simulates program (Stream.outlook goals) (applyWithin depth g ctx)
      [⟨path, .goals ctx (g :: goals)⟩] False

theorem foldlM_simulates {depth : Nat} (applies : AppliesWithin program depth) :
    ∀ (parts goals : List Goal) (s : Stream) (tasks : List Task),
      tasks.map Task.pending = s.pendings (parts ++ goals) →
      Simulates program (Stream.outlook goals)
        (parts.foldlM (fun s g => s.bindBy (applyWithin depth g) g) s) tasks (s.isDoomed = true)
  | [], _, _, _, same => .pure same id
  | part :: parts, goals, s, tasks, same => by
      rw [List.foldlM_cons]
      apply Simulates.bind (Stream.bindBy_simulates _ s tasks same)
      · exact fun answers next => foldlM_simulates applies parts goals answers next
      · exact fun path ctx => applies part ctx (parts ++ goals) path

/-- The branches of a disjunction, numbered on from an index. -/
def branches (path : Path) (ctx : Context) (goals : List Goal) (index : Nat) (parts : List Goal) :
    List Task :=
  parts.mapIdx fun i part => ⟨path ++ [.branch (index + i)], .goals ctx (part :: goals)⟩

theorem branches_cons (path : Path) (ctx : Context) (goals : List Goal) (index : Nat)
    (part : Goal) (parts : List Goal) :
    branches path ctx goals index (part :: parts) =
      [⟨path ++ [.branch index], .goals ctx (part :: goals)⟩] ++
        branches path ctx goals (index + 1) parts := by
  unfold branches
  rw [List.mapIdx_cons]
  simp only [Nat.add_zero, List.singleton_append, List.cons.injEq, true_and]
  congr 1
  funext i part
  rw [Nat.add_right_comm, Nat.add_assoc]

theorem mapM_simulates {depth : Nat} (applies : AppliesWithin program depth) (path : Path)
    (ctx : Context) (goals parts : List Goal) (index : Nat) :
    Simulates program (Stream.outlooks goals) (parts.mapM (applyWithin depth · ctx))
      (branches path ctx goals index parts) False := by
  induction parts generalizing index with
  | nil => exact .pure rfl nofun
  | cons part parts ih =>
      rw [List.mapM_cons, branches_cons]
      apply Simulates.mono _ (.inl : False → False ∨ False)
      apply (applies part ctx goals _).bindBeside
      intro s next same
      apply Simulates.of_perm List.perm_append_comm
      apply Simulates.mono _ (.inr : _ → False ∨ (s.isDoomed = true ∨ False))
      apply (ih (index + 1)).bindBeside
      intro queue last sameLast
      apply Simulates.of_perm List.perm_append_comm
      apply Simulates.pure
      · rw [List.map_append, same, sameLast]
        rfl
      · intro lost
        exact Bool.or_eq_true_iff.mpr (lost.symm.imp_left (·.resolve_right id))

theorem fresh_simulates (names : List String) (body : Goal) (ctx : Context) (goals : List Goal)
    (path : Path) (depth : Nat) :
    Simulates program (Stream.outlook goals) (applyWithin (depth + 1) (.fresh names body) ctx)
      [⟨path, .goals ctx (.fresh names body :: goals)⟩] False := by
  intro before s after ran
  rcases runs_bind.mp ran with ⟨vars, between, allots, rest⟩
  rcases runs_bind.mp rest with ⟨_, _, fires, ends⟩
  rcases runs_freshVars.mp allots with ⟨rfl, rfl⟩
  rcases runs_pure.mp ends with ⟨rfl, rfl⟩
  refine ⟨[(path, names.length)], _, .expand (.fresh path ctx goals names body) [], ?_, rfl, nofun⟩
  exact (Context.fire_detached _ _).nextOrdinal_eq fires

theorem applyWithin_simulates (depth : Nat) : AppliesWithin program depth := by
  induction depth with
  | zero => exact fun _ _ _ _ => .throw _
  | succ depth ih =>
      intro g ctx goals path
      cases g with
      | succeed => exact .expand (fun _ => .succeed path ctx goals) (.pure rfl nofun)
      | fail => exact .expand (fun _ => .fail path ctx goals) (.pure rfl nofun)
      | equal a b =>
          apply Simulates.bindDetached (Context.unify_detached ctx a b).attempt
          rintro attempted ⟨before, after, ran⟩
          cases attempted with
          | error collision => exact Stream.aborted_simulates _
          | ok result =>
              have returned := (runs_attempt_ok.mp ran).returns
              apply Simulates.expand fun _ => .equal path goals returned
              cases result <;> exact .pure rfl nofun
      | constrain c =>
          apply Simulates.bindDetached (Context.constrain_detached c)
          intro result returned
          apply Simulates.expand fun _ => .constrain path goals returned
          cases result <;> exact .pure rfl nofun
      | conj parts constraints =>
          apply Simulates.bindDetached (Context.constrainAll_detached constraints)
          intro result returned
          cases result with
          | none => exact .expand (fun _ => .refused path goals returned) (.pure rfl nofun)
          | some next =>
              apply Simulates.bindDetached (planned_detached next parts)
              intro planned plans
              apply Simulates.bindDetached (notify_detached _)
              intro _ _
              apply Simulates.expand fun _ => .conj path goals returned plans
              exact (foldlM_simulates ih planned goals (.unit next) _ rfl).mono nofun
      | disj parts constraints =>
          apply Simulates.bindDetached (Context.constrainAll_detached constraints)
          intro result returned
          apply Simulates.expand fun _ => .disj path goals returned
          cases result with
          | none => exact .pure rfl nofun
          | some next =>
              have simulates : Simulates program (Stream.outlook goals)
                  (parts.mapM (applyWithin depth · next) >>= fun queue => pure (.interleave queue))
                  (branches path next goals 0 parts) False :=
                (mapM_simulates ih path next goals parts 0).bind fun queue _ same =>
                  Stream.interleave_simulates queue same
              simpa [branches] using simulates
      | fresh names body => exact fresh_simulates names body ctx goals path depth
      | delay body => exact .expand (fun _ => .delay path ctx goals body) (.pure rfl nofun)
      | call name args => exact .pure rfl nofun
      | relation a => exact .pure rfl nofun
      | abort fault => exact Stream.aborted_simulates fault
      | yieldThenAbort fault =>
          exact .expand (fun _ => .yieldThenAbort path ctx goals fault) (.pure rfl nofun)

theorem runBody_simulates (body : Goal) (ctx : Context) (goals : List Goal) (path : Path) :
    Simulates program (Stream.outlook goals) (body.runBody ctx)
      [⟨path, .goals ctx (body :: goals)⟩] False := by
  rw [runBody]
  split
  · exact applyWithin_simulates _ body ctx goals path
  · exact .throw _

end Goal

/-! ## Trying rows -/

namespace RowScan

theorem report_detached (scan : RowScan) (ctx : Context) (key : EventKey) (notice : Notice) :
    Detached (scan.report ctx key notice) fun _ => True := by
  apply (notify_detached notice).bind
  intro _ _
  split
  · exact Context.fire_detached _ _
  · exact .pure trivial

theorem tryRows_simulates (limit : Nat) (scan : RowScan) (goals : List Goal) (path : Path) :
    Simulates program (Stream.outlook goals) (scan.tryRows limit) [⟨path, .scan scan goals⟩]
      False := by
  fun_induction tryRows limit scan with
  | case1 _ scan ended =>
      exact .expand (fun _ => .exhausted path goals ended) (.pure rfl nofun)
  | case2 => exact .throw _
  | case3 => exact Stream.aborted_simulates _
  | case4 scan row rows _ next later fits ih =>
      apply Simulates.bindDetached (Context.unifyAll_detached scan.context scan.args row).attempt
      rintro attempted ⟨before, after, ran⟩
      cases attempted with
      | error collision => exact Stream.aborted_simulates _
      | ok result =>
          apply Simulates.expand fun _ =>
            .row path goals next (runs_attempt_ok.mp ran).returns
          cases result with
          | none => exact .bindDetached (report_detached ..) fun _ _ => ih
          | some found => exact .bindDetached (report_detached ..) fun _ _ => .pure rfl nofun

theorem run_simulates (patience : Nat) (scan : RowScan) (goals : List Goal) (path : Path) :
    Simulates program (Stream.outlook goals) (scan.run patience) [⟨path, .scan scan goals⟩]
      False := by
  rw [run]
  split <;> exact tryRows_simulates _ scan goals path

end RowScan

/-! ## Forcing -/

/-- No task is work that does not come from a goal. -/
def Native (tasks : List Task) : Prop := ∀ task ∈ tasks, task.pending ≠ .foreign

theorem Expands.native {first : Nat} {task : Task} {expanded : List Task}
    (expands : Expands program first task expanded allotted) : Native expanded := by
  intro other mem
  cases expands <;> simp only [Task.ofContexts, List.mem_append, List.mem_map, List.mem_flatMap,
    List.mem_mapIdx, List.mem_singleton, List.not_mem_nil] at mem <;> grind

theorem Evolves.native {lossy : Prop} {first : Nat}
    (evolves : Evolves program lossy first tasks allotted next) (native : Native tasks) :
    Native next := by
  induction evolves with
  | perm same => exact fun task mem => native task (same.mem_iff.mpr mem)
  | expand expands others =>
      intro task mem
      rcases List.mem_append.mp mem with mem | mem
      · exact expands.native task mem
      · exact native task (List.mem_cons_of_mem _ mem)
  | drop _ _ _ => exact fun task mem => native task (List.mem_cons_of_mem _ mem)
  | trans _ _ first second => exact second (first native)

theorem Continuation.resume_simulates (last : Continuation)
    (same : tasks.map Task.pending = last.pendings goals) :
    Simulates program (Stream.outlook goals) last.resume tasks (last.isDoomed = true) := by
  cases last with
  | stream s => exact .pure same id
  | bind s goal =>
      exact Stream.bindBy_simulates
        (fun path ctx => Goal.applyWithin_simulates _ goal ctx goals path) s tasks same

theorem Stream.andThen_simulates (s : Stream) (last : Continuation)
    (same : tasks.map Task.pending = s.pendings goals ++ last.pendings goals) :
    Simulates program (outlook goals) (s.andThen last) tasks
      (s.isDoomed = true ∨ last.isDoomed = true) := by
  cases s with
  | empty => exact (last.resume_simulates same).mono fun lost => lost.resolve_left nofun
  | ready ctx rest => exact followBy_simulates _ last same
  | suspended work => exact followBy_simulates _ last same
  | aborted fault => exact followBy_simulates _ last same

/-- Forcing a suspension works through the tasks that it stands for. -/
theorem Work.force_simulates : ∀ (work : Work) (goals : List Goal) (tasks : List Task),
    Native tasks → tasks.map Task.pending = work.pendings goals →
      Simulates program (Stream.outlook goals) (work.force program) tasks (work.isDoomed = true)
  | .run goal ctx, goals, tasks, _, same => by
      rcases List.map_eq_singleton_iff.mp same with ⟨task, rfl, pending⟩
      rw [task.eq_of_pending pending]
      exact (goal.runBody_simulates ctx goals task.path).mono nofun
  | .call name args ctx, goals, tasks, _, same => by
      rcases List.map_eq_singleton_iff.mp same with ⟨task, rfl, pending⟩
      rw [task.eq_of_pending pending, force]
      split
      · rename_i definition defined
        apply Simulates.expand fun _ => .call task.path ctx goals args defined
        exact (Goal.runBody_simulates _ ctx goals _).mono nofun
      · exact .throw _
  | .openRows application ctx, goals, tasks, _, same => by
      rcases List.map_eq_singleton_iff.mp same with ⟨task, rfl, pending⟩
      rw [task.eq_of_pending pending, force, map_eq_pure_bind]
      have detached : Detached (ofBounded (RowScan.start application ctx))
          fun scan => RowScan.start application ctx = .ok scan := .ofBounded fun _ => id
      apply Simulates.bindDetached detached
      intro scan returned
      apply Simulates.expand fun _ => .relation task.path goals (detached.of_returns returned)
      exact .pure rfl nofun
  | .scan rows, goals, tasks, _, same => by
      rcases List.map_eq_singleton_iff.mp same with ⟨task, rfl, pending⟩
      rw [task.eq_of_pending pending]
      exact (rows.run_simulates program.patience goals task.path).mono nofun
  | .pull supply, goals, tasks, native, same => by
      rcases List.map_eq_singleton_iff.mp same with ⟨task, rfl, pending⟩
      exact absurd pending (native task (List.mem_singleton_self task))
  | .build recipe, goals, tasks, native, same => by
      rcases List.map_eq_singleton_iff.mp same with ⟨task, rfl, pending⟩
      exact absurd pending (native task (List.mem_singleton_self task))
  | .bind work goal, goals, tasks, native, same =>
      (force_simulates work (goal :: goals) tasks native same).bind fun s next sameNext =>
        Stream.bindBy_simulates
          (fun path ctx => Goal.applyWithin_simulates _ goal ctx goals path) s next sameNext
  | .append work last, goals, tasks, native, same => by
      rcases List.map_eq_append_iff.mp same with ⟨front, back, rfl, sameFront, sameBack⟩
      have nativeFront : Native front := fun task mem => native task (List.mem_append_left _ mem)
      apply Simulates.mono _ Bool.or_eq_true_iff.mp
      apply (force_simulates work goals front nativeFront sameFront).bindBeside
      intro s next sameNext
      apply s.andThen_simulates last
      rw [List.map_append, sameNext, sameBack]
      rfl
  | .resume last, goals, tasks, _, same => last.resume_simulates same
  | .turn first others, goals, tasks, native, same => by
      rcases List.map_eq_append_iff.mp same with ⟨front, back, rfl, sameFront, sameBack⟩
      have nativeFront : Native front := fun task mem => native task (List.mem_append_left _ mem)
      rw [Work.allPendings_eq] at sameBack
      have doomed : (others.map Stream.suspended).any (·.isDoomed) = Work.anyDoomed others := by
        rw [Stream.any_suspended, Work.anyDoomed_eq]
      apply Simulates.mono _ Bool.or_eq_true_iff.mp
      apply (force_simulates first goals front nativeFront sameFront).bindBeside
      intro s next sameNext
      apply Simulates.of_perm List.perm_append_comm
      have whole : Simulates program (Stream.outlook goals)
          (pure (.interleave (others.map .suspended ++ [s]))) (back ++ next)
          ((Stream.outlooks goals).isDoomed (others.map .suspended ++ [s]) = true) := by
        apply Stream.interleave_simulates
        simp [Stream.outlooks, Stream.flatMap_suspended, sameBack, sameNext, Stream.outlook]
      apply whole.mono
      intro lost
      simpa [Stream.outlooks, Stream.outlook, doomed, or_comm] using lost

/-! ## Making moves -/

/-- The context that a move hands out. -/
def Move.context? : Move → Option Context
  | .yield ctx _ => some ctx
  | _ => none

/-- The moves end with the end of the stream. -/
def Exhausted (moves : List Move) : Prop := moves.getLast? = some .done

theorem exhausted_cons {move : Move} {moves : List Move} (more : move ≠ .done) :
    Exhausted (move :: moves) ↔ Exhausted moves := by
  cases moves with
  | nil => simp [Exhausted, more]
  | cons next moves => simp [Exhausted, List.getLast?_cons]

/-- An answer as a task that has nothing left to do. -/
def Task.finished (answer : Path × Context) : Task := ⟨answer.1, .goals answer.2 []⟩

/-- A search that makes moves works through its tasks.  It hands out the contexts of
those that have nothing left to do, and none are lost if it comes to its end. -/
theorem Stream.moves_evolves (count : Nat) (s : Stream) (tasks : List Task) (native : Native tasks)
    (same : tasks.map Task.pending = s.pendings []) {before after : Session} {moves : List Move}
    (ran : Runs (s.moves program count) before moves after) :
    (s.isDoomed = true → ¬ Exhausted moves) ∧
      ∃ (allotted : Allotments) (answers : List (Path × Context)) (rest : List Task),
        Evolves program (¬ Exhausted moves) before.nextOrdinal tasks allotted
          (answers.map Task.finished ++ rest) ∧
        answers.map (·.2) = moves.filterMap Move.context? ∧ (Exhausted moves → rest = []) := by
  induction count generalizing s tasks before moves with
  | zero =>
      rcases runs_pure.mp ran with ⟨rfl, rfl⟩
      exact ⟨nofun, [], [], tasks, .refl _, rfl, nofun⟩
  | succ count ih =>
      cases s with
      | empty =>
          cases List.map_eq_nil_iff.mp same
          rcases runs_bind.mp ran with ⟨move, between, moved, ends⟩
          rcases runs_pure.mp moved with ⟨rfl, rfl⟩
          rcases runs_pure.mp ends with ⟨rfl, rfl⟩
          exact ⟨nofun, [], [], [], .refl _, rfl, fun _ => rfl⟩
      | aborted fault =>
          rcases runs_bind.mp ran with ⟨move, between, moved, ends⟩
          rcases runs_pure.mp moved with ⟨rfl, rfl⟩
          rcases runs_pure.mp ends with ⟨rfl, rfl⟩
          exact ⟨fun _ => nofun, [], [], tasks, .refl _, rfl, nofun⟩
      | ready ctx rest =>
          rcases List.map_eq_cons_iff.mp same with ⟨task, others, rfl, pending, sameOthers⟩
          rcases runs_bind.mp ran with ⟨move, between, moved, ends⟩
          rcases runs_pure.mp moved with ⟨rfl, rfl⟩
          rcases runs_map.mp ends with ⟨later, goesOn, rfl⟩
          have nativeOthers : Native others := fun other mem =>
            native other (List.mem_cons_of_mem task mem)
          rcases ih rest others nativeOthers sameOthers goesOn with
            ⟨kept, allotted, answers, left, evolves, yields, ended⟩
          have ends : Exhausted (.yield ctx rest :: later) ↔ Exhausted later := exhausted_cons nofun
          rw [ends]
          refine ⟨kept, allotted, (task.path, ctx) :: answers, left, ?_, ?_, ended⟩
          · rw [task.eq_of_pending pending]
            exact evolves.append_left [⟨task.path, .goals ctx []⟩]
          · rw [List.map_cons, yields, List.filterMap_cons]
            rfl
      | suspended work =>
          rcases runs_bind.mp ran with ⟨move, between, moved, ends⟩
          rcases runs_map.mp moved with ⟨next, forces, rfl⟩
          rcases runs_map.mp ends with ⟨later, goesOn, rfl⟩
          rcases work.force_simulates [] tasks native same before next between forces with
            ⟨allotted, after, evolves, counted, sameNext, doomed⟩
          rcases ih next after (evolves.native native) sameNext goesOn with
            ⟨kept, more, answers, left, goesOn, yields, ended⟩
          rw [counted] at goesOn
          have ends : Exhausted (.forced next :: later) ↔ Exhausted later := exhausted_cons nofun
          rw [ends]
          exact ⟨fun lost => kept (doomed lost), allotted ++ more, answers, left,
            (evolves.mono kept).trans goesOn, yields, ended⟩

/-- Apply the goal to the context, and make moves. -/
def Goal.search (program : Program) (count : Nat) (g : Goal) (ctx : Context) :
    Engine (List Move) := do
  let s ← g.apply ctx
  s.moves program count

theorem Goal.search_evolves (g : Goal) (ctx : Context) (count : Nat) {before after : Session}
    {moves : List Move} (ran : Runs (g.search program count ctx) before moves after) :
    ∃ (allotted : Allotments) (answers : List (Path × Context)) (rest : List Task),
      Evolves program (¬ Exhausted moves) before.nextOrdinal [⟨[], .goals ctx [g]⟩] allotted
        (answers.map Task.finished ++ rest) ∧
      answers.map (·.2) = moves.filterMap Move.context? ∧ (Exhausted moves → rest = []) := by
  rcases runs_bind.mp ran with ⟨s, between, applies, moving⟩
  have native : Native [⟨[], .goals ctx [g]⟩] := List.forall_mem_singleton.mpr nofun
  rcases applyWithin_simulates (g.depth + 1) g ctx [] [] before s between applies with
    ⟨allotted, next, evolves, counted, same, _⟩
  rcases s.moves_evolves count next (evolves.native native) same moving with
    ⟨kept, later, answers, rest, goesOn, yields, ended⟩
  rw [counted] at goesOn
  exact ⟨allotted ++ later, answers, rest, (evolves.mono kept).trans goesOn, yields, ended⟩

end RelationalSolver
