import RelationalSolver.Proofs.Context.Detached
import RelationalSolver.Proofs.Stream.Combination

/-!
# Streams work through tasks

Applying goals, putting streams together and forcing them expands tasks and changes
their order, and nothing else.  Tasks are lost only in streams that are doomed.
-/

namespace RelationalSolver

open Engine

variable {α β : Type} {program : Program} {goals : List Goal}
variable {tasks next others : List Task} {allotted : Allotments}

theorem exists_perm_of_map_perm {f : α → β} {as : List α} {bs : List β}
    (same : (as.map f).Perm bs) : ∃ sorted, as.Perm sorted ∧ sorted.map f = bs := by
  generalize start : as.map f = image at same
  induction same generalizing as with
  | nil => exact ⟨as, .refl _, start⟩
  | cons b _ ih =>
      rcases List.map_eq_cons_iff.mp start with ⟨a, rest, rfl, rfl, mapped⟩
      rcases ih mapped with ⟨sorted, same, image⟩
      exact ⟨a :: sorted, same.cons a, by rw [List.map_cons, image]⟩
  | swap b c _ =>
      rcases List.map_eq_cons_iff.mp start with ⟨a, rest, rfl, rfl, mapped⟩
      rcases List.map_eq_cons_iff.mp mapped with ⟨d, last, rfl, rfl, rfl⟩
      exact ⟨d :: a :: last, .swap d a last, rfl⟩
  | trans _ _ first second =>
      rcases first start with ⟨between, same, image⟩
      rcases second image with ⟨sorted, later, image⟩
      exact ⟨sorted, same.trans later, image⟩

/-- What the results of a computation have still to do, and which of them are
doomed. -/
structure Outlook (α : Type) where
  pendings : α → List Pending
  isDoomed : α → Bool

/-- The contexts of a stream have to go through some goals. -/
def Stream.outlook (goals : List Goal) : Outlook Stream := ⟨(·.pendings goals), (·.isDoomed)⟩

/-- The contexts of several streams have to go through some goals. -/
def Stream.outlooks (goals : List Goal) : Outlook (List Stream) :=
  ⟨(·.flatMap (·.pendings goals)), (·.any (·.isDoomed))⟩

/-- A run of the computation works through the tasks: it ends with what they come
to.  If something was lost before, the result is doomed. -/
def Simulates (program : Program) (outlook : Outlook α) (x : Engine α) (tasks : List Task)
    (doomed : Prop) : Prop :=
  ∀ before a after, Runs x before a after →
    ∃ allotted next,
      Evolves program (outlook.isDoomed a = true) before.nextOrdinal tasks allotted next ∧
      after.nextOrdinal = before.nextOrdinal + allotted.total ∧
      next.map Task.pending = outlook.pendings a ∧ (doomed → outlook.isDoomed a = true)

namespace Simulates

variable {outlook : Outlook α} {later : Outlook β} {x : Engine α} {doomed also : Prop}

/-- The result is there already. -/
theorem pure {a : α} (same : tasks.map Task.pending = outlook.pendings a)
    (kept : doomed → outlook.isDoomed a = true) :
    Simulates program outlook (Pure.pure a) tasks doomed := by
  intro before b after ran
  rcases runs_pure.mp ran with ⟨rfl, rfl⟩
  exact ⟨[], tasks, .refl _, rfl, same, kept⟩

theorem throw (halt : Halt) :
    Simulates program outlook (MonadExcept.throw halt : Engine α) tasks doomed :=
  fun _ _ _ ran => absurd ran not_runs_throw

theorem mono (simulates : Simulates program outlook x tasks doomed) (allowed : also → doomed) :
    Simulates program outlook x tasks also := by
  intro before a after ran
  rcases simulates before a after ran with ⟨allotted, next, evolves, counted, same, kept⟩
  exact ⟨allotted, next, evolves, counted, same, fun lost => kept (allowed lost)⟩

/-- Tasks go on before the computation begins, and may be lost if it gives a
doomed result. -/
theorem after (simulates : Simulates program outlook x next doomed)
    (evolves : ∀ first, Evolves program doomed first tasks [] next) :
    Simulates program outlook x tasks doomed := by
  intro before a after ran
  rcases simulates before a after ran with ⟨allotted, last, goesOn, counted, same, kept⟩
  exact ⟨allotted, last, ((evolves _).mono kept).trans goesOn, counted, same, kept⟩

/-- A task expands before the computation begins. -/
theorem expand {task : Task} {expanded : List Task}
    (expands : ∀ first, Expands program first task expanded [])
    (simulates : Simulates program outlook x expanded doomed) :
    Simulates program outlook x [task] doomed := by
  apply simulates.after
  intro first
  have evolves : Evolves program doomed first [task] [] (expanded ++ []) :=
    .expand (expands first) []
  rwa [List.append_nil] at evolves

theorem of_perm (same : tasks.Perm next) (simulates : Simulates program outlook x next doomed) :
    Simulates program outlook x tasks doomed := simulates.after fun _ => .perm same

/-- Tasks are lost where the result is doomed in any case. -/
theorem losing (front back : List Task) (same : tasks.Perm (front ++ back))
    (simulates : Simulates program outlook x front True) :
    Simulates program outlook x tasks doomed := by
  apply Simulates.mono _ fun _ => trivial
  apply Simulates.of_perm same
  apply simulates.after
  intro first
  have dropped : Evolves program True first (front ++ back) [] (front ++ []) :=
    (Evolves.dropAll trivial back).append_left front
  rwa [List.append_nil] at dropped

/-- The computation goes on with the result of the first one, while other tasks
stand by. -/
theorem bindBeside {f : α → Engine β} (simulates : Simulates program outlook x tasks doomed)
    (others : List Task)
    (goesOn : ∀ a next, next.map Task.pending = outlook.pendings a →
      Simulates program later (f a) (next ++ others) (outlook.isDoomed a = true ∨ also)) :
    Simulates program later (x >>= f) (tasks ++ others) (doomed ∨ also) := by
  intro before b after ran
  rcases runs_bind.mp ran with ⟨a, between, ran, rest⟩
  rcases simulates before a between ran with ⟨allotted, next, evolves, counted, same, kept⟩
  rcases goesOn a next same between b after rest with
    ⟨more, last, ends, countedLater, sameLater, keptLater⟩
  rw [counted] at ends countedLater
  have first := (evolves.append_right others).mono fun lost => keptLater (.inl lost)
  refine ⟨allotted ++ more, last, first.trans ends, ?_, sameLater, ?_⟩
  · rw [countedLater, Allotments.total_append, Nat.add_assoc]
  · exact fun lost => keptLater (lost.imp_left kept)

theorem bind {f : α → Engine β} (simulates : Simulates program outlook x tasks doomed)
    (goesOn : ∀ a next, next.map Task.pending = outlook.pendings a →
      Simulates program later (f a) next (outlook.isDoomed a = true)) :
    Simulates program later (x >>= f) tasks doomed := by
  have beside : Simulates program later (x >>= f) (tasks ++ []) (doomed ∨ False) := by
    apply simulates.bindBeside []
    intro a next same
    rw [List.append_nil]
    exact (goesOn a next same).mono fun lost => lost.resolve_right id
  rw [List.append_nil] at beside
  exact beside.mono .inl

/-- A detached computation decides how work goes on. -/
theorem bindDetached {condition : β → Prop} {y : Engine β} {f : β → Engine α}
    (detached : Detached y condition)
    (goesOn : ∀ b, Returns y b → Simulates program outlook (f b) tasks doomed) :
    Simulates program outlook (y >>= f) tasks doomed := by
  intro before a after ran
  rcases runs_bind.mp ran with ⟨b, between, ran, rest⟩
  rcases goesOn b ran.returns between a after rest with
    ⟨allotted, next, evolves, counted, same, kept⟩
  rw [detached.nextOrdinal_eq ran] at evolves counted
  exact ⟨allotted, next, evolves, counted, same, kept⟩

end Simulates

/-! ## Putting streams together -/

namespace Stream

/-- A fault loses all that was still to be done. -/
theorem aborted_simulates (fault : Fault) {doomed : Prop} :
    Simulates program (outlook goals) (pure (.aborted fault)) tasks doomed :=
  Simulates.losing [] tasks (.refl _) (.pure rfl fun _ => rfl)

theorem followBy_simulates (s : Stream) (last : Continuation)
    (same : tasks.map Task.pending = s.pendings goals ++ last.pendings goals) :
    Simulates program (outlook goals) (pure (s.followBy last)) tasks
      (s.isDoomed = true ∨ last.isDoomed = true) := by
  rcases s.pendings_followBy last goals with kept | ⟨lost, doomed⟩
  · exact .pure (same.trans kept.symm) (s.isDoomed_followBy last)
  · rcases List.map_eq_append_iff.mp same with ⟨front, back, rfl, sameFront, _⟩
    exact .losing front back (.refl _) (.pure (sameFront.trans lost.symm) fun _ => doomed)

theorem bindBy_simulates {run : Context → Engine Stream} {goal : Goal}
    (runs : ∀ path ctx,
      Simulates program (outlook goals) (run ctx) [⟨path, .goals ctx (goal :: goals)⟩] False) :
    ∀ (s : Stream) (tasks : List Task), tasks.map Task.pending = s.pendings (goal :: goals) →
      Simulates program (outlook goals) (s.bindBy run goal) tasks (s.isDoomed = true)
  | .empty, _, same => .pure same id
  | .aborted _, _, same => .pure same id
  | .suspended _, _, same => .pure same id
  | .ready ctx rest, tasks, same => by
      rcases List.map_eq_cons_iff.mp same with ⟨task, others, rfl, pending, sameOthers⟩
      cases task with
      | mk path pendingGoals =>
          cases pending
          apply Simulates.mono _ (.inr : _ → False ∨ rest.isDoomed = true)
          apply (runs path ctx).bindBeside others
          intro answers next sameNext
          cases answers with
          | empty =>
              cases List.map_eq_nil_iff.mp sameNext
              apply (bindBy_simulates runs rest others sameOthers).mono
              exact fun lost => lost.resolve_left nofun
          | ready c s =>
              apply followBy_simulates
              rw [List.map_append, sameNext, sameOthers]
              rfl
          | suspended work =>
              apply followBy_simulates
              rw [List.map_append, sameNext, sameOthers]
              rfl
          | aborted fault =>
              apply followBy_simulates
              rw [List.map_append, sameNext, sameOthers]
              rfl

theorem interleave_simulates (queue : List Stream)
    (same : tasks.map Task.pending = (outlooks goals).pendings queue) :
    Simulates program (outlook goals) (pure (.interleave queue)) tasks
      ((outlooks goals).isDoomed queue = true) := by
  have whole : queue.flatMap (·.pendings goals) = tasks.map Task.pending := same.symm
  rcases interleave_keeps goals queue with ⟨doomed, kept⟩ | ⟨doomed, lost, kept⟩
  · rw [whole] at kept
    rcases exists_perm_of_map_perm kept.symm with ⟨sorted, perm, mapped⟩
    exact .of_perm perm (.pure mapped doomed.trans)
  · rw [whole] at kept
    rcases exists_perm_of_map_perm kept.symm with ⟨sorted, perm, mapped⟩
    rcases List.map_eq_append_iff.mp mapped with ⟨front, back, rfl, sameFront, _⟩
    exact .losing front back perm (.pure sameFront fun _ => doomed)

end Stream

end RelationalSolver
