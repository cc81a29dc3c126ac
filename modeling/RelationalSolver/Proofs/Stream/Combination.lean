import RelationalSolver.Proofs.Stream.Tasks

/-!
# Combining streams

One stream after the other, or streams that take turns, have to do together what
each of them has to do.  Something is lost only if the whole is doomed.
-/

namespace RelationalSolver

/-! ## Streams one after the other -/

theorem Stream.pendings_followBy (next : Continuation) (goals : List Goal) : ∀ s : Stream,
    (s.followBy next).pendings goals = s.pendings goals ++ next.pendings goals ∨
      ((s.followBy next).pendings goals = s.pendings goals ∧
        (s.followBy next).isDoomed = true)
  | .empty => .inl rfl
  | .ready ctx rest => by
      rcases pendings_followBy next goals rest with kept | ⟨lost, doomed⟩
      · exact .inl (congrArg (Pending.goals ctx goals :: ·) kept)
      · exact .inr ⟨congrArg (Pending.goals ctx goals :: ·) lost, doomed⟩
  | .suspended work => .inl rfl
  | .aborted fault => .inr ⟨rfl, rfl⟩

theorem Stream.isDoomed_followBy (next : Continuation) : ∀ s : Stream,
    s.isDoomed = true ∨ next.isDoomed = true → (s.followBy next).isDoomed = true
  | .empty, doomed => by
      rcases doomed with doomed | doomed
      · cases doomed
      · exact doomed
  | .ready ctx rest, doomed => isDoomed_followBy next rest doomed
  | .suspended work, doomed => Bool.or_eq_true_iff.mpr doomed
  | .aborted fault, _ => rfl

/-! ## Streams that take turns -/

theorem Work.allPendings_eq (goals : List Goal) (works : List Work) :
    Work.allPendings goals works = works.flatMap (·.pendings goals) := by
  induction works with
  | nil => rfl
  | cons work works ih => rw [Work.allPendings, ih, List.flatMap_cons]

theorem Work.anyDoomed_eq (works : List Work) : Work.anyDoomed works = works.any (·.isDoomed) := by
  induction works with
  | nil => rfl
  | cons work works ih => rw [Work.anyDoomed, ih, List.any_cons]

namespace Stream

variable {goals : List Goal}

theorem flatMap_suspended (goals : List Goal) (works : List Work) :
    (works.map Stream.suspended).flatMap (·.pendings goals) =
      works.flatMap (·.pendings goals) := by
  rw [List.flatMap_map]
  rfl

theorem any_suspended (works : List Work) :
    (works.map Stream.suspended).any (·.isDoomed) = works.any (·.isDoomed) := by
  rw [List.any_map]
  rfl

theorem pendings_ofWorks (goals : List Goal) (works : List Work) :
    (ofWorks works).pendings goals = works.flatMap (·.pendings goals) := by
  cases works with
  | nil => rfl
  | cons work others =>
      cases others with
      | nil => simp [ofWorks, pendings]
      | cons other others =>
          change work.pendings goals ++ Work.allPendings goals (other :: others) = _
          rw [Work.allPendings_eq]
          rfl

theorem isDoomed_ofWorks (works : List Work) :
    (ofWorks works).isDoomed = works.any (·.isDoomed) := by
  cases works with
  | nil => rfl
  | cons work others =>
      cases others with
      | nil => simp [ofWorks, isDoomed]
      | cons other others =>
          change (work.isDoomed || Work.anyDoomed (other :: others)) = _
          rw [Work.anyDoomed_eq]
          rfl

/-- What a turn leaves of the streams of a queue and of those passed over. -/
def TurnKeeps (goals : List Goal) (whole : List Pending) (doomed : Bool) : Turn → Prop
  | .allSuspended works =>
      (works.flatMap (·.pendings goals)).Perm whole ∧ works.any (·.isDoomed) = doomed
  | .ended queue =>
      (queue.flatMap (·.pendings goals)).Perm whole ∧ queue.any (·.isDoomed) = doomed
  | .ready ctx queue =>
      (Pending.goals ctx goals :: queue.flatMap (·.pendings goals)).Perm whole ∧
      queue.any (·.isDoomed) = doomed
  | .aborted _ => True

theorem TurnKeeps.congr {whole other : List Pending} {doomed : Bool} {turn : Turn}
    (keeps : TurnKeeps goals whole doomed turn) (same : whole.Perm other) :
    TurnKeeps goals other doomed turn := by
  cases turn with
  | allSuspended works => exact ⟨keeps.1.trans same, keeps.2⟩
  | ended queue => exact ⟨keeps.1.trans same, keeps.2⟩
  | ready ctx queue => exact ⟨keeps.1.trans same, keeps.2⟩
  | aborted fault => trivial

theorem turnOf_keeps (goals : List Goal) : ∀ (queue : List Stream) (passed : List Work),
    TurnKeeps goals (queue.flatMap (·.pendings goals) ++ passed.flatMap (·.pendings goals))
      (queue.any (·.isDoomed) || passed.any (·.isDoomed)) (turnOf passed queue)
  | [], passed => ⟨.refl _, by simp⟩
  | .suspended work :: queue, passed => by
      have keeps := turnOf_keeps goals queue (passed ++ [work])
      have doomed : (queue.any (·.isDoomed) || (passed ++ [work]).any (·.isDoomed)) =
          ((Stream.suspended work :: queue).any (·.isDoomed) || passed.any (·.isDoomed)) := by
        simp only [List.any_append, List.any_cons, List.any_nil, Bool.or_false, isDoomed]
        ac_rfl
      rw [turnOf, ← doomed]
      apply keeps.congr
      simp only [List.flatMap_append, List.flatMap_cons, List.flatMap_nil, List.append_nil]
      rw [← List.append_assoc]
      exact List.perm_append_comm.trans (.of_eq (List.append_assoc ..).symm)
  | .empty :: queue, passed => by
      rw [turnOf, TurnKeeps, List.flatMap_append, flatMap_suspended, List.any_append, any_suspended]
      exact ⟨.refl _, rfl⟩
  | .ready ctx rest :: queue, passed => by
      rw [turnOf, TurnKeeps, List.any_append, List.any_append, any_suspended]
      constructor
      · apply List.Perm.cons
        simp only [List.flatMap_append, List.flatMap_cons, List.flatMap_nil, List.append_nil,
          flatMap_suspended]
        exact List.perm_append_comm.trans (.of_eq (List.append_assoc ..).symm)
      · simp only [List.any_cons, List.any_nil, Bool.or_false, isDoomed]
        ac_rfl
  | .aborted fault :: queue, passed => trivial

/-- Streams that take turns have to do what each of them has to do, unless one of
them is doomed. -/
theorem interleave_keeps (goals : List Goal) (queue : List Stream) :
    ((interleave queue).isDoomed = queue.any (·.isDoomed) ∧
        ((interleave queue).pendings goals).Perm (queue.flatMap (·.pendings goals))) ∨
      ((interleave queue).isDoomed = true ∧
        ∃ lost, ((interleave queue).pendings goals ++ lost).Perm
          (queue.flatMap (·.pendings goals))) := by
  rw [interleave_eq_takeTurns]
  induction moves : totalReadiness queue using Nat.strongRecOn generalizing queue with
  | ind moves ih =>
      have keeps := turnOf_keeps goals queue []
      have fewer := totalReadiness_turnOf queue []
      simp only [List.flatMap_nil, List.append_nil, List.any_nil, Bool.or_false] at keeps
      rw [takeTurns_eq]
      cases turn : turnOf [] queue with
      | allSuspended works =>
          rw [turn] at keeps
          left
          dsimp only
          rw [isDoomed_ofWorks, pendings_ofWorks]
          exact ⟨keeps.2, keeps.1⟩
      | ended next =>
          rw [turn] at keeps fewer
          dsimp only at fewer ⊢
          rw [← keeps.2]
          rcases ih (totalReadiness next) (by omega) next rfl with
            ⟨doomed, same⟩ | ⟨doomed, lost, same⟩
          · exact .inl ⟨doomed, same.trans keeps.1⟩
          · exact .inr ⟨doomed, lost, same.trans keeps.1⟩
      | ready ctx next =>
          rw [turn] at keeps fewer
          dsimp only at fewer ⊢
          rw [← keeps.2]
          rcases ih (totalReadiness next) (by omega) next rfl with
            ⟨doomed, same⟩ | ⟨doomed, lost, same⟩
          · exact .inl ⟨doomed, (same.cons _).trans keeps.1⟩
          · exact .inr ⟨doomed, lost, (same.cons _).trans keeps.1⟩
      | aborted fault =>
          right
          exact ⟨rfl, queue.flatMap (·.pendings goals), .refl _⟩

end Stream

end RelationalSolver
