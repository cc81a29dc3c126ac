import RelationalSolver.Proofs.Stream.Upkeep

/-!
# A search depends on the session through numbers only

What running goals and forcing suspensions gives depends on nothing in the session
but the number of the next new variable.  This number never falls, and where it stays
the outcome does not depend on it either.
-/

namespace RelationalSolver

open Engine

namespace Engine

variable {α β : Type} {x : Engine α} {f : α → Engine β}
variable {condition : α → Prop} {result : β → Prop}

/-- Sessions that agree on the next new variable have the same outcome, and so have all
sessions if there is no new variable.  A result satisfies the condition. -/
def Numbered (x : Engine α) (condition : α → Prop) : Prop :=
  ∀ before, before.nextOrdinal ≤ (x.run.run before).2.nextOrdinal ∧
    (∀ a, (x.run.run before).1 = .ok a → condition a) ∧
    ∀ other : Session, (before.nextOrdinal = other.nextOrdinal ∨
        (x.run.run before).2.nextOrdinal = before.nextOrdinal) →
      (x.run.run before).1 = (x.run.run other).1 ∧
      (x.run.run before).2.nextOrdinal + other.nextOrdinal =
        (x.run.run other).2.nextOrdinal + before.nextOrdinal

theorem Detached.numbered (detached : Detached x condition) : Numbered x condition := by
  obtain ⟨outcome, steady, holds⟩ := detached
  intro before
  obtain ⟨ended, kept⟩ := steady before
  refine ⟨kept.ge, fun a returned => holds a (ended.symm.trans returned), ?_⟩
  intro other _
  obtain ⟨endedOther, keptOther⟩ := steady other
  exact ⟨ended.trans endedOther.symm, by rw [kept, keptOther, Nat.add_comm]⟩

theorem Numbered.bind (first : Numbered x condition)
    (second : ∀ a, condition a → Numbered (f a) result) : Numbered (x >>= f) result := by
  intro before
  obtain ⟨grows, holds, agree⟩ := first before
  rw [run_bind]
  cases ran : x.run.run before with
  | mk ended between =>
      rw [ran] at grows holds agree
      cases ended with
      | error halt =>
          refine ⟨grows, nofun, ?_⟩
          intro other same
          rw [run_bind]
          obtain ⟨outcome, shift⟩ := agree other same
          cases ranOther : x.run.run other with
          | mk endedOther betweenOther =>
              rw [ranOther] at outcome shift
              obtain rfl : _ = endedOther := outcome
              exact ⟨rfl, shift⟩
      | ok a =>
          obtain ⟨growsLater, holdsLater, agreeLater⟩ := second a (holds a rfl) between
          refine ⟨grows.trans growsLater, holdsLater, ?_⟩
          intro other same
          rw [run_bind]
          dsimp only at grows growsLater same agree ⊢
          -- If there is no new variable in all, there is none on the way.
          obtain ⟨outcome, shift⟩ := agree other (by omega)
          cases ranOther : x.run.run other with
          | mk endedOther betweenOther =>
              rw [ranOther] at outcome shift
              obtain rfl : _ = endedOther := outcome
              dsimp only at shift ⊢
              obtain ⟨outcomeLater, shiftLater⟩ := agreeLater betweenOther (by omega)
              exact ⟨outcomeLater, by omega⟩

theorem numbered_freshVars (count : Nat) : Numbered (freshVars count) fun _ => True := by
  intro before
  refine ⟨Nat.le_add_right before.nextOrdinal count, fun _ _ => trivial, ?_⟩
  intro other same
  change before.nextOrdinal = other.nextOrdinal ∨
    before.nextOrdinal + count = before.nextOrdinal at same
  change Except.ok (newVars before.nextOrdinal count) =
      Except.ok (newVars other.nextOrdinal count) ∧
    before.nextOrdinal + count + other.nextOrdinal = other.nextOrdinal + count + before.nextOrdinal
  constructor
  · rcases same with same | none
    · rw [same]
    · rw [Nat.add_eq_left.mp none]
      rfl
  · omega

end Engine

/-- Everything that running goals consists of depends on the numbering only. -/
theorem discipline_numbered : Discipline (fun _ => True) Numbered where
  pure holds := (Detached.pure holds).numbered
  bind first second := first.bind second
  unending := (Detached.throw _).numbered
  arity _ := (Detached.throw _).numbered
  undefinedCall _ := (Detached.throw _).numbered
  notify notice _ := (notify_detached notice).numbered
  freshVars := numbered_freshVars
  fire _ _ _ _ := (Context.fire_detached _ _).numbered
  unify a b _ := ((Context.unify_detached _ a b).attempt.mono fun _ _ _ _ => trivial).numbered
  unifyAll as bs _ :=
    ((Context.unifyAll_detached _ as bs).attempt.mono fun _ _ _ _ => trivial).numbered
  constrain c _ := ((Context.constrain_detached c).mono fun _ _ _ _ => trivial).numbered
  counted _ _ := (Detached.orCrash fun _ => id).numbered

namespace Work

variable {program : Program} {work : Work} {before after other : Session} {next : Stream}

theorem force_numbered (program : Program) (work : Work) :
    Numbered (work.force program) fun _ => True :=
  discipline_numbered.mono (discipline_numbered.force work fun _ _ => trivial)
    fun _ _ => trivial

/-- Forced under the same number, work gives the same stream.  The number does not
matter if there is no new variable. -/
theorem force_agree (ran : Runs (work.force program) before next after)
    (same : before.nextOrdinal = other.nextOrdinal ∨ after.nextOrdinal = before.nextOrdinal) :
    ∃ afterOther, Runs (work.force program) other next afterOther := by
  have agree := (force_numbered program work before).2.2 other
  rw [ran] at agree
  exact ⟨((work.force program).run.run other).2, Prod.ext (agree same).1.symm rfl⟩

theorem nextOrdinal_force_le (ran : Runs (work.force program) before next after) :
    before.nextOrdinal ≤ after.nextOrdinal := by
  have grows := (force_numbered program work before).1
  rw [ran] at grows
  exact grows

end Work

theorem Stream.step_numbered (program : Program) (s : Stream) :
    Numbered (s.step program) fun _ => True := by
  cases s with
  | suspended work =>
      rw [Stream.step, map_eq_pure_bind]
      exact (work.force_numbered program).bind fun _ _ => (Detached.pure trivial).numbered
  | empty => exact (Detached.pure trivial).numbered
  | ready ctx rest => exact (Detached.pure trivial).numbered
  | aborted fault => exact (Detached.pure trivial).numbered

theorem Stream.moves_numbered (program : Program) (count : Nat) (s : Stream) :
    Numbered (s.moves program count) fun _ => True := by
  induction count generalizing s with
  | zero => exact (Detached.pure trivial).numbered
  | succ count ih =>
      have goesOn : ∀ move (next : Stream),
          Numbered (List.cons move <$> next.moves program count) fun _ => True := by
        intro move next
        rw [map_eq_pure_bind]
        exact (ih next).bind fun _ _ => (Detached.pure trivial).numbered
      apply (s.step_numbered program).bind
      intro move _
      cases move with
      | yield ctx rest => exact goesOn _ rest
      | forced next => exact goesOn _ next
      | done => exact (Detached.pure trivial).numbered
      | fault fault => exact (Detached.pure trivial).numbered

theorem Stream.nextOrdinal_moves_le {program : Program} {count : Nat} {s : Stream}
    {moves : List Move} {before after : Session}
    (ran : Runs (s.moves program count) before moves after) :
    before.nextOrdinal ≤ after.nextOrdinal := by
  have grows := (s.moves_numbered program count before).1
  rw [ran] at grows
  exact grows

end RelationalSolver
