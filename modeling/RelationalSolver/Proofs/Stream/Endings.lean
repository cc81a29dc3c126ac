import RelationalSolver.Proofs.Session.Engine
import RelationalSolver.Proofs.Stream.Fairness

/-!
# Streams that come to an end, and what comes after them

Where nothing depends on the session, a suspension gives the same stream whenever it is
forced.  What a goal makes of one context of a stream comes after what it makes of the
contexts before that one, so it is reached if all of this comes to an end.
-/

namespace RelationalSolver

open Engine

/-- Forcing with the same result in every session. -/
def Forcing.always (program : Program) : Forcing where
  State := Unit
  ordinal _ := 0
  Forces _ work next _ := Always (work.force program) next
  functional := Always.unique
  transfers forces _ := ⟨(), forces⟩
  grows _ := Nat.le_refl 0
  turn _ forces := forces.bind (always_pure _)

variable {program : Program} {ctx mid other result : Context} {s t next : Stream} {work : Work}
variable {count : Nat} {last : Continuation} {goal : Goal}

namespace Stream

/-- In every session, a run of the stream yields the context in time. -/
theorem Yields.inSessions : ∀ {state : Unit} {s : Stream} {count : Nat},
    Yields (.always program) ctx state s count → ∀ start, YieldsWithin program start s ctx count
  | _, _, _, .here, start => yieldsWithin_here ctx _
  | _, _, _, .later yields, start => (yields.inSessions start).later _
  | _, _, _, .forced forces yields, start => by
      obtain ⟨after, ran⟩ := forces start
      exact .forced ran (yields.inSessions after)

/-- What a stream yields, it yields by itself. -/
theorem Yields.alone : ∀ {state : Unit} {s : Stream} {count : Nat},
    Yields (.always program) ctx state s count →
      YieldsAlone (.always program) ctx (List.replicate count 0) s
  | _, _, _, .here => .here
  | _, _, _, .later yields => .later yields.alone
  | _, _, _, .forced forces yields => .forced forces yields.alone

/-- Among streams that never abort, a stream keeps what it yields when it takes turns. -/
theorem Yields.interleave {streams : List Stream} {i : Nat} (stands : streams[i]? = some s)
    (steady : ∀ j t, j ≠ i → streams[j]? = some t → Steady (.always program) 0 t)
    (yields : Yields (.always program) ctx () s count) :
    ∃ total, Yields (.always program) ctx () (interleave streams) total := by
  have served : Serves (.always program) 0 () (Stream.interleave streams) s count
      (streams.length * count) := serves_interleave stands steady count
  obtain ⟨ordinals, length, reached, serves⟩ := served
  have same : ordinals = List.replicate count 0 := by
    apply List.eq_replicate_iff.mpr ⟨length, ?_⟩
    intro ordinal member
    obtain ⟨_, _, zero⟩ := reached ordinal member
    exact zero.symm
  obtain ⟨total, _, yields⟩ := serves ctx (same ▸ yields.alone)
  exact ⟨total, yields⟩

/-! ## One stream after the other -/

theorem andThen_eq (goesOn : s ≠ .empty) (last : Continuation) :
    s.andThen last = pure (s.followBy last) := by
  cases s with
  | empty => exact absurd rfl goesOn
  | ready ctx rest => rfl
  | suspended work => rfl
  | aborted fault => rfl

theorem Yields.ne_empty : ∀ {state : Unit} {s : Stream} {count : Nat},
    Yields (.always program) ctx state s count → s ≠ .empty
  | _, _, _, .here => nofun
  | _, _, _, .later _ => nofun
  | _, _, _, .forced _ _ => nofun

/-- A continuation after a stream takes nothing away. -/
theorem Yields.followBy (last : Continuation) : ∀ {state : Unit} {s : Stream} {count : Nat},
    Yields (.always program) ctx state s count →
      Yields (.always program) ctx state (s.followBy last) count
  | _, _, _, .here => .here
  | _, _, _, .later yields => .later (yields.followBy last)
  | _, _, _, @Yields.forced _ _ _ _ work next _ forces yields => by
      have goesOn : Always ((Work.append work last).force program) (next.followBy last) := by
        apply Always.bind forces
        rw [andThen_eq yields.ne_empty]
        exact always_pure _
      exact .forced goesOn (yields.followBy last)

/-- The stream comes to its end, without a fault. -/
inductive Ends (program : Program) : Stream → Prop
  | empty : Ends program .empty
  | ready {rest : Stream} (ctx : Context) (ends : Ends program rest) :
      Ends program (.ready ctx rest)
  | forced {work : Work} {next : Stream} (forces : Always (work.force program) next)
      (ends : Ends program next) : Ends program (.suspended work)

/-- After a stream that ends comes what a continuation goes on with. -/
theorem Ends.yields_followBy (ends : s.Ends program) (resumes : Always last.resume t)
    (yields : Yields (.always program) ctx () t count) :
    ∃ total, Yields (.always program) ctx () (s.followBy last) total := by
  induction ends with
  | empty => exact ⟨count + 1, .forced resumes yields⟩
  | ready other _ ih =>
      obtain ⟨total, yields⟩ := ih
      exact ⟨total, .later yields⟩
  | @forced work next forces ends ih =>
      by_cases ended : next = .empty
      · subst ended
        exact ⟨count + 1, .forced (forces.bind resumes) yields⟩
      · obtain ⟨total, yields⟩ := ih
        have goesOn : Always ((Work.append work last).force program) (next.followBy last) := by
          apply forces.bind
          rw [andThen_eq ended]
          exact always_pure _
        exact ⟨total + 1, .forced goesOn yields⟩

end Stream

/-! ## Feeding the contexts of a stream into a goal -/

/-- In every session this gives one stream, and the stream yields the context. -/
def Provides (program : Program) (x : Engine Stream) (ctx : Context) : Prop :=
  ∃ s count, Always x s ∧ s.Yields (.always program) ctx () count

/-- Applied to the context, the goal gives one stream in every session, and the stream
comes to its end. -/
def Goal.EndsOn (program : Program) (goal : Goal) (ctx : Context) : Prop :=
  ∃ s, Always (goal.apply ctx) s ∧ s.Ends program

namespace Stream

/-- The stream hands out the second context before it first hands out the first one. -/
inductive HandsOutBefore (program : Program) (mid other : Context) : Stream → Prop
  | here {rest : Stream} (different : other ≠ mid) :
      HandsOutBefore program mid other (.ready other rest)
  | later {first : Context} {rest : Stream} (different : first ≠ mid)
      (hands : HandsOutBefore program mid other rest) :
      HandsOutBefore program mid other (.ready first rest)
  | forced {work : Work} {next : Stream} (forces : Always (work.force program) next)
      (hands : HandsOutBefore program mid other next) :
      HandsOutBefore program mid other (.suspended work)

/-- The goal comes to its end on all contexts that the stream hands out before the given
one. -/
def Clears (program : Program) (goal : Goal) (mid : Context) (s : Stream) : Prop :=
  ∀ other, s.HandsOutBefore program mid other → goal.EndsOn program other

/-- Nothing comes before a context that is ready first. -/
theorem clears_here (rest : Stream) : (ready mid rest).Clears program goal mid := by
  intro other hands
  cases hands with
  | here different => exact absurd rfl different
  | later different _ => exact absurd rfl different

theorem Clears.ready {rest : Stream} (ends : goal.EndsOn program ctx)
    (clears : rest.Clears program goal mid) : (Stream.ready ctx rest).Clears program goal mid := by
  intro other hands
  cases hands with
  | here => exact ends
  | later _ hands => exact clears other hands

theorem bind_ready_of_empty {rest : Stream} (applies : Always (goal.apply ctx) .empty)
    (binds : Always (rest.bind goal) t) : Always ((ready ctx rest).bind goal) t :=
  applies.bind binds

theorem bind_ready {rest : Stream} (applies : Always (goal.apply ctx) s) (goesOn : s ≠ .empty) :
    Always ((ready ctx rest).bind goal) (s.followBy (.bind rest goal)) := by
  apply applies.bind
  cases s with
  | empty => exact absurd rfl goesOn
  | ready other rest => exact always_pure _
  | suspended work => exact always_pure _
  | aborted fault => exact always_pure _

/-- What a goal provides for a context is provided when a stream is fed into it that
yields the context, if the goal comes to its end on the contexts before. -/
theorem Yields.bind (provides : Provides program (goal.apply mid) result) :
    ∀ {state : Unit} {s : Stream} {count : Nat}, Yields (.always program) mid state s count →
      s.Clears program goal mid → Provides program (s.bind goal) result
  | _, .ready _ rest, _, .here, _ => by
      obtain ⟨answers, total, applies, yields⟩ := provides
      exact ⟨_, total, bind_ready applies yields.ne_empty, yields.followBy _⟩
  | _, .ready first rest, _, .later yields, clears => by
      by_cases same : first = mid
      · subst same
        obtain ⟨answers, total, applies, yields⟩ := provides
        exact ⟨_, total, bind_ready applies yields.ne_empty, yields.followBy _⟩
      · obtain ⟨later, total, binds, yields⟩ :=
          Yields.bind provides yields fun other hands => clears other (.later same hands)
        obtain ⟨answers, applies, ends⟩ := clears first (.here same)
        by_cases ended : answers = .empty
        · subst ended
          exact ⟨later, total, bind_ready_of_empty applies binds, yields⟩
        · have resumes : Always (Continuation.bind rest goal).resume later := binds
          obtain ⟨more, yields⟩ := ends.yields_followBy resumes yields
          exact ⟨_, more, bind_ready applies ended, yields⟩
  | _, .suspended work, _, .forced forces yields, clears => by
      obtain ⟨later, total, binds, yields⟩ :=
        Yields.bind provides yields fun other hands => clears other (.forced forces hands)
      exact ⟨.suspended (.bind work goal), total + 1, always_pure _,
        .forced (forces.bind binds) yields⟩

end Stream

end RelationalSolver
