import RelationalSolver.Proofs.Stream.Numbered
import RelationalSolver.Stream.Contexts

/-!
# What a stream shows

A stream that is pulled hands out contexts, and has ended, aborted, stopped short or not yet
come to an end when some suspensions have been forced.  All of this happens in a session that
other streams may have used before, so what a stream shows begins in a session and, where the
stream ends, leaves one.
-/

namespace RelationalSolver

open Engine

/-- How a search stands and, where it has ended, in which session. -/
inductive Standing where
  | unfinished
  | done (after : Session)
  | fault (fault : Fault)
  | halt (halt : Halt)

/-- The search has not come to its end. -/
def Standing.Cuts (standing : Standing) : Prop := ∀ after, standing ≠ .done after

theorem Standing.cuts_unfinished : Standing.unfinished.Cuts := by simp [Cuts]

theorem Standing.cuts_fault (reason : Fault) : (Standing.fault reason).Cuts := by simp [Cuts]

theorem Standing.cuts_halt (reason : Halt) : (Standing.halt reason).Cuts := by simp [Cuts]

variable {program : Program} {s rest last : Stream} {work : Work} {ctx : Context}
variable {x : Engine Stream} {count : Nat} {shown : List Context} {standing : Standing}
variable {before between after : Session}

mutual

/-- With so many suspensions forced, the stream hands out the contexts and stands so. -/
inductive Stream.Shows (program : Program) :
    Stream → Session → Nat → List Context → Standing → Prop
  | unfinished (s : Stream) (before : Session) : Stream.Shows program s before 0 [] .unfinished
  | done (before : Session) : Stream.Shows program .empty before 0 [] (.done before)
  | fault (fault : Fault) (before : Session) :
      Stream.Shows program (.aborted fault) before 0 [] (.fault fault)
  | hand {rest : Stream} {before : Session} {count : Nat} {shown : List Context}
      {standing : Standing} (ctx : Context)
      (later : Stream.Shows program rest before count shown standing) :
      Stream.Shows program (.ready ctx rest) before count (ctx :: shown) standing
  | forced {work : Work} {before : Session} {count : Nat} {shown : List Context}
      {standing : Standing}
      (shows : Engine.Shows program (work.force program) before count shown standing) :
      Stream.Shows program (.suspended work) before (count + 1) shown standing

/-- The stream that is computed shows so much; nothing is shown if it is not computed yet. -/
inductive Engine.Shows (program : Program) :
    Engine Stream → Session → Nat → List Context → Standing → Prop
  | unfinished (x : Engine Stream) (before : Session) :
      Engine.Shows program x before 0 [] .unfinished
  | ran {x : Engine Stream} {s : Stream} {before between : Session} {count : Nat}
      {shown : List Context} {standing : Standing} (ran : Runs x before s between)
      (shows : Stream.Shows program s between count shown standing) :
      Engine.Shows program x before count shown standing
  | halt {x : Engine Stream} {before after : Session} {halt : Halt}
      (halts : x.run.run before = (.error halt, after)) :
      Engine.Shows program x before 0 [] (.halt halt)

end

namespace Engine.Shows

theorem of_pure (shows : Engine.Shows program (pure s) before count shown standing) :
    s.Shows program before count shown standing := by
  cases shows with
  | unfinished => exact .unfinished s before
  | ran ran shows =>
      obtain ⟨rfl, rfl⟩ := runs_pure.mp ran
      exact shows
  | halt halts => cases halts

theorem pure (shows : s.Shows program before count shown standing) :
    Engine.Shows program (Pure.pure s) before count shown standing :=
  .ran (runs_pure.mpr ⟨rfl, rfl⟩) shows

variable {α : Type} {start : Engine α} {f : α → Engine Stream} {a : α}

/-- A computation in two parts shows what the second part shows, once the first has given a
result. -/
theorem of_bind (shows : Engine.Shows program (start >>= f) before count shown standing) :
    (count = 0 ∧ shown = [] ∧ standing = .unfinished) ∨
    (∃ a between, Runs start before a between ∧
      Engine.Shows program (f a) between count shown standing) ∨
    ∃ halt after, start.run.run before = (.error halt, after) ∧
      count = 0 ∧ shown = [] ∧ standing = .halt halt := by
  cases shows with
  | unfinished => exact .inl ⟨rfl, rfl, rfl⟩
  | ran ran shows =>
      obtain ⟨a, between, first, second⟩ := runs_bind.mp ran
      exact .inr (.inl ⟨a, between, first, .ran second shows⟩)
  | halt halts =>
      rw [run_bind] at halts
      cases first : start.run.run before with
      | mk reached between =>
          rw [first] at halts
          cases reached with
          | ok a => exact .inr (.inl ⟨a, between, first, .halt halts⟩)
          | error halt =>
              cases halts
              exact .inr (.inr ⟨_, _, rfl, rfl, rfl, rfl⟩)

theorem bind (ran : Runs start before a between)
    (shows : Engine.Shows program (f a) between count shown standing) :
    Engine.Shows program (start >>= f) before count shown standing := by
  cases shows with
  | unfinished => exact .unfinished _ before
  | ran second shows => exact .ran (runs_bind.mpr ⟨a, between, ran, second⟩) shows
  | halt halts =>
      apply halt
      rw [run_bind, show start.run.run before = (.ok a, between) from ran]
      exact halts

theorem halt_bind {reason : Halt} (halts : start.run.run before = (.error reason, after)) :
    Engine.Shows program (start >>= f) before 0 [] (.halt reason) := by
  apply halt
  rw [run_bind, halts]

end Engine.Shows

/-! ## Pulling -/

namespace Contexts

theorem next_suspended (program : Program) (moves steps : Nat) (work : Work) (before : Session) :
    (next program (moves + 1) ⟨some (.suspended work), steps⟩).run.run before =
      match (work.force program).run.run before with
      | (.ok s, between) => (next program moves ⟨some s, steps + 1⟩).run.run between
      | (.error halt, between) => (.error halt, between) := by
  rw [next]
  simp only [Stream.step, map_eq_pure_bind, bind_assoc, pure_bind]
  rw [run_bind]
  cases (work.force program).run.run before with
  | mk reached between => cases reached <;> rfl

theorem next_forced (ran : Runs (work.force program) before s between) (moves steps : Nat) :
    (next program (moves + 1) ⟨some (.suspended work), steps⟩).run.run before =
      (next program moves ⟨some s, steps + 1⟩).run.run between := by
  rw [next_suspended, show (work.force program).run.run before = (.ok s, between) from ran]

/-- What a pull gives where a stream shows something: the first context, and later the others,
or how the stream ended. -/
theorem next_of_shows (shows : s.Shows program before count shown standing) (steps : Nat) :
    match shown, standing with
    | ctx :: shown, standing => ∃ forced left rest after, count = forced + left ∧
        Runs (next program (forced + 1) ⟨some s, steps⟩) before
          (⟨some rest, steps + forced⟩, some (.ok ctx)) after ∧
        rest.Shows program after left shown standing
    | [], .done after => Runs (next program (count + 1) ⟨some s, steps⟩) before
        (⟨none, steps + count⟩, none) after
    | [], .fault fault => ∃ after, Runs (next program (count + 1) ⟨some s, steps⟩) before
        (⟨none, steps + count⟩, some (.error fault)) after
    | [], .halt halt => ∃ after,
        (next program (count + 1) ⟨some s, steps⟩).run.run before = (.error halt, after)
    | [], .unfinished => True := by
  induction count generalizing s before steps with
  | zero =>
      cases shows with
      | unfinished => trivial
      | done => rfl
      | fault => exact ⟨before, rfl⟩
      | hand _ later => exact ⟨0, 0, _, before, rfl, rfl, later⟩
  | succ count ih =>
      cases shows with
      | hand _ later => exact ⟨0, count + 1, _, before, (Nat.zero_add _).symm, rfl, later⟩
      | @forced work _ _ _ _ shows =>
          cases shows with
          | unfinished => trivial
          | halt halts => exact ⟨_, by rw [next_suspended, halts]⟩
          | ran ran shows =>
              have pulls := ih shows (steps + 1)
              cases shown with
              | cons ctx shown =>
                  obtain ⟨forced, left, rest, after, rfl, pulls, later⟩ := pulls
                  refine ⟨forced + 1, left, rest, after, by omega, ?_, later⟩
                  rw [Nat.add_right_comm] at pulls
                  exact (next_forced ran _ steps).trans pulls
              | nil =>
                  cases standing with
                  | unfinished => trivial
                  | done after =>
                      rw [Nat.add_right_comm] at pulls
                      exact (next_forced ran _ steps).trans pulls
                  | fault fault =>
                      rw [Nat.add_right_comm] at pulls
                      exact pulls.imp fun after pulls => (next_forced ran _ steps).trans pulls
                  | halt halt =>
                      exact pulls.imp fun after pulls => (next_forced ran _ steps).trans pulls

/-- What a pull gave, the stream shows before what is left of it. -/
def Accounts (program : Program) (s : Stream) (before : Session) (forced : Nat)
    (after : Session) : Option (Except Fault Context) → Option Stream → Prop
  | some (.ok ctx), some rest => ∀ count shown standing,
      rest.Shows program after count shown standing →
        s.Shows program before (forced + count) (ctx :: shown) standing
  | some (.error fault), none => s.Shows program before forced [] (.fault fault)
  | none, none => s.Shows program before forced [] (.done after)
  | _, _ => False

/-- A pull gives nothing but what the stream shows, and counts the suspensions. -/
theorem accounts_of_next {moves steps : Nat} {pulled : Contexts}
    {item : Option (Except Fault Context)}
    (ran : Runs (next program moves ⟨some s, steps⟩) before (pulled, item) after) :
    ∃ forced, pulled.steps = steps + forced ∧
      Accounts program s before forced after item pulled.stream := by
  induction moves generalizing s before steps with
  | zero => exact absurd ran not_runs_throw
  | succ moves ih =>
      cases s with
      | empty =>
          cases ran
          exact ⟨0, rfl, .done _⟩
      | aborted fault =>
          cases ran
          exact ⟨0, rfl, .fault fault _⟩
      | ready ctx rest =>
          cases ran
          refine ⟨0, rfl, ?_⟩
          intro count shown standing later
          exact (Nat.zero_add count).symm ▸ .hand ctx later
      | suspended work =>
          rw [Runs, next_suspended] at ran
          cases forced : (work.force program).run.run before with
          | mk reached between =>
              rw [forced] at ran
              cases reached with
              | error halt => cases ran
              | ok s =>
                  obtain ⟨count, steps, accounts⟩ := ih ran
                  refine ⟨count + 1, by omega, ?_⟩
                  revert accounts
                  generalize pulled.stream = left
                  rcases item with _ | fault | ctx <;> rcases left with _ | rest
                  · exact fun shows => .forced (.ran forced shows)
                  · exact id
                  · exact fun shows => .forced (.ran forced shows)
                  · exact id
                  · exact id
                  · intro shows more shown standing later
                    rw [Nat.add_right_comm]
                    exact .forced (.ran forced (shows more shown standing later))

end Contexts

/-! ## Forcing in given sessions -/

namespace Stream

/-- With its suspensions forced in these turns, each begun in the first session and ended in the
second, the stream hands out the contexts and leaves the last stream. -/
inductive Leads (program : Program) :
    Stream → List (Session × Session) → List Context → Stream → Prop
  | here (s : Stream) : Leads program s [] [] s
  | hand {rest last : Stream} {turns : List (Session × Session)} {shown : List Context}
      (ctx : Context) (later : Leads program rest turns shown last) :
      Leads program (.ready ctx rest) turns (ctx :: shown) last
  | forced {work : Work} {next last : Stream} {before after : Session}
      {turns : List (Session × Session)} {shown : List Context}
      (forces : Runs (work.force program) before next after)
      (later : Leads program next turns shown last) :
      Leads program (.suspended work) ((before, after) :: turns) shown last

end Stream

end RelationalSolver
