import RelationalSolver.Proofs.Context.Operations
import RelationalSolver.Proofs.Stream.Agenda
import RelationalSolver.Proofs.Stream.Answers

/-!
# Grouping the goals of a conjunction

Without a planner, conjunctions whose goals are grouped in different ways show the same: they
hand out the same contexts in the same order and end alike.  They suspend their work at
different places, though, so they need not move in step.  Both tell what their agenda tells,
and the agenda is the same.
-/

namespace RelationalSolver

open Engine Discipline

variable {program : Program} {count more first last : Nat} {agenda : Agenda}

/-- How a search stands. -/
inductive Ending where
  | unfinished
  | done
  | fault (fault : Fault)
  | halt (halt : Halt)

/-- What is seen of a search: the contexts handed out, in order, and how it stands. -/
abbrev Sight := List Context × Ending

/-- One more context was handed out before. -/
def Sight.after (ctx : Context) (sight : Sight) : Sight := (ctx :: sight.1, sight.2)

/-- What is seen of a stream within so many moves, begun in a session. -/
def Stream.seen (program : Program) : Nat → Stream → Session → Sight
  | 0, _, _ => ([], .unfinished)
  | count + 1, s, before =>
      match (s.step program).run.run before with
      | (.ok (.yield ctx rest), after) => Sight.after ctx (rest.seen program count after)
      | (.ok (.forced next), after) => next.seen program count after
      | (.ok .done, _) => ([], .done)
      | (.ok (.fault fault), _) => ([], .fault fault)
      | (.error halt, _) => ([], .halt halt)

/-- What is seen of a goal within so many moves, of which the first is to apply it. -/
def Goal.seen (program : Program) : Nat → Goal → Context → Session → Sight
  | 0, _, _, _ => ([], .unfinished)
  | count + 1, g, ctx, before =>
      match (g.apply ctx).run.run before with
      | (.ok s, after) => s.seen program count after
      | (.error halt, _) => ([], .halt halt)

theorem Stream.seen_suspended (program : Program) (count : Nat) (work : Work) (before : Session) :
    (Stream.suspended work).seen program (count + 1) before =
      match (work.force program).run.run before with
      | (.ok s, after) => s.seen program count after
      | (.error halt, _) => ([], .halt halt) := by
  rw [seen, step, run_map]
  cases (work.force program).run.run before with
  | mk outcome after => cases outcome <;> rfl

namespace Agenda

/-- What working through an agenda tells, with so many errands and contexts handed out. -/
inductive Tells (program : Program) : Nat → Agenda → Nat → Sight → Prop
  | unfinished (agenda : Agenda) (first : Nat) : Tells program 0 agenda first ([], .unfinished)
  | done (first : Nat) : Tells program 0 [] first ([], .done)
  | fault (fault : Fault) (others : Agenda) (first : Nat) :
      Tells program 0 (.stop fault :: others) first ([], .fault fault)
  | hand (ctx : Context) {others : Agenda} {first count : Nat} {sight : Sight}
      (later : Tells program count others first sight) :
      Tells program (count + 1) (.pass ctx [] :: others) first (sight.after ctx)
  | step {agenda after : Agenda} {x : Engine Agenda} {first between count : Nat} {sight : Sight}
      (begins : agenda.next program = some x) (gives : x.Gives first (.ok after) between)
      (later : Tells program count after between sight) :
      Tells program (count + 1) agenda first sight
  | halt {agenda : Agenda} {x : Engine Agenda} {first last : Nat} {halt : Halt}
      (begins : agenda.next program = some x) (gives : x.Gives first (.error halt) last) :
      Tells program 1 agenda first ([], .halt halt)

variable {after : Agenda} {between : Nat} {halt : Halt} {sight : Sight}

namespace Does

theorem tells (does : Does program count agenda first (.ok after) between)
    (tells : Tells program more after between sight) :
    Tells program (count + more) agenda first sight := by
  generalize same : Except.ok after = reached at does
  induction does with
  | rest agenda first =>
      cases same
      rw [Nat.zero_add]
      exact tells
  | step begins gives _ ih =>
      rw [Nat.add_right_comm]
      exact .step begins gives (ih tells same)
  | halt => cases same

theorem tells_halt (does : Does program count agenda first (.error halt) last) :
    Tells program count agenda first ([], .halt halt) := by
  generalize same : Except.error halt = reached at does
  induction does with
  | rest => cases same
  | step begins gives _ ih => exact .step begins gives (ih same)
  | halt begins gives =>
      cases same
      exact .halt begins gives

end Does

namespace Tells

variable {x : Engine Agenda}

/-- What is told of an agenda is told after its first errand, unless nothing is told yet. -/
theorem of_step (tells : Tells program more agenda first sight)
    (begins : agenda.next program = some x) (gives : x.Gives first (.ok after) between) :
    (∃ left, more = left + 1 ∧ Tells program left after between sight) ∨
      sight = ([], .unfinished) := by
  cases tells with
  | unfinished => exact .inr rfl
  | done => cases begins
  | fault => cases begins
  | hand ctx later => cases begins
  | step other others later =>
      rw [begins] at other
      cases other
      obtain ⟨equal, rfl⟩ := gives.unique others
      cases equal
      exact .inl ⟨_, rfl, later⟩
  | halt other others =>
      rw [begins] at other
      cases other
      cases (gives.unique others).1

theorem of_halt (tells : Tells program more agenda first sight)
    (begins : agenda.next program = some x) (gives : x.Gives first (.error halt) last) :
    sight = ([], .halt halt) ∨ sight = ([], .unfinished) := by
  cases tells with
  | unfinished => exact .inr rfl
  | done => cases begins
  | fault => cases begins
  | hand ctx later => cases begins
  | step other others later =>
      rw [begins] at other
      cases other
      cases (gives.unique others).1
  | halt other others =>
      rw [begins] at other
      cases other
      cases (gives.unique others).1
      exact .inl rfl

end Tells

namespace Does

/-- What is told of an agenda is told after so many errands, unless nothing is told before. -/
theorem told (does : Does program count agenda first (.ok after) between)
    (tells : Tells program more agenda first sight) :
    (∃ left, more = count + left ∧ Tells program left after between sight) ∨
      sight = ([], .unfinished) := by
  generalize same : Except.ok after = reached at does
  induction does generalizing more with
  | rest agenda first =>
      cases same
      exact .inl ⟨more, (Nat.zero_add more).symm, tells⟩
  | step begins gives _ ih =>
      rcases tells.of_step begins gives with ⟨_, rfl, later⟩ | nothing
      · rcases ih later same with ⟨left, rfl, told⟩ | nothing
        · exact .inl ⟨left, by omega, told⟩
        · exact .inr nothing
      · exact .inr nothing
  | halt => cases same

theorem told_halt (does : Does program count agenda first (.error halt) last)
    (tells : Tells program more agenda first sight) :
    sight = ([], .halt halt) ∨ sight = ([], .unfinished) := by
  generalize same : Except.error halt = reached at does
  induction does generalizing more with
  | rest => cases same
  | step begins gives _ ih =>
      rcases tells.of_step begins gives with ⟨_, rfl, later⟩ | nothing
      · exact ih later same
      · exact .inr nothing
  | halt begins gives =>
      cases same
      exact tells.of_halt begins gives

end Does

end Agenda

/-! ## Streams tell what their agendas tell -/

open Agenda

/-- A computation that works through an agenda ends in every session, and shows there what the
agenda tells. -/
theorem Performs.runs {x : Engine Stream} {agenda : Agenda → Agenda} {goals : List Goal}
    {quick : Stream → Prop} (performs : Performs program x agenda goals quick) (others : Agenda)
    (before : Session) :
    (∃ halt after count, x.run.run before = (.error halt, after) ∧
      Does program count (agenda others) before.nextOrdinal (.error halt) after.nextOrdinal) ∨
    ∃ s after count, x.run.run before = (.ok s, after) ∧
      Does program count (agenda others) before.nextOrdinal (.ok (s.agenda goals others))
        after.nextOrdinal ∧ Hands Context.Unplanned s ∧ (count = 0 → quick s) := by
  obtain ⟨outcome, last, count, gives, does, holds⟩ := performs others before.nextOrdinal
  obtain ⟨ended, number⟩ := gives before rfl
  cases ran : x.run.run before with
  | mk reached after =>
      rw [ran] at ended number
      obtain rfl : reached = outcome := ended
      obtain rfl : after.nextOrdinal = last := number
      cases reached with
      | error halt => exact .inl ⟨halt, after, count, rfl, does⟩
      | ok s => exact .inr ⟨s, after, count, rfl, does, holds s rfl⟩

/-- What is seen of a stream is told of its agenda. -/
theorem Stream.tells_seen (count : Nat) (s : Stream) (before : Session)
    (hands : Hands Context.Unplanned s) :
    ∃ more, Tells program more (s.agenda [] []) before.nextOrdinal
      (s.seen program count before) := by
  induction count generalizing s before with
  | zero => exact ⟨0, .unfinished _ _⟩
  | succ count ih =>
      cases s with
      | empty => exact ⟨0, .done _⟩
      | aborted fault => exact ⟨0, .fault fault [] _⟩
      | ready ctx rest =>
          obtain ⟨more, tells⟩ := ih rest before fun other carries => hands other (.inr carries)
          exact ⟨more + 1, .hand ctx tells⟩
      | suspended work =>
          rw [seen_suspended]
          rcases (work.force_performs program [] hands).runs [] before with
            ⟨halt, after, errands, ran, does⟩ | ⟨s, after, errands, ran, does, handsLater, _⟩
          · rw [ran]
            exact ⟨errands, does.tells_halt⟩
          · rw [ran]
            obtain ⟨more, tells⟩ := ih s after handsLater
            exact ⟨errands + more, does.tells tells⟩

/-- What is told of the agenda of a stream is seen of the stream.  Where forcing costs no errand,
the stream lags less. -/
theorem Stream.exists_seen {errands : Nat} {sight : Sight} (s : Stream) (before : Session)
    (hands : Hands Context.Unplanned s)
    (tells : Tells program errands (s.agenda [] []) before.nextOrdinal sight) :
    ∃ count, s.seen program count before = sight := by
  induction errands using Nat.strong_induction_on generalizing s before sight with
  | _ errands fewer =>
    induction lags : s.lag using Nat.strong_induction_on generalizing s before with
    | _ lag closer =>
      cases s with
      | empty =>
          change Tells program errands [] before.nextOrdinal sight at tells
          cases tells with
          | unfinished => exact ⟨0, rfl⟩
          | done => exact ⟨1, rfl⟩
          | step begins => cases begins
          | halt begins => cases begins
      | aborted fault =>
          change Tells program errands [.stop fault] before.nextOrdinal sight at tells
          cases tells with
          | unfinished => exact ⟨0, rfl⟩
          | fault => exact ⟨1, rfl⟩
          | step begins => cases begins
          | halt begins => cases begins
      | ready ctx rest =>
          change Tells program errands (.pass ctx [] :: rest.agenda [] []) before.nextOrdinal sight
            at tells
          cases tells with
          | unfinished => exact ⟨0, rfl⟩
          | hand _ later =>
              have good : Hands Context.Unplanned rest :=
                fun other carries => hands other (.inr carries)
              obtain ⟨count, found⟩ := fewer _ (Nat.lt_succ_self _) rest before good later
              exact ⟨count + 1, congrArg (Sight.after ctx) found⟩
          | step begins => cases begins
          | halt begins => cases begins
      | suspended work =>
          rcases (work.force_performs program [] hands).runs [] before with
            ⟨halt, after, some, ran, does⟩ | ⟨s, after, some, ran, does, good, quick⟩
          · rcases does.told_halt tells with rfl | rfl
            · exact ⟨1, by rw [seen_suspended, ran]⟩
            · exact ⟨0, rfl⟩
          · rcases does.told tells with ⟨left, total, later⟩ | rfl
            · have goesOn : ∃ count, s.seen program count after = sight := by
                rcases Nat.eq_zero_or_pos some with none | positive
                · obtain rfl : errands = left := by omega
                  have less := quick none
                  rw [Stream.lag] at lags
                  exact closer s.lag (by omega) s after good later rfl
                · exact fewer left (by omega) s after good later
              obtain ⟨count, found⟩ := goesOn
              refine ⟨count + 1, ?_⟩
              rw [seen_suspended, ran]
              exact found
            · exact ⟨0, rfl⟩

/-- What is seen of a goal is what is told of passing the goals that it stands for. -/
theorem Goal.exists_seen_iff {ctx : Context} (unplanned : ctx.Unplanned) (g : Goal)
    (before : Session) (sight : Sight) :
    (∃ count, g.seen program count ctx before = sight) ↔
      ∃ errands, Tells program errands [.pass ctx g.parts] before.nextOrdinal sight := by
  have performs := (g.appliesInOrder program) ctx unplanned []
  rw [List.append_nil] at performs
  rcases performs.runs [] before with
    ⟨halt, after, some, ran, does⟩ | ⟨s, after, some, ran, does, hands, _⟩
  · constructor
    · rintro ⟨count, rfl⟩
      cases count with
      | zero => exact ⟨0, .unfinished _ _⟩
      | succ count =>
          rw [seen, ran]
          exact ⟨some, does.tells_halt⟩
    · rintro ⟨errands, tells⟩
      rcases does.told_halt tells with rfl | rfl
      · exact ⟨1, by rw [seen, ran]⟩
      · exact ⟨0, rfl⟩
  · constructor
    · rintro ⟨count, rfl⟩
      cases count with
      | zero => exact ⟨0, .unfinished _ _⟩
      | succ count =>
          obtain ⟨more, tells⟩ := s.tells_seen count after hands
          rw [seen, ran]
          exact ⟨some + more, does.tells tells⟩
    · rintro ⟨errands, tells⟩
      rcases does.told tells with ⟨left, _, later⟩ | rfl
      · obtain ⟨count, found⟩ := s.exists_seen after hands later
        refine ⟨count + 1, ?_⟩
        rw [seen, ran]
        exact found
      · exact ⟨0, rfl⟩

/-- Without a planner it does not matter how the goals of a conjunction are grouped: whatever is
seen of one, contexts in order and an end, a fault or a halt, is seen of the other within some
number of moves.  So one goes on forever where the other does. -/
theorem Goal.seen_regrouped {ctx : Context} (unplanned : ctx.get .planner = [])
    (program : Program) (as bs cs : List Goal) (before : Session) (sight : Sight) :
    (∃ count, (Goal.conj (as ++ [.conj bs []] ++ cs) []).seen program count ctx before = sight) ↔
      ∃ count, (Goal.conj (as ++ bs ++ cs) []).seen program count ctx before = sight := by
  have same : (Goal.conj (as ++ [.conj bs []] ++ cs) []).parts =
      (Goal.conj (as ++ bs ++ cs) []).parts := by
    simp only [parts_conj, partsOf_append, partsOf, List.append_nil]
  rw [exists_seen_iff unplanned, exists_seen_iff unplanned, same]

/-- A suspended goal and a group of two, a goal that ends the search after one answer and another
suspended one: grouped or not, the context is handed out and the fault ends the search. -/
theorem Goal.seen_regrouped_fault :
    let fault : Fault := .rowLength "r" 0 1 2
    let group : List Goal := [.yieldThenAbort fault, .delay .succeed]
    Context.checked.get .planner = [] ∧
      ∃ count, (Goal.conj ([.delay .succeed] ++ [.conj group []] ++ [.succeed]) []).seen ⟨[], 1⟩
        count .checked (.start 0 0) = ([.checked], .fault fault) := by
  intro fault group
  exact ⟨rfl, (seen_regrouped rfl ⟨[], 1⟩ [.delay .succeed] group [.succeed]
    (.start 0 0) ([.checked], .fault fault)).mpr ⟨8, rfl⟩⟩

end RelationalSolver
