import RelationalSolver.Proofs.Planning.Provenance
import RelationalSolver.Proofs.Stream.Numbered

/-!
# Agendas

What a stream has still to do can be written down as a list of errands: contexts that are to
pass some goals, suspended work whose contexts are to pass some goals, and a fault that ends
everything.  A conjunction in the way of a context is the goals that it consists of, so how the
goals of a conjunction are grouped does not show in an agenda.  Running goals and forcing
suspensions works through the errands from the front, whatever the stream looks like.
-/

namespace RelationalSolver

open Engine

namespace Engine

variable {α β : Type} {x : Engine α} {f : α → Engine β} {condition : α → Prop}
variable {a : α} {first next last : Nat} {outcome : Except Halt α}

/-- In every session with the given number for the next new variable, the computation comes to
the outcome, and to a session with the other number. -/
def Gives (x : Engine α) (first : Nat) (outcome : Except Halt α) (last : Nat) : Prop :=
  ∀ before, before.nextOrdinal = first →
    (x.run.run before).1 = outcome ∧ (x.run.run before).2.nextOrdinal = last

theorem Numbered.gives (numbered : Numbered x condition) (before : Session) :
    x.Gives before.nextOrdinal (x.run.run before).1 (x.run.run before).2.nextOrdinal := by
  intro other same
  obtain ⟨outcome, shift⟩ := (numbered before).2.2 other (.inl same.symm)
  exact ⟨outcome.symm, by omega⟩

theorem Numbered.exists_gives (numbered : Numbered x condition) (first : Nat) :
    ∃ outcome last, x.Gives first outcome last :=
  ⟨_, _, numbered.gives { Session.start 0 0 with nextOrdinal := first }⟩

theorem gives_pure (a : α) (first : Nat) : (pure a : Engine α).Gives first (.ok a) first :=
  fun _ same => ⟨rfl, same⟩

theorem gives_notify (notice : Notice) (first : Nat) :
    (notify notice).Gives first (.ok ()) first :=
  fun _ same => ⟨rfl, same⟩

namespace Gives

theorem unique (gives : x.Gives first outcome last) {other : Except Halt α} {lastOther : Nat}
    (others : x.Gives first other lastOther) : outcome = other ∧ last = lastOther := by
  have here := gives { Session.start 0 0 with nextOrdinal := first } rfl
  have there := others { Session.start 0 0 with nextOrdinal := first } rfl
  exact ⟨here.1.symm.trans there.1, here.2.symm.trans there.2⟩

theorem bind (gives : x.Gives first (.ok a) next) {result : Except Halt β}
    (later : (f a).Gives next result last) : (x >>= f).Gives first result last := by
  intro before same
  obtain ⟨outcome, number⟩ := gives before same
  rw [run_bind]
  cases ran : x.run.run before with
  | mk ended between =>
      rw [ran] at outcome number
      obtain rfl : ended = .ok a := outcome
      exact later between number

theorem bind_error {halt : Halt} (gives : x.Gives first (.error halt) last) :
    (x >>= f).Gives first (.error halt) last := by
  intro before same
  obtain ⟨outcome, number⟩ := gives before same
  rw [run_bind]
  cases ran : x.run.run before with
  | mk ended between =>
      rw [ran] at outcome number
      obtain rfl : ended = .error halt := outcome
      exact ⟨rfl, number⟩

theorem map (gives : x.Gives first outcome last) (g : α → β) :
    (g <$> x).Gives first (outcome.map g) last := by
  rw [map_eq_pure_bind]
  cases outcome with
  | ok a => exact gives.bind (gives_pure (g a) last)
  | error halt => exact gives.bind_error

end Gives

end Engine

/-! ## Goals in a row -/

namespace Goal

mutual

/-- The goals that a goal stands for: those of a conjunction to which nothing is attached, and
otherwise the goal itself. -/
def parts : Goal → List Goal
  | .conj goals [] => partsOf goals
  | g => [g]

/-- The goals that several goals in a row stand for. -/
def partsOf : List Goal → List Goal
  | [] => []
  | g :: gs => g.parts ++ partsOf gs

end

theorem partsOf_append (goals others : List Goal) :
    partsOf (goals ++ others) = partsOf goals ++ partsOf others := by
  induction goals with
  | nil => rfl
  | cons g goals ih => rw [List.cons_append, partsOf, partsOf, ih, List.append_assoc]

@[simp] theorem parts_conj (goals : List Goal) : (Goal.conj goals []).parts = partsOf goals := by
  rw [parts]

end Goal

/-! ## Errands -/

/-- Something to be done before a stream is at its end. -/
inductive Errand where
  /-- The context has the goals before it. -/
  | pass (ctx : Context) (goals : List Goal)
  /-- Whatever contexts the work gives have the goals before them. -/
  | force (work : Work) (goals : List Goal)
  | stop (fault : Fault)

/-- Errands to be run one after the other. -/
abbrev Agenda := List Errand

mutual

/-- The errands of a stream whose contexts have some goals before them, in front of others.  A
fault leaves nothing of the others. -/
def Stream.agenda : Stream → List Goal → Agenda → Agenda
  | .empty, _, others => others
  | .ready ctx rest, goals, others => .pass ctx goals :: rest.agenda goals others
  | .suspended work, goals, others => work.agenda goals others
  | .aborted fault, _, _ => [.stop fault]

def Work.agenda : Work → List Goal → Agenda → Agenda
  | .bind work goal, goals, others => work.agenda (goal.parts ++ goals) others
  | .append work next, goals, others => work.agenda goals (next.agenda goals others)
  | .resume next, goals, others => next.agenda goals others
  | work, goals, others => .force work goals :: others

def Continuation.agenda : Continuation → List Goal → Agenda → Agenda
  | .stream s, goals, others => s.agenda goals others
  | .bind s goal, goals, others => s.agenda (goal.parts ++ goals) others

end

mutual

/-- How many suspensions at the front of a stream hide nothing but other suspensions. -/
def Stream.lag : Stream → Nat
  | .suspended work => 1 + work.lag
  | _ => 0

def Work.lag : Work → Nat
  | .bind work _ => work.lag
  | .append work next => work.lag + next.lag
  | .resume next => next.lag
  | _ => 0

def Continuation.lag : Continuation → Nat
  | .stream s => s.lag
  | .bind s _ => s.lag

end

@[simp] theorem Stream.agenda_followBy (next : Continuation) (goals : List Goal)
    (others : Agenda) : ∀ s : Stream,
    (s.followBy next).agenda goals others = s.agenda goals (next.agenda goals others)
  | .empty => rfl
  | .ready _ rest => congrArg (_ :: ·) (agenda_followBy next goals others rest)
  | .suspended _ => rfl
  | .aborted _ => rfl

/-! ## Running errands -/

namespace Agenda

variable {program : Program} {agenda after : Agenda} {count more first between last : Nat}
variable {halt : Halt} {outcome : Except Halt Agenda} {x : Engine Agenda}

/-- What running the first errand does to an agenda, if it does not hand out a context or end
everything. -/
def next (program : Program) : Agenda → Option (Engine Agenda)
  | .pass ctx (g :: goals) :: others => some ((·.agenda goals others) <$> g.apply ctx)
  | .force work goals :: others => some ((·.agenda goals others) <$> work.force program)
  | _ => none

/-- So many errands lead from one agenda to another, or to a halt, and from one number for the
next new variable to another. -/
inductive Does (program : Program) : Nat → Agenda → Nat → Except Halt Agenda → Nat → Prop
  | rest (agenda : Agenda) (first : Nat) : Does program 0 agenda first (.ok agenda) first
  | step {agenda after : Agenda} {x : Engine Agenda} {count first between last : Nat}
      {outcome : Except Halt Agenda} (begins : agenda.next program = some x)
      (gives : x.Gives first (.ok after) between)
      (later : Does program count after between outcome last) :
      Does program (count + 1) agenda first outcome last
  | halt {agenda : Agenda} {x : Engine Agenda} {first last : Nat} {halt : Halt}
      (begins : agenda.next program = some x) (gives : x.Gives first (.error halt) last) :
      Does program 1 agenda first (.error halt) last

namespace Does

theorem one (begins : agenda.next program = some x) (gives : x.Gives first outcome last) :
    Does program 1 agenda first outcome last := by
  cases outcome with
  | ok after => exact .step begins gives (.rest after last)
  | error halt => exact .halt begins gives

theorem trans (does : Does program count agenda first (.ok after) between)
    (later : Does program more after between outcome last) :
    Does program (count + more) agenda first outcome last := by
  generalize same : Except.ok after = reached at does
  induction does with
  | rest agenda first =>
      cases same
      rw [Nat.zero_add]
      exact later
  | step begins gives _ ih =>
      rw [Nat.add_right_comm]
      exact .step begins gives (ih later same)
  | halt => cases same

end Does

end Agenda

/-! ## Goals and streams at work -/

/-- The context has no passes to plan with. -/
def Context.Unplanned (ctx : Context) : Prop := ctx.get .planner = []

theorem Context.Unplanned.of_passes {ctx : Context} {result : Option Context}
    (unplanned : ctx.Unplanned) (passes : ctx.Passes result) :
    ∀ next, result = some next → next.Unplanned :=
  fun next same => (passes next same).get_eq.trans unplanned

/-- Whatever running goals consists of depends on the numbering only, and hands on contexts
without passes. -/
theorem discipline_unplanned : Discipline Context.Unplanned Numbered where
  pure holds := (Detached.pure holds).numbered
  bind first second := first.bind second
  unending := (Detached.throw _).numbered
  arity _ := (Detached.throw _).numbered
  undefinedCall _ := (Detached.throw _).numbered
  notify notice _ := (notify_detached notice).numbered
  freshVars := numbered_freshVars
  fire _ _ _ _ := (Context.fire_detached _ _).numbered
  unify a b unplanned := by
    refine ((Context.unify_detached _ a b).attempt.mono
      fun attempted passes next same => ?_).numbered
    exact unplanned.of_passes (passes _ same) next rfl
  unifyAll as bs unplanned := by
    refine ((Context.unifyAll_detached _ as bs).attempt.mono
      fun attempted passes next same => ?_).numbered
    exact unplanned.of_passes (passes _ same) next rfl
  constrain c unplanned :=
    ((Context.constrain_detached c).mono fun _ passes => unplanned.of_passes passes).numbered
  counted _ _ := (Detached.orCrash fun _ => id).numbered

open Agenda Discipline

variable {program : Program} {goals goalsBefore : List Goal} {ctx : Context} {g : Goal}

/-- The computation of a stream works through the errands in front of all others, and what is
left are the errands of the stream.  A stream that costs no errand is quick. -/
def Performs (program : Program) (x : Engine Stream) (agenda : Agenda → Agenda)
    (goals : List Goal) (quick : Stream → Prop) : Prop :=
  ∀ (others : Agenda) (first : Nat), ∃ outcome last count, x.Gives first outcome last ∧
    Does program count (agenda others) first (outcome.map (·.agenda goals others)) last ∧
    ∀ s, outcome = .ok s → Hands Context.Unplanned s ∧ (count = 0 → quick s)

namespace Performs

variable {x : Engine Stream} {f : Stream → Engine Stream} {agenda later : Agenda → Agenda}
variable {quick weaker : Stream → Prop}

theorem pure {s : Stream} (same : ∀ others, s.agenda goals others = agenda others)
    (hands : Hands Context.Unplanned s) (holds : quick s) :
    Performs program (Pure.pure s) agenda goals quick := by
  intro others first
  refine ⟨.ok s, first, 0, gives_pure s first, ?_, ?_⟩
  · rw [← same others]
    exact .rest _ first
  · rintro _ ⟨⟩
    exact ⟨hands, fun _ => holds⟩

theorem bind {quickLater : Stream → Stream → Prop}
    (performs : Performs program x agenda goalsBefore quick)
    (rest : ∀ s, Hands Context.Unplanned s →
      Performs program (f s) (fun others => s.agenda goalsBefore (later others)) goals
        (quickLater s))
    (composes : ∀ s t, quick s → quickLater s t → weaker t) :
    Performs program (x >>= f) (fun others => agenda (later others)) goals weaker := by
  intro others first
  obtain ⟨outcome, between, count, gives, does, holds⟩ := performs (later others) first
  cases outcome with
  | error halt => exact ⟨.error halt, between, count, gives.bind_error, does, nofun⟩
  | ok s =>
      obtain ⟨hands, quickly⟩ := holds s rfl
      obtain ⟨outcome, last, more, givesLater, doesLater, holdsLater⟩ := rest s hands others between
      refine ⟨outcome, last, count + more, gives.bind givesLater, does.trans doesLater, ?_⟩
      intro t same
      obtain ⟨handsLater, quicklyLater⟩ := holdsLater t same
      refine ⟨handsLater, fun none => ?_⟩
      exact composes s t (quickly (by omega)) (quicklyLater (by omega))

/-- A computation whose stream is the outcome of the first errand. -/
theorem first {errand : Errand} (numbered : Numbered x (Hands Context.Unplanned))
    (begins : ∀ others, Agenda.next program (errand :: others) =
      some ((·.agenda goals others) <$> x)) :
    Performs program x (errand :: ·) goals quick := by
  intro others number
  obtain ⟨outcome, last, gives⟩ := numbered.exists_gives number
  refine ⟨outcome, last, 1, gives, .one (begins others) (gives.map _), ?_⟩
  rintro s rfl
  refine ⟨?_, nofun⟩
  have ended := (gives { Session.start 0 0 with nextOrdinal := number } rfl).1
  exact (numbered _).2.1 s ended

/-- Writing a notice costs no errand. -/
theorem notify (performs : Performs program x agenda goals quick) (notice : Notice) :
    Performs program (Engine.notify notice >>= fun _ => x) agenda goals quick := by
  intro others first
  obtain ⟨outcome, last, count, gives, rest⟩ := performs others first
  exact ⟨outcome, last, count, (gives_notify notice first).bind gives, rest⟩

theorem mono (performs : Performs program x agenda goals quick)
    (implies : ∀ s, quick s → weaker s) : Performs program x agenda goals weaker := by
  intro others first
  obtain ⟨outcome, last, count, gives, does, holds⟩ := performs others first
  exact ⟨outcome, last, count, gives, does, fun s same =>
    ⟨(holds s same).1, fun none => implies s ((holds s same).2 none)⟩⟩

end Performs

/-- A context is ready in the stream. -/
def Stream.IsReady : Stream → Prop
  | .ready _ _ => True
  | _ => False

theorem Stream.IsReady.lag_eq {s : Stream} (ready : s.IsReady) : s.lag = 0 := by
  cases s with
  | ready ctx rest => rfl
  | _ => exact ready.elim

theorem Stream.IsReady.followBy {s : Stream} (ready : s.IsReady) (next : Continuation) :
    (s.followBy next).IsReady := by
  cases s with
  | ready ctx rest => trivial
  | _ => exact ready.elim

/-- The second stream came out of the first at no cost. -/
structure Stream.Passed (s t : Stream) : Prop where
  lag : t.lag ≤ s.lag
  ready : s.IsReady → t.IsReady

/-- Applying the goal works through the errand of passing it. -/
def Goal.AppliesInOrder (program : Program) (g : Goal) : Prop :=
  ∀ ctx, Context.Unplanned ctx → ∀ goals,
    Performs program (g.apply ctx) (.pass ctx (g.parts ++ goals) :: ·) goals Stream.IsReady

/-- What a goal answers for the first context of a stream comes before what it answers for
the rest. -/
theorem Performs.followedBy {rest : Stream} (hands : Hands Context.Unplanned rest)
    (performs : Performs program (rest.bindBy g.apply g) (rest.agenda (g.parts ++ goals)) goals
      rest.Passed) (answers : Stream) : Hands Context.Unplanned answers →
    Performs program
      (match answers with
        | .empty => rest.bindBy g.apply g
        | answers => Pure.pure (answers.followBy (.bind rest g)))
      (fun others => answers.agenda goals (rest.agenda (g.parts ++ goals) others)) goals
      (fun t => answers.IsReady → t.IsReady) := by
  intro given
  have followed : Hands Context.Unplanned (answers.followBy (.bind rest g)) :=
    fun other carries => (Stream.carries_followBy carries).elim (given other) (hands other)
  cases answers with
  | empty => exact performs.mono fun _ _ => False.elim
  | ready other more => exact .pure (Stream.agenda_followBy _ _ · _) followed fun _ => trivial
  | suspended work => exact .pure (Stream.agenda_followBy _ _ · _) followed False.elim
  | aborted fault => exact .pure (Stream.agenda_followBy _ _ · _) followed False.elim

/-- Feeding a stream into a goal puts the goal before its contexts. -/
theorem Stream.bind_performs (applies : g.AppliesInOrder program) (goals : List Goal) :
    ∀ s : Stream, Hands Context.Unplanned s →
      Performs program (s.bind g) (s.agenda (g.parts ++ goals)) goals s.Passed
  | .empty, hands => .pure (fun _ => rfl) hands ⟨le_rfl, id⟩
  | .aborted _, hands => .pure (fun _ => rfl) hands ⟨le_rfl, id⟩
  | .suspended _, hands => .pure (fun _ => rfl) hands ⟨le_rfl, id⟩
  | .ready ctx rest, hands => by
      have later : Hands Context.Unplanned rest := fun other carries => hands other (.inr carries)
      have behind := Stream.bind_performs applies goals rest later
      rw [Stream.bind, bindBy]
      apply (applies ctx (hands ctx (.inl rfl)) _).bind (behind.followedBy later)
      intro s t ready passed
      exact ⟨(passed ready).lag_eq.le, fun _ => passed ready⟩

theorem Stream.bindAll_performs : ∀ (parts goals : List Goal) (s : Stream),
    (∀ g ∈ parts, g.AppliesInOrder program) → Hands Context.Unplanned s →
      Performs program (s.bindAll parts) (s.agenda (Goal.partsOf parts ++ goals)) goals s.Passed
  | [], _, _, _, hands => .pure (fun _ => rfl) hands ⟨le_rfl, id⟩
  | part :: parts, goals, s, applies, hands => by
      rw [List.forall_mem_cons] at applies
      have here := s.bind_performs applies.1 (Goal.partsOf parts ++ goals) hands
      rw [Stream.bindAll, List.foldlM_cons, Goal.partsOf, List.append_assoc]
      apply here.bind fun next => Stream.bindAll_performs parts goals next applies.2
      exact fun t u first second => ⟨second.lag.trans first.lag, second.ready ∘ first.ready⟩

/-- A conjunction to which nothing is attached feeds its context into its goals. -/
theorem Goal.apply_conj (unplanned : ctx.Unplanned) (parts : List Goal) :
    (Goal.conj parts []).apply ctx =
      Engine.notify (.conjunction parts.length) >>= fun _ => (Stream.unit ctx).bindAll parts := by
  have deep : ∀ g ∈ parts, g.depth < (Goal.conj parts []).depth := by
    intro g member
    rw [Goal.depth, Nat.add_comm]
    exact Nat.lt_succ_of_le (depth_le_depths member)
  have planned : Goal.planned ctx parts = pure parts := by
    simp [Goal.planned, show ctx.get .planner = [] from unplanned]
  rw [← foldlM_bindBy_eq_bindAll deep, Goal.apply, applyWithin]
  change (Goal.planned ctx parts >>= _) = _
  rw [planned]
  rfl

theorem Goal.applyWithin_performs (program : Program) : ∀ (depth : Nat) (g : Goal),
    g.depth < depth → g.AppliesInOrder program
  | depth + 1, g, deep => by
      intro ctx unplanned goals
      have alone : g.parts = [g] → Performs program (g.apply ctx)
          (.pass ctx (g.parts ++ goals) :: ·) goals Stream.IsReady := by
        intro same
        rw [same]
        exact .first (discipline_unplanned.apply g unplanned) fun _ => rfl
      match g, deep, alone with
      | .conj parts [], deep, _ =>
          rw [Goal.apply_conj unplanned, Goal.parts_conj]
          have shallow : ∀ g ∈ parts, g.AppliesInOrder program := by
            intro g member
            rw [Goal.depth, Nat.add_comm] at deep
            have within := depth_le_depths member
            exact applyWithin_performs program depth g (by omega)
          have passed := Stream.bindAll_performs parts goals (.unit ctx) shallow
            (hands_unit unplanned)
          exact (passed.mono fun _ passed => passed.ready trivial).notify _
      | .conj _ (_ :: _), _, alone => exact alone rfl
      | .succeed, _, alone | .fail, _, alone | .equal _ _, _, alone | .constrain _, _, alone
      | .disj _ _, _, alone | .fresh _ _, _, alone | .delay _, _, alone | .call _ _, _, alone
      | .relation _, _, alone | .abort _, _, alone | .yieldThenAbort _, _, alone =>
          exact alone rfl

theorem Goal.appliesInOrder (program : Program) (g : Goal) : g.AppliesInOrder program :=
  applyWithin_performs program _ g (Nat.lt_succ_self _)

/-! ## Forcing -/

theorem Continuation.resume_performs (goals : List Goal) : ∀ next : Continuation,
    (∀ ctx, next.Carries ctx → ctx.Unplanned) →
      Performs program next.resume (next.agenda goals) goals fun s => s.lag ≤ next.lag
  | .stream _, hands => .pure (fun _ => rfl) hands le_rfl
  | .bind s g, hands =>
      (s.bind_performs (g.appliesInOrder program) goals hands).mono fun _ passed => passed.lag

/-- Forcing work runs through its errands: none if the work only hides other work, which then
comes closer. -/
theorem Work.force_performs (program : Program) : ∀ (work : Work) (goals : List Goal),
    (∀ ctx, work.Carries ctx → ctx.Unplanned) →
      Performs program (work.force program) (work.agenda goals) goals fun s => s.lag ≤ work.lag
  | .bind work g, goals, hands => by
      have here := work.force_performs program (g.parts ++ goals) hands
      rw [Work.force]
      apply here.bind fun s => s.bind_performs (g.appliesInOrder program) goals
      exact fun s t first second => second.lag.trans first
  | .append work next, goals, hands => by
      have here := work.force_performs program goals fun ctx carries => hands ctx (.inl carries)
      have later : ∀ ctx, next.Carries ctx → ctx.Unplanned :=
        fun ctx carries => hands ctx (.inr carries)
      have behind : ∀ s, Hands Context.Unplanned s → Performs program (s.andThen next)
          (fun others => s.agenda goals (next.agenda goals others)) goals
          fun t => t.lag ≤ s.lag + next.lag := by
        intro s given
        have followed : Hands Context.Unplanned (s.followBy next) :=
          fun ctx carries => (Stream.carries_followBy carries).elim (given ctx) (later ctx)
        cases s with
        | empty =>
            apply (next.resume_performs goals later).mono
            exact fun t less => Nat.le_add_left_of_le less
        | ready ctx rest => exact .pure (Stream.agenda_followBy _ _ · _) followed (Nat.zero_le _)
        | suspended work =>
            apply Performs.pure (Stream.agenda_followBy _ _ · _) followed
            exact (Nat.add_assoc 1 work.lag next.lag).ge
        | aborted fault => exact .pure (Stream.agenda_followBy _ _ · _) followed (Nat.zero_le _)
      rw [Work.force]
      apply here.bind behind
      exact fun s t first second => second.trans (Nat.add_le_add_right first _)
  | .resume next, goals, hands => next.resume_performs goals hands
  | .run _ _, _, hands | .call _ _ _, _, hands | .openRows _ _, _, hands | .scan _, _, hands
  | .pull _, _, hands | .build _, _, hands | .turn _ _, _, hands =>
      .first (discipline_unplanned.force _ hands) fun _ => rfl

end RelationalSolver
