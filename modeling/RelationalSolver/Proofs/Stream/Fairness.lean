import RelationalSolver.Proofs.Stream.Numbered

/-!
# Streams that take turns are fair

Among streams that take turns, a stream gets its turn once in every round, and a
round forces each of the others at most once.  What one of `n` streams yields after
`k` suspensions of its own is therefore yielded after at most `n * k` suspensions,
whatever the others do, as long as they do not abort.

New variables are numbered across all streams, so what a stream yields among others
is what it yields alone when its suspensions are forced under the same numbers.
-/

namespace RelationalSolver

open Engine

/-- A way of forcing suspensions, in states that number new variables: what work gives
depends only on the number, which does not fall, and on nothing if it stays. -/
structure Forcing where
  State : Type
  /-- The number of the next new variable. -/
  ordinal : State → Nat
  /-- In the first state the work gives the stream, and then there is the second state. -/
  Forces : State → Work → Stream → State → Prop
  functional : ∀ {before work next after nextOther afterOther}, Forces before work next after →
    Forces before work nextOther afterOther → next = nextOther
  transfers : ∀ {before work next after other}, Forces before work next after →
    (ordinal before = ordinal other ∨ ordinal after = ordinal before) →
    ∃ afterOther, Forces other work next afterOther
  grows : ∀ {before work next after}, Forces before work next after →
    ordinal before ≤ ordinal after
  turn : ∀ {before first forced after} (others : List Work), Forces before first forced after →
    Forces before (.turn first others) (.interleave (others.map .suspended ++ [forced])) after

/-- Forcing in the sessions of runs. -/
def Forcing.inSessions (program : Program) : Forcing where
  State := Session
  ordinal := Session.nextOrdinal
  Forces before work next after := Runs (work.force program) before next after
  functional ran ranOther := Except.ok.inj (Prod.mk.inj (ran.symm.trans ranOther)).1
  transfers := Work.force_agree
  grows := Work.nextOrdinal_force_le
  turn _ ran := runs_bind.mpr ⟨_, _, ran, runs_pure.mpr ⟨rfl, rfl⟩⟩

namespace Stream

variable {F : Forcing} {ctx : Context} {s next : Stream} {before after : F.State}
variable {first count : Nat} {ordinals : List Nat} {work : Work} {others : List Work}

/-- The stream yields the context after so many suspensions have been forced. -/
inductive Yields (F : Forcing) (ctx : Context) : F.State → Stream → Nat → Prop
  | here {before : F.State} {rest : Stream} : Yields F ctx before (.ready ctx rest) 0
  | later {before : F.State} {other : Context} {rest : Stream} {count : Nat}
      (yields : Yields F ctx before rest count) : Yields F ctx before (.ready other rest) count
  | forced {before after : F.State} {work : Work} {next : Stream} {count : Nat}
      (forces : F.Forces before work next after) (yields : Yields F ctx after next count) :
      Yields F ctx before (.suspended work) (count + 1)

/-- The stream yields the context once each of its suspensions up to there has been
forced, one under each number. -/
inductive YieldsAlone (F : Forcing) (ctx : Context) : List Nat → Stream → Prop
  | here {rest : Stream} : YieldsAlone F ctx [] (.ready ctx rest)
  | later {other : Context} {rest : Stream} {ordinals : List Nat}
      (yields : YieldsAlone F ctx ordinals rest) : YieldsAlone F ctx ordinals (.ready other rest)
  | forced {before after : F.State} {work : Work} {next : Stream} {ordinals : List Nat}
      (forces : F.Forces before work next after) (yields : YieldsAlone F ctx ordinals next) :
      YieldsAlone F ctx (F.ordinal before :: ordinals) (.suspended work)

/-- So many times over, the stream has not aborted, and its suspension can be forced
under every number from the first on. -/
def SteadyFor (F : Forcing) (first : Nat) : Nat → Stream → Prop
  | 0, _ => True
  | depth + 1, s => s.isFaulty = false ∧ ∀ work ∈ s.works, ∀ before, first ≤ F.ordinal before →
      ∃ next after, F.Forces before work next after ∧ SteadyFor F first depth next

/-- The stream never aborts, however often it is forced. -/
def Steady (F : Forcing) (first : Nat) (s : Stream) : Prop := ∀ depth, SteadyFor F first depth s

theorem Steady.sound (steady : s.Steady F first) : s.isFaulty = false := (steady 1).1

theorem Steady.of_mem_works (steady : s.Steady F first) (member : work ∈ s.works) :
    Steady F first (.suspended work) := by
  intro depth
  cases depth with
  | zero => trivial
  | succ depth =>
      refine ⟨rfl, ?_⟩
      rintro other same
      rw [List.mem_singleton.mp same]
      exact (steady (depth + 1)).2 work member

theorem Steady.of_forced (steady : s.Steady F first) (member : work ∈ s.works)
    (later : first ≤ F.ordinal before) :
    ∃ next after, F.Forces before work next after ∧ Steady F first next := by
  obtain ⟨next, after, forces, _⟩ := (steady 1).2 work member before later
  refine ⟨next, after, forces, ?_⟩
  intro depth
  obtain ⟨other, _, forcesOther, steadyOther⟩ := (steady (depth + 1)).2 work member before later
  exact F.functional forcesOther forces ▸ steadyOther

/-- A stream that is not suspended anywhere never aborts if it does not end in a fault. -/
theorem steady_of_works (sound : s.isFaulty = false) (none : s.works = []) : Steady F first s := by
  intro depth
  cases depth with
  | zero => trivial
  | succ depth =>
      refine ⟨sound, ?_⟩
      rw [none]
      exact nofun

/-! ## Contexts that are ready and the suspension behind them -/

theorem yields_of_mem_heads : ∀ {s : Stream}, ctx ∈ s.heads → Yields F ctx before s 0
  | .ready other rest, member => by
      rcases List.mem_cons.mp member with rfl | later
      · exact .here
      · exact .later (yields_of_mem_heads later)

theorem yields_of_tail : ∀ {s : Stream}, Yields F ctx before s.tail count →
    Yields F ctx before s count
  | .ready _ _, yields => .later (yields_of_tail yields)
  | .empty, yields => yields
  | .suspended _, yields => yields
  | .aborted _, yields => yields

theorem mem_heads_of_yieldsAlone (yields : YieldsAlone F ctx [] s) : ctx ∈ s.heads := by
  generalize none : ([] : List Nat) = ordinals at yields
  induction yields with
  | here => exact List.mem_cons_self ..
  | later _ ih => exact List.mem_cons_of_mem _ (ih none)
  | forced => cases none

theorem tail_of_yieldsAlone {ordinal : Nat} (yields : YieldsAlone F ctx (ordinal :: ordinals) s) :
    ∃ work, s.tail = .suspended work ∧
      YieldsAlone F ctx (ordinal :: ordinals) (.suspended work) := by
  generalize some : ordinal :: ordinals = all at yields ⊢
  induction yields with
  | here => cases some
  | later _ ih => exact ih some
  | forced forces yields => exact ⟨_, rfl, .forced forces yields⟩

theorem works_of_tail : ∀ s : Stream, s.tail = .suspended work →
    s.works = [work] ∧ s.isFaulty = false
  | .ready _ rest, left => works_of_tail rest left
  | .suspended other, left => by
      obtain rfl : other = work := Stream.suspended.inj left
      exact ⟨rfl, rfl⟩

/-- Under the number of a state, work gives what it gives in that state. -/
theorem yieldsAlone_forced (forces : F.Forces before work next after)
    (yields : YieldsAlone F ctx (F.ordinal before :: ordinals) (.suspended work)) :
    YieldsAlone F ctx ordinals next := by
  generalize same : F.ordinal before :: ordinals = all at yields
  cases yields with
  | forced forcesOther yields =>
      injection same with sameOrdinal sameOrdinals
      obtain ⟨_, transferred⟩ := F.transfers forces (.inl sameOrdinal)
      rw [sameOrdinals, F.functional transferred forcesOther]
      exact yields

/-! ## Rounds -/

/-- What becomes of suspended streams when the first has been forced. -/
def afterTurn (others : List Work) (next : Stream) : Stream :=
  match others with
  | [] => next
  | _ => .interleave (others.map .suspended ++ [next])

theorem yields_ofWorks {after : F.State} (forces : F.Forces before work next after)
    (yields : Yields F ctx after (afterTurn others next) count) :
    Yields F ctx before (ofWorks (work :: others)) (count + 1) := by
  cases others with
  | nil => exact .forced forces yields
  | cons other others => exact .forced (F.turn (other :: others) forces) yields

theorem mem_heads_afterTurn (offered : ctx ∈ next.heads) :
    ctx ∈ (afterTurn others next).heads := by
  cases others with
  | nil => exact offered
  | cons other others =>
      rw [afterTurn, interleave_eq_takeTurns]
      · apply mem_heads_takeTurns offered List.perm_append_comm
        intro s member
        obtain ⟨work, _, rfl⟩ := List.mem_map.mp member
        rfl
      · exact nofun

theorem tail_afterTurn (sound : next.isFaulty = false) :
    (afterTurn others next).tail = ofWorks (others ++ next.works) := by
  cases others with
  | nil => exact tail_eq sound
  | cons other others =>
      rw [afterTurn, interleave_eq_takeTurns]
      · exact tail_takeTurns_behind (other :: others) sound
      · exact nofun

/-- There are numbers for so many turns, those of states from the first on, under which
what `s` yields alone is yielded by `t` within the bound. -/
def Serves (F : Forcing) (first : Nat) (before : F.State) (t s : Stream) (turns bound : Nat) :
    Prop :=
  ∃ ordinals, ordinals.length = turns ∧
    (∀ ordinal ∈ ordinals, first ≤ ordinal ∧ ∃ state, F.ordinal state = ordinal) ∧
    ∀ ctx, YieldsAlone F ctx ordinals s → ∃ count ≤ bound, Yields F ctx before t count

variable {t : Stream} {turns bound larger : Nat}

theorem Serves.mono (serves : Serves F first before t s turns bound) (le : bound ≤ larger) :
    Serves F first before t s turns larger := by
  obtain ⟨ordinals, length, reached, yields⟩ := serves
  refine ⟨ordinals, length, reached, ?_⟩
  intro ctx alone
  obtain ⟨count, within, yields⟩ := yields ctx alone
  exact ⟨count, within.trans le, yields⟩

theorem serves_of_tail (serves : Serves F first before t.tail s turns bound) :
    Serves F first before t s turns bound := by
  obtain ⟨ordinals, length, reached, yields⟩ := serves
  refine ⟨ordinals, length, reached, ?_⟩
  intro ctx alone
  obtain ⟨count, within, yields⟩ := yields ctx alone
  exact ⟨count, within, yields_of_tail yields⟩

/-- What is ready needs no turn. -/
theorem serves_of_heads (offered : ∀ ctx ∈ s.heads, ctx ∈ t.heads) :
    Serves F first before t s 0 0 := by
  refine ⟨[], rfl, nofun, ?_⟩
  intro ctx alone
  exact ⟨0, le_rfl, yields_of_mem_heads (offered ctx (mem_heads_of_yieldsAlone alone))⟩

/-- A stream that yields nothing after so many turns is served by all streams. -/
theorem serves_of_unyielding (later : first ≤ F.ordinal before)
    (never : ∀ ctx, ¬ YieldsAlone F ctx (List.replicate turns (F.ordinal before)) s) :
    Serves F first before t s turns bound := by
  refine ⟨_, List.length_replicate, ?_, fun ctx alone => absurd alone (never ctx)⟩
  intro ordinal member
  rw [(List.mem_replicate.mp member).2]
  exact ⟨later, before, rfl⟩

/-- What a stream yields after turns, it yields after those of its suspension. -/
theorem serves_of_rest (left : s.tail = .suspended work)
    (serves : Serves F first before t (.suspended work) (turns + 1) bound) :
    Serves F first before t s (turns + 1) bound := by
  obtain ⟨ordinals, length, reached, yields⟩ := serves
  refine ⟨ordinals, length, reached, ?_⟩
  intro ctx alone
  obtain ⟨ordinal, ordinals, rfl⟩ := List.exists_cons_of_length_eq_add_one length
  obtain ⟨rest, same, alone⟩ := tail_of_yieldsAlone alone
  obtain rfl : work = rest := Stream.suspended.inj (left.symm.trans same)
  exact yields ctx alone

/-- A turn of another stream. -/
theorem serves_of_other (forces : F.Forces before work next after)
    (serves : Serves F first after (afterTurn others next) s turns bound) :
    Serves F first before (ofWorks (work :: others)) s turns (bound + 1) := by
  obtain ⟨ordinals, length, reached, yields⟩ := serves
  refine ⟨ordinals, length, reached, ?_⟩
  intro ctx alone
  obtain ⟨count, within, yields⟩ := yields ctx alone
  exact ⟨count + 1, Nat.succ_le_succ within, yields_ofWorks forces yields⟩

/-- A turn of the stream itself. -/
theorem serves_of_turn (later : first ≤ F.ordinal before)
    (forces : F.Forces before work next after)
    (serves : Serves F first after (afterTurn others next) next turns bound) :
    Serves F first before (ofWorks (work :: others)) (.suspended work) (turns + 1) (bound + 1) := by
  obtain ⟨ordinals, length, reached, yields⟩ := serves
  refine ⟨F.ordinal before :: ordinals, congrArg (· + 1) length, ?_, ?_⟩
  · exact List.forall_mem_cons.mpr ⟨⟨later, before, rfl⟩, reached⟩
  · intro ctx alone
    obtain ⟨count, within, yields⟩ := yields ctx (yieldsAlone_forced forces alone)
    exact ⟨count + 1, Nat.succ_le_succ within, yields_ofWorks forces yields⟩

/-- Forcing the work gives a stream whose next turn serves it. -/
theorem serves_of_forced (later : first ≤ F.ordinal before)
    (serves : ∀ next after, F.Forces before work next after →
      Serves F first after (afterTurn others next) next turns bound) :
    Serves F first before (ofWorks (work :: others)) (.suspended work) (turns + 1) (bound + 1) := by
  by_cases forceable : ∃ next after, F.Forces before work next after
  · obtain ⟨next, after, forces⟩ := forceable
    exact serves_of_turn later forces (serves next after forces)
  · apply serves_of_unyielding later
    intro ctx alone
    generalize same : List.replicate (turns + 1) (F.ordinal before) = ordinals at alone
    cases alone with
    | forced forces _ =>
        obtain ⟨after, transferred⟩ := F.transfers forces (.inl (List.cons.inj same).1.symm)
        exact forceable ⟨_, after, transferred⟩

/-- A suspended stream is served once the streams before it had their turns. -/
theorem serves_behind {size : Nat}
    (serves : ∀ (back : List Work) (before : F.State), back.length < size →
      first ≤ F.ordinal before → (∀ other ∈ back, Steady F first (.suspended other)) →
      Serves F first before (ofWorks (work :: back)) s turns bound) :
    ∀ (front back : List Work) (before : F.State), front.length + back.length < size →
      first ≤ F.ordinal before →
      (∀ other ∈ front ++ back, Steady F first (.suspended other)) →
      Serves F first before (ofWorks (front ++ work :: back)) s turns (front.length + bound) := by
  intro front
  induction front with
  | nil =>
      intro back before few later steady
      rw [List.length_nil, Nat.zero_add]
      exact serves back before (by simpa using few) later steady
  | cons other front ih =>
      intro back before few later steady
      have steadyOther := steady other (by simp)
      obtain ⟨next, after, forces, steadyNext⟩ :=
        steadyOther.of_forced (List.mem_singleton_self other) later
      rw [List.length_cons, List.cons_append, Nat.add_right_comm]
      apply serves_of_other forces
      apply serves_of_tail
      rw [tail_afterTurn steadyNext.sound, List.append_assoc, List.cons_append]
      apply ih (back ++ next.works) after
      · have atMostOne := length_works_le next
        rw [List.length_cons] at few
        rw [List.length_append]
        omega
      · exact later.trans (F.grows forces)
      · intro later member
        rw [List.mem_append, List.mem_append] at member
        rcases member with before | behind | left
        · exact steady later (by simp [before])
        · exact steady later (by simp [behind])
        · exact steadyNext.of_mem_works left

/-- Among suspended streams, the first is forced again once in every round. -/
theorem serves_ofWorks {size : Nat} (rounds : Nat) : ∀ (work : Work) (back : List Work)
    (before : F.State), back.length < size → first ≤ F.ordinal before →
      (∀ other ∈ back, Steady F first (.suspended other)) →
      Serves F first before (ofWorks (work :: back)) (.suspended work) (rounds + 1)
        (size * rounds + 1) := by
  induction rounds with
  | zero =>
      intro work back before _ later _
      apply serves_of_forced later
      exact fun next after _ => serves_of_heads fun ctx => mem_heads_afterTurn
  | succ rounds ih =>
      intro work back before few later steady
      apply serves_of_forced later
      intro next after forces
      have laterAfter := later.trans (F.grows forces)
      by_cases left : ∃ work, next.tail = .suspended work
      · obtain ⟨rest, left⟩ := left
        obtain ⟨restOnly, sound⟩ := works_of_tail next left
        apply serves_of_tail
        rw [tail_afterTurn sound, restOnly]
        apply serves_of_rest left
        have few : back.length + ([] : List Work).length < size := few
        have reached := serves_behind (fun back before => ih rest back before) back [] after few
          laterAfter (by simpa using steady)
        apply reached.mono
        rw [Nat.mul_succ]
        omega
      · apply serves_of_unyielding laterAfter
        intro ctx alone
        obtain ⟨rest, tail, _⟩ := tail_of_yieldsAlone alone
        exact left ⟨rest, tail⟩

/-! ## Streams that take turns -/

/-- What becomes of a queue when all that is ready has been handed out. -/
theorem tail_interleave {queue siblings : List Stream} (same : queue.Perm (s :: siblings))
    (left : s.tail = .suspended work) (sound : ∀ t ∈ siblings, t.isFaulty = false) :
    ∃ front back, (interleave queue).tail = ofWorks (front ++ work :: back) ∧
      (front ++ back).Perm (siblings.flatMap Stream.works) := by
  obtain ⟨restOnly, soundHere⟩ := works_of_tail s left
  have soundAll : ∀ t ∈ queue, t.isFaulty = false := by
    intro t member
    rcases List.mem_cons.mp (same.mem_iff.mp member) with rfl | other
    · exact soundHere
    · exact sound t other
  obtain ⟨all, tail, kept⟩ := tail_takeTurns soundAll
  replace kept : all.Perm (work :: siblings.flatMap Stream.works) := by
    have whole := kept.trans (same.flatMap_right Stream.works)
    rwa [List.flatMap_cons, restOnly] at whole
  obtain ⟨front, back, rfl⟩ := List.append_of_mem (kept.mem_iff.mpr (List.mem_cons_self ..))
  rw [interleave_eq_takeTurns]
  exact ⟨front, back, tail, (List.perm_middle.symm.trans kept).cons_inv⟩

/-- Every stream that takes turns is served, if the others never abort. -/
theorem serves_interleave {streams : List Stream} {i : Nat} (stands : streams[i]? = some s)
    (steady : ∀ j t, j ≠ i → streams[j]? = some t → Steady F (F.ordinal before) t) (turns : Nat) :
    Serves F (F.ordinal before) before (interleave streams) s turns (streams.length * turns) := by
  obtain ⟨inside, rfl⟩ := List.getElem?_eq_some_iff.mp stands
  have same : streams.Perm (streams[i] :: streams.eraseIdx i) :=
    (List.getElem_cons_eraseIdx_perm inside).symm
  replace steady : ∀ t ∈ streams.eraseIdx i, Steady F (F.ordinal before) t := by
    intro t member
    obtain ⟨j, other, there⟩ := List.mem_eraseIdx_iff_getElem?.mp member
    exact steady j t other there
  have sound : ∀ t ∈ streams.eraseIdx i, t.isFaulty = false := fun t member =>
    (steady t member).sound
  cases turns with
  | zero =>
      rw [Nat.mul_zero, interleave_eq_takeTurns]
      exact serves_of_heads fun ctx offered => mem_heads_takeTurns offered same sound
  | succ turns =>
      by_cases left : ∃ work, streams[i].tail = .suspended work
      · obtain ⟨work, left⟩ := left
        obtain ⟨front, back, tail, others⟩ := tail_interleave same left sound
        have steadyWorks : ∀ other ∈ front ++ back,
            Steady F (F.ordinal before) (.suspended other) := by
          intro other member
          obtain ⟨t, there, belongs⟩ := List.mem_flatMap.mp (others.mem_iff.mp member)
          exact (steady t there).of_mem_works belongs
        have few : front.length + back.length < streams.length := by
          have atMostOne := length_flatMap_works_le (streams.eraseIdx i)
          rw [← others.length_eq, List.length_append,
            List.length_eraseIdx_of_lt inside] at atMostOne
          omega
        apply serves_of_rest left
        apply serves_of_tail
        rw [tail]
        have served := serves_behind (fun back before => serves_ofWorks turns work back before)
          front back before few le_rfl steadyWorks
        apply served.mono
        rw [Nat.mul_succ]
        omega
      · apply serves_of_unyielding le_rfl
        intro ctx alone
        obtain ⟨work, tail, _⟩ := tail_of_yieldsAlone alone
        exact left ⟨work, tail⟩

end Stream

/-! ## Runs -/

/-- The move forces a suspension. -/
def Move.isForced : Move → Bool
  | .forced _ => true
  | _ => false

theorem Move.eq_of_concat {move last : Move} {moves : List Move}
    (same : [move] = moves ++ [last]) : move = last := by
  simpa using congrArg List.getLast? same

namespace Stream

variable {program : Program} {ctx : Context} {s : Stream} {start finish : Session}
variable {after : Session} {count : Nat} {work : Work} {next rest : Stream}

/-- A run of the stream yields the context when it has forced at most so many
suspensions. -/
def YieldsWithin (program : Program) (start : Session) (s : Stream) (ctx : Context)
    (bound : Nat) : Prop :=
  ∃ moves rest finish, Runs (s.moves program (moves.length + 1)) start
    (moves ++ [.yield ctx rest]) finish ∧ moves.countP Move.isForced ≤ bound

theorem YieldsWithin.mono {larger : Nat} (yields : YieldsWithin program start s ctx count)
    (le : count ≤ larger) : YieldsWithin program start s ctx larger := by
  obtain ⟨moves, rest, finish, ran, within⟩ := yields
  exact ⟨moves, rest, finish, ran, within.trans le⟩

theorem yieldsWithin_here (ctx : Context) (rest : Stream) :
    YieldsWithin program start (.ready ctx rest) ctx 0 := by
  refine ⟨[], rest, start, ?_, Nat.le_refl 0⟩
  exact runs_bind.mpr ⟨_, start, rfl, runs_pure.mpr ⟨rfl, rfl⟩⟩

theorem YieldsWithin.later (other : Context) (yields : YieldsWithin program start rest ctx count) :
    YieldsWithin program start (.ready other rest) ctx count := by
  obtain ⟨moves, last, finish, ran, within⟩ := yields
  refine ⟨.yield other rest :: moves, last, finish, ?_, within⟩
  exact runs_bind.mpr ⟨_, start, rfl, runs_map.mpr ⟨_, ran, rfl⟩⟩

theorem YieldsWithin.forced (forces : Runs (work.force program) start next after)
    (yields : YieldsWithin program after next ctx count) :
    YieldsWithin program start (.suspended work) ctx (count + 1) := by
  obtain ⟨moves, last, finish, ran, within⟩ := yields
  refine ⟨.forced next :: moves, last, finish, ?_, ?_⟩
  · exact runs_bind.mpr ⟨_, _, runs_map.mpr ⟨_, forces, rfl⟩, runs_map.mpr ⟨_, ran, rfl⟩⟩
  · rw [List.countP_cons_of_pos rfl]
    exact Nat.succ_le_succ within

theorem yieldsWithin_of_yields : ∀ {start : (Forcing.inSessions program).State} {s : Stream}
    {count : Nat}, Yields (.inSessions program) ctx start s count →
      YieldsWithin program start s ctx count
  | _, _, _, .here => yieldsWithin_here ctx _
  | _, _, _, .later yields => (yieldsWithin_of_yields yields).later _
  | _, _, _, .forced forces yields => .forced forces (yieldsWithin_of_yields yields)

/-- What a run of the stream alone yields without a new variable is yielded under all
numbers. -/
theorem yieldsAlone_of_moves (total : Nat) : ∀ {s : Stream} {start : Session} {moves : List Move},
    Runs (s.moves program total) start (moves ++ [.yield ctx rest]) finish →
      finish.nextOrdinal = start.nextOrdinal →
      ∀ ordinals, ordinals.length = moves.countP Move.isForced →
        YieldsAlone (.inSessions program) ctx ordinals s := by
  induction total with
  | zero =>
      intro s start moves ran
      obtain ⟨none, -⟩ := runs_pure.mp ran
      cases moves <;> cases none
  | succ total ih =>
      intro s start moves ran kept ordinals length
      obtain ⟨move, between, moved, goesOn⟩ := runs_bind.mp ran
      cases s with
      | empty =>
          obtain ⟨rfl, rfl⟩ := runs_pure.mp moved
          cases Move.eq_of_concat (runs_pure.mp goesOn).1
      | aborted fault =>
          obtain ⟨rfl, rfl⟩ := runs_pure.mp moved
          cases Move.eq_of_concat (runs_pure.mp goesOn).1
      | ready other last =>
          obtain ⟨rfl, rfl⟩ := runs_pure.mp moved
          obtain ⟨later, goesOn, same⟩ := runs_map.mp goesOn
          cases moves with
          | nil =>
              cases same
              cases List.length_eq_zero_iff.mp length
              exact .here
          | cons move moves =>
              cases same
              exact .later (ih goesOn kept ordinals length)
      | suspended work =>
          obtain ⟨next, forces, rfl⟩ := runs_map.mp moved
          obtain ⟨later, goesOn, same⟩ := runs_map.mp goesOn
          cases moves with
          | nil => cases same
          | cons move moves =>
              cases same
              rw [List.countP_cons_of_pos rfl] at length
              obtain ⟨ordinal, ordinals, rfl⟩ := List.exists_cons_of_length_eq_add_one length
              -- The number stays from the first move to the last.
              have grows := Work.nextOrdinal_force_le forces
              have growsLater := nextOrdinal_moves_le goesOn
              have alone := ih goesOn (by omega) ordinals (Nat.succ.inj length)
              have transferred : ∃ afterOther, Runs (work.force program)
                  { start with nextOrdinal := ordinal } next afterOther :=
                Work.force_agree forces (.inr (by omega))
              obtain ⟨afterOther, transferred⟩ := transferred
              exact @YieldsAlone.forced (.inSessions program) ctx _ afterOther work next ordinals
                transferred alone

end Stream

end RelationalSolver
