import RelationalSolver.Proofs.Stream.Fairness
import RelationalSolver.Proofs.Stream.Merging

/-!
# What a stream among others hands out

Sessions are threaded through all turns, so a stream that takes turns with others is forced under
other numbers than alone.  Forced in its own turns of the run, it hands out a context after `k` of
them only if the `n` streams together have handed it out after `n * k`.
-/

namespace RelationalSolver

open Engine

namespace Stream

variable {program : Program} {s t last : Stream} {ctx : Context} {shown : List Context}
variable {turns : List (Session × Session)} {start before finish : Session} {first : ℕ}

/-! ## Forcing in consecutive sessions -/

/-- The first of the turns in which a stream is forced. -/
theorem Leads.take (leads : s.Leads program turns shown last) (nothing : last.heads = [])
    (count : ℕ) :
    ∃ handed rest, s.Leads program (turns.take count) handed rest ∧ rest.heads = [] ∧
      handed <+: shown := by
  induction leads generalizing count with
  | here s =>
      rw [List.take_nil]
      exact ⟨[], s, .here s, nothing, List.nil_prefix⟩
  | hand ctx _ ih =>
      obtain ⟨handed, rest, leads, none, ahead⟩ := ih nothing count
      exact ⟨_, rest, .hand ctx leads, none, (List.prefix_cons_inj ctx).mpr ahead⟩
  | @forced work _ _ _ _ _ _ forces _ ih =>
      cases count with
      | zero => exact ⟨[], .suspended work, .here _, rfl, List.nil_prefix⟩
      | succ count =>
          obtain ⟨handed, rest, leads, none, ahead⟩ := ih nothing count
          exact ⟨handed, rest, .forced forces leads, none, ahead⟩

/-- No turn begins before the first. -/
theorem Leads.nextOrdinal_le (leads : s.Leads program turns shown last)
    (consecutive : Consecutive start turns finish) :
    (∀ turn ∈ turns, start.nextOrdinal ≤ turn.1.nextOrdinal) ∧
      start.nextOrdinal ≤ finish.nextOrdinal := by
  induction leads generalizing start with
  | here =>
      cases consecutive
      exact ⟨nofun, Nat.le_refl _⟩
  | hand _ _ ih => exact ih consecutive
  | forced forces _ ih =>
      cases consecutive with
      | cons later =>
          have grows := Work.nextOrdinal_force_le forces
          obtain ⟨turns, last⟩ := ih later
          exact ⟨List.forall_mem_cons.mpr ⟨Nat.le_refl _, fun turn member =>
            grows.trans (turns turn member)⟩, grows.trans last⟩

/-- Forced in a run of its own, a stream hands out what it is led to show. -/
theorem Leads.yieldsWithin (leads : s.Leads program turns shown last)
    (consecutive : Consecutive start turns finish) (member : ctx ∈ shown) :
    YieldsWithin program start s ctx turns.length := by
  induction leads generalizing start with
  | here => cases member
  | @hand rest _ turns _ other _ ih =>
      rcases List.mem_cons.mp member with rfl | member
      · exact (yieldsWithin_here ctx rest).mono (Nat.zero_le _)
      · exact (ih consecutive member).later other
  | forced forces _ ih =>
      cases consecutive with
      | cons later => exact .forced forces (ih later member)

/-- A stream that never aborts does not in given sessions. -/
theorem Steady.of_leads (steady : t.Steady (.inSessions program) first)
    (leads : t.Leads program turns shown last)
    (later : ∀ turn ∈ turns, first ≤ turn.1.nextOrdinal) :
    last.Steady (.inSessions program) first := by
  induction leads with
  | here => exact steady
  | hand ctx _ ih =>
      refine ih (fun depth => ?_) later
      cases depth with
      | zero => trivial
      | succ depth => exact steady (depth + 1)
  | @forced work next last before after turns shown forces _ ih =>
      obtain ⟨here, later⟩ := List.forall_mem_cons.mp later
      obtain ⟨_, _, forcesOther, steady⟩ := steady.of_forced (List.mem_singleton_self work) here
      exact ih ((Forcing.inSessions program).functional forcesOther forces ▸ steady) later

/-- Nor does forcing it stop short. -/
theorem Steady.not_halts (steady : t.Steady (.inSessions program) first)
    (later : first ≤ before.nextOrdinal) : ¬ t.Halts program before := by
  rintro ⟨work, reason, after, rfl, halts⟩
  obtain ⟨next, between, forces, _⟩ := steady.of_forced (List.mem_singleton_self work) later
  cases halts.symm.trans forces

/-! ## A stream beside steady ones -/

/-- Where the others never abort, the branch of the stream hands out all that is ready, and it is
the one that has come to its end, or that stops short, where the merged stream does. -/
theorem Merged.exists_own {streams : List Stream} {branches : List Branch} {i : ℕ}
    (merged : Merged program streams turns shown last branches) (stands : streams[i]? = some s)
    (steady : ∀ j t, j ≠ i → streams[j]? = some t → t.Steady (.inSessions program) first)
    (later : ∀ turn ∈ turns, first ≤ turn.1.nextOrdinal) (nothing : last.heads = []) :
    ∃ own ∈ branches, own.Follows program s ∧ own.rest.heads = [] ∧
      (last.works = [] → own.rest.works = []) ∧
      (first ≤ before.nextOrdinal → last.Halts program before → own.rest.Halts program before) := by
  obtain ⟨inside, rfl⟩ := List.getElem?_eq_some_iff.mp stands
  have follows : ∀ j (here : j < streams.length) (there : j < branches.length),
      branches[j].Follows program streams[j] := merged.follows.get
  have size := merged.follows.length_eq
  have isOwn : i < branches.length := size ▸ inside
  have member : branches[i] ∈ branches := List.getElem_mem isOwn
  -- A branch that is not steady is that of the stream.
  have comes : ∀ P : Stream → Prop, (∀ t : Stream, t.Steady (.inSessions program) first → ¬ P t) →
      (∃ branch ∈ branches, P branch.rest) → P branches[i].rest := by
    rintro P never ⟨branch, among, holds⟩
    obtain ⟨j, there, rfl⟩ := List.mem_iff_getElem.mp among
    by_contra other
    have here : j < streams.length := size ▸ there
    have apart : j ≠ i := by
      rintro rfl
      exact other holds
    have turned := merged.turns.sublist (List.mem_map_of_mem among)
    have still := (steady j _ apart (List.getElem?_eq_getElem here)).of_leads (follows j here there)
      fun turn member => later turn (turned.subset member)
    exact never _ still holds
  have halts : first ≤ before.nextOrdinal → last.Halts program before →
      branches[i].rest.Halts program before := fun stillLater halts =>
    comes (·.Halts program before) (fun t steady => steady.not_halts stillLater)
      (merged.halts before halts)
  refine ⟨branches[i], member, follows i inside isOwn, ?_⟩
  cases sound : last.isFaulty with
  | true =>
      obtain ⟨reason, aborts⟩ := eq_aborted nothing sound
      have never : ∀ t : Stream, t.Steady (.inSessions program) first → ¬ t = .aborted reason := by
        rintro t steady rfl
        cases steady.sound
      have aborted := comes (· = .aborted reason) never (merged.aborted reason aborts)
      exact ⟨aborted ▸ rfl, fun _ => aborted ▸ rfl, halts⟩
  | false =>
      refine ⟨merged.ready nothing sound _ member, fun ends => ?_, halts⟩
      exact merged.ended (eq_empty nothing sound ends) _ member ▸ rfl

/-- Among streams that take turns, none of the others of which ever aborts, a stream gets each turn
after at most one round.  In the run of all of them, forced in its own turns of this run, it hands
out contexts, and those that it hands out within so many turns the run hands out after at most as
many turns of each stream.  What the stream alone hands out without new variables in any run is
handed out as soon. -/
theorem interleave_fair (program : Program) (start : Session) {streams : List Stream} {i : ℕ}
    (stands : streams[i]? = some s)
    (steady : ∀ j t, j ≠ i → streams[j]? = some t →
      t.Steady (.inSessions program) start.nextOrdinal) (rounds : ℕ) :
    (∃ turns shown last finish own handed rest,
      (interleave streams).Leads program turns shown last ∧ Consecutive start turns finish ∧
      turns.length ≤ streams.length * rounds ∧
      own.Sublist turns ∧ s.Leads program own handed rest ∧ rest.heads = [] ∧
      (own.length = rounds ∨ rest.works = [] ∨ rest.Halts program finish) ∧
      handed.Sublist shown ∧ ∀ ctx ∈ handed,
        YieldsWithin program start (interleave streams) ctx (streams.length * rounds)) ∧
    ∀ total alone moves ctx rest finish,
      Runs (s.moves program total) alone (moves ++ [.yield ctx rest]) finish →
      finish.nextOrdinal = alone.nextOrdinal → moves.countP Move.isForced = rounds →
        YieldsWithin program start (interleave streams) ctx (streams.length * rounds) := by
  constructor
  · obtain ⟨turns, shown, last, finish, leads, consecutive, few, nothing, ends⟩ :=
      exists_run program (interleave streams) start (streams.length * rounds)
    obtain ⟨branches, merged⟩ := exists_merged leads
    obtain ⟨later, stillLater⟩ := leads.nextOrdinal_le consecutive
    obtain ⟨own, member, follows, ready, ended, halted⟩ :=
      merged.exists_own stands steady later nothing
    have turned := merged.turns.sublist (List.mem_map_of_mem member)
    have handed := merged.shown.sublist (List.mem_map_of_mem member)
    have within : ∀ ctx ∈ own.shown,
        YieldsWithin program start (interleave streams) ctx (streams.length * rounds) :=
      fun ctx among => (leads.yieldsWithin consecutive (handed.subset among)).mono few
    have goesOn : rounds ≤ own.turns.length ∨ own.rest.works = [] ∨
        own.rest.Halts program finish := by
      rcases ends with all | ends | halts
      · exact (merged.fair own member rounds all.ge).imp_right .inl
      · exact .inr (.inl (ended ends))
      · exact .inr (.inr (halted stillLater halts))
    rcases goesOn with enough | stuck
    · obtain ⟨first, rest, leadsFirst, none, ahead⟩ := follows.take ready rounds
      exact ⟨turns, shown, last, finish, own.turns.take rounds, first, rest, leads, consecutive,
        few, (List.take_sublist ..).trans turned, leadsFirst, none,
        .inl (List.length_take_of_le enough), ahead.sublist.trans handed,
        fun ctx among => within ctx (ahead.subset among)⟩
    · exact ⟨turns, shown, last, finish, own.turns, own.shown, own.rest, leads, consecutive, few,
        turned, follows, ready, .inr stuck, handed, within⟩
  · intro total alone moves ctx rest finish ran kept forced
    have served : Serves (.inSessions program) start.nextOrdinal start (interleave streams) s
        rounds (streams.length * rounds) := serves_interleave stands steady rounds
    obtain ⟨ordinals, length, _, serves⟩ := served
    obtain ⟨count, within, yields⟩ :=
      serves ctx (yieldsAlone_of_moves total ran kept ordinals (length.trans forced.symm))
    exact (yieldsWithin_of_yields yields).mono within

/-- A stream that suspends forever never aborts. -/
theorem steady_never (program : Program) (first : ℕ) :
    Steady (.inSessions program) first (.suspended (.build .never)) := by
  intro depth
  induction depth with
  | zero => trivial
  | succ depth ih =>
      refine ⟨rfl, ?_⟩
      intro work member before _
      rw [List.mem_singleton.mp member]
      exact ⟨_, before, rfl, ih⟩

/-- A stream that any session forces to another has had a turn, if it does not stop before. -/
theorem Leads.of_forces {work : Work} {next : Stream} {count : ℕ}
    (leads : Leads program (.suspended work) turns shown last)
    (goesOn : turns.length = count + 1 ∨ last.works = [] ∨ last.Halts program finish)
    (forces : ∀ before, ∃ after, Runs (work.force program) before next after) :
    ∃ later, next.Leads program later shown last ∧
      (later.length = count ∨ last.works = [] ∨ last.Halts program finish) := by
  cases leads with
  | here =>
      obtain ⟨after, forced⟩ := forces finish
      rcases goesOn with none | none | ⟨_, _, _, same, halts⟩
      · cases none
      · cases none
      · cases same
        cases halts.symm.trans forced
  | @forced _ other _ before _ _ _ forcesOther later =>
      obtain ⟨after, forced⟩ := forces before
      cases (Forcing.inSessions program).functional forced forcesOther
      exact ⟨_, later, goesOn.imp_left Nat.succ.inj⟩

/-- Beside a stream that suspends forever, a context that comes after two new variables, in the
third turn of its stream, is handed out when six suspensions have been forced. -/
theorem never_beside_context :
    let making : Goal := .fresh ["x"] (.fresh ["y"] .succeed)
    let streams : List Stream := [.suspended (.build .never), .suspended (.run making .empty)]
    (∀ j t, j ≠ 1 → streams[j]? = some t → Steady (.inSessions ⟨[], 0⟩) 1 t) ∧
      YieldsWithin ⟨[], 0⟩ (.start 0 0) (interleave streams) .empty 6 := by
  intro making streams
  have steady : ∀ j t, j ≠ 1 → streams[j]? = some t → Steady (.inSessions ⟨[], 0⟩) 1 t := by
    intro j t other there
    match j with
    | 0 =>
        obtain rfl := Option.some.inj there
        exact steady_never ⟨[], 0⟩ 1
    | 1 => exact absurd rfl other
  refine ⟨steady, ?_⟩
  have stands : streams[1]? = some (.suspended (.run making .empty)) := rfl
  obtain ⟨_, _, _, finish, own, handed, rest, _, _, _, _, leads, ready, goesOn, _, yields⟩ :=
    (interleave_fair ⟨[], 0⟩ (.start 0 0) stands steady 3).1
  have first : ∀ before, ∃ after, Runs (Work.force ⟨[], 0⟩ (.run making .empty)) before
      (.suspended (.run (.fresh ["y"] .succeed) .empty)) after := fun before => ⟨_, rfl⟩
  have second : ∀ before, ∃ after, Runs (Work.force ⟨[], 0⟩ (.run (.fresh ["y"] .succeed) .empty))
      before (.suspended (.run .succeed .empty)) after := fun before => ⟨_, rfl⟩
  have third : ∀ before, ∃ after, Runs (Work.force ⟨[], 0⟩ (.run .succeed .empty))
      before (.ready .empty .empty) after := fun before => ⟨_, rfl⟩
  obtain ⟨_, leads, goesOn⟩ := leads.of_forces goesOn first
  obtain ⟨_, leads, goesOn⟩ := leads.of_forces goesOn second
  obtain ⟨_, leads, _⟩ := leads.of_forces goesOn third
  cases leads with
  | here => cases ready
  | hand _ later => exact yields .empty (List.mem_cons_self ..)

end Stream

end RelationalSolver
