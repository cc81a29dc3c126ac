import RelationalSolver.Proofs.Stream.Observation
import RelationalSolver.Proofs.Stream.Endings

/-!
# Feeding a stream into a goal

What a goal makes of a stream is what it makes of one context after the other, in the order of
the stream, and then the end of the stream.  The answers for a context are strung before work
that is still suspended, in four ways that call each other; whatever is shown of the result is
shown of the parts, one after the other in one and the same session, and the other way around.
-/

namespace RelationalSolver

open Engine

variable {program : Program} {s : Stream} {next : Continuation} {goal : Goal}
variable {count more : Nat} {shown later : List Context} {standing : Standing}
variable {before between after : Session}

namespace Stream

/-! ## One stream after the other -/

/-- Where a stream comes to its end, so much of what comes after it is shown in the session it
has left. -/
def Parts (program : Program) (s : Stream) (next : Continuation) (before : Session) (count : Nat)
    (shown : List Context) (standing : Standing) : Prop :=
  (standing.Cuts ∧ s.Shows program before count shown standing) ∨
    ∃ first second start rest between, first + second ≤ count ∧ shown = start ++ rest ∧
      s.Shows program before first start (.done between) ∧
      next.resume.Shows program between second rest standing

theorem Parts.hand {ctx : Context} (parts : s.Parts program next before count shown standing) :
    (ready ctx s).Parts program next before count (ctx :: shown) standing := by
  rcases parts with ⟨cuts, shows⟩ | ⟨first, second, start, rest, between, few, rfl, whole, others⟩
  · exact .inl ⟨cuts, .hand ctx shows⟩
  · exact .inr ⟨first, second, ctx :: start, rest, between, few, rfl, .hand ctx whole, others⟩

theorem Parts.forced {work : Work} (ran : Runs (work.force program) before s between)
    (parts : s.Parts program next between count shown standing) :
    (suspended work).Parts program next before (count + 1) shown standing := by
  rcases parts with ⟨cuts, shows⟩ | ⟨first, second, start, rest, last, few, rfl, whole, others⟩
  · exact .inl ⟨cuts, .forced (.ran ran shows)⟩
  · exact .inr ⟨first + 1, second, start, rest, last, by omega, rfl, .forced (.ran ran whole),
      others⟩

/-- Nothing has been shown yet. -/
theorem Parts.unfinished : s.Parts program next before 0 [] .unfinished :=
  .inl ⟨Standing.cuts_unfinished, .unfinished s before⟩

/-- What is shown with a continuation behind a stream is shown in parts, if that is so wherever
fewer suspensions are forced. -/
theorem parts_of_followBy
    (ih : ∀ fewer < count, ∀ (s : Stream) (before : Session) (shown : List Context),
      Engine.Shows program (s.andThen next) before fewer shown standing →
        s.Parts program next before fewer shown standing)
    (shows : (s.followBy next).Shows program before count shown standing) :
    s.Parts program next before count shown standing := by
  induction s using Stream.heads.induct generalizing shown with
  | case1 ctx rest ihRest =>
      cases shows with
      | unfinished => exact .unfinished
      | hand _ shows => exact (ihRest shows).hand
  | case2 s notReady =>
      cases s with
      | ready ctx rest => exact absurd rfl (notReady ctx rest)
      | aborted fault =>
          cases shows with
          | unfinished => exact .unfinished
          | fault => exact .inl ⟨Standing.cuts_fault fault, .fault fault before⟩
      | empty =>
          cases shows with
          | unfinished => exact .unfinished
          | @forced _ _ count _ _ shows =>
              exact .inr ⟨0, count, [], shown, before, by omega, rfl, .done before, shows⟩
      | suspended work =>
          cases shows with
          | unfinished => exact .unfinished
          | @forced _ _ count _ _ shows =>
              rcases shows.of_bind with ⟨rfl, rfl, rfl⟩ | ⟨s, between, ran, shows⟩ |
                ⟨halt, after, halts, rfl, rfl, rfl⟩
              · exact .inl ⟨Standing.cuts_unfinished, .forced (.unfinished _ before)⟩
              · exact (ih count (Nat.lt_succ_self count) s between shown shows).forced ran
              · exact .inl ⟨Standing.cuts_halt halt, .forced (.halt halts)⟩

/-- What is shown of one stream after the other is shown of the first, and then of the second. -/
theorem parts_of_andThen
    (shows : Engine.Shows program (s.andThen next) before count shown standing) :
    s.Parts program next before count shown standing := by
  induction count using Nat.strong_induction_on generalizing s before shown with
  | _ count ih =>
      by_cases ended : s = .empty
      · subst ended
        exact .inr ⟨0, count, [], shown, before, by omega, rfl, .done before, shows⟩
      · rw [andThen_eq ended] at shows
        exact parts_of_followBy (fun fewer less s before shown => ih fewer less) shows.of_pure

theorem Shows.andThen_of_followBy (cuts : standing.Cuts)
    (shows : s.Shows program before count shown standing)
    (follows : (s.followBy next).Shows program before count shown standing) :
    Engine.Shows program (s.andThen next) before count shown standing := by
  by_cases ended : s = .empty
  · subst ended
    cases shows with
    | unfinished => exact .unfinished _ before
    | done => exact absurd rfl (cuts before)
  · rw [andThen_eq ended]
    exact .pure follows

mutual

/-- A stream that is cut short shows the same whatever comes after it. -/
theorem Shows.followBy : ∀ {s : Stream} {before : Session} {count : Nat}
    {shown : List Context} {standing : Standing}, s.Shows program before count shown standing →
      standing.Cuts → (s.followBy next).Shows program before count shown standing
  | _, _, _, _, _, .unfinished _ before, _ => .unfinished _ before
  | _, _, _, _, _, .done before, cuts => absurd rfl (cuts before)
  | _, _, _, _, _, .fault reason before, _ => .fault reason before
  | _, _, _, _, _, .hand ctx later, cuts => .hand ctx (later.followBy cuts)
  | _, _, _, _, _, .forced shows, cuts => .forced (bind_andThen shows cuts)

theorem bind_andThen : ∀ {x : Engine Stream} {before : Session} {count : Nat}
    {shown : List Context} {standing : Standing},
      Engine.Shows program x before count shown standing → standing.Cuts →
        Engine.Shows program (x >>= (·.andThen next)) before count shown standing
  | _, _, _, _, _, .unfinished _ before, _ => .unfinished _ before
  | _, _, _, _, _, .ran ran shows, cuts =>
      .bind ran (shows.andThen_of_followBy cuts (shows.followBy cuts))
  | _, _, _, _, _, .halt halts, _ => .halt_bind halts

end

theorem Shows.andThen_done_of_followBy {total : Nat}
    (rest : next.resume.Shows program between more later standing)
    (shows : s.Shows program before count shown (.done between)) (few : total ≤ count + more + 1)
    (follows : (s.followBy next).Shows program before total (shown ++ later) standing) :
    ∃ total ≤ count + more + 1,
      Engine.Shows program (s.andThen next) before total (shown ++ later) standing := by
  by_cases ended : s = .empty
  · subst ended
    cases shows
    exact ⟨more, by omega, rest⟩
  · rw [andThen_eq ended]
    exact ⟨total, few, .pure follows⟩

/-- What comes after a stream is shown once the stream has ended, at the cost of one suspension
at most. -/
theorem Shows.followBy_done (rest : next.resume.Shows program between more later standing) :
    ∀ {s : Stream} {before : Session} {count : Nat} {shown : List Context},
      s.Shows program before count shown (.done between) → ∃ total ≤ count + more + 1,
        (s.followBy next).Shows program before total (shown ++ later) standing
  | _, _, _, _, .done _ => ⟨more + 1, by omega, .forced rest⟩
  | _, _, _, _, .hand ctx shows => by
      obtain ⟨total, few, follows⟩ := shows.followBy_done rest
      exact ⟨total, few, .hand ctx follows⟩
  | _, _, _, _, .forced (.ran ran shows) => by
      obtain ⟨total, few, follows⟩ := shows.followBy_done rest
      obtain ⟨total, few, follows⟩ := shows.andThen_done_of_followBy rest few follows
      exact ⟨total + 1, by omega, .forced (.bind ran follows)⟩

theorem Shows.andThen_done (rest : next.resume.Shows program between more later standing)
    (shows : s.Shows program before count shown (.done between)) :
    ∃ total ≤ count + more + 1,
      Engine.Shows program (s.andThen next) before total (shown ++ later) standing := by
  obtain ⟨total, few, follows⟩ := shows.followBy_done rest
  exact shows.andThen_done_of_followBy rest few follows

/-! ## Contexts fed into a goal -/

/-- Fed into the goal one after the other as the stream hands them out, contexts give these
answers with so many suspensions forced, and then it stands so: what the goal makes of a
context is shown to the end before the stream goes on, and where that has not come to its end,
nothing follows. -/
inductive Feeds (program : Program) (goal : Goal) :
    Stream → Session → Nat → List (Context × List Context) → Standing → Prop
  | unfinished (s : Stream) (before : Session) : Feeds program goal s before 0 [] .unfinished
  | done (before : Session) : Feeds program goal .empty before 0 [] (.done before)
  | fault (fault : Fault) (before : Session) :
      Feeds program goal (.aborted fault) before 0 [] (.fault fault)
  | whole {ctx : Context} {rest : Stream} {before between : Session} {count more : Nat}
      {shown : List Context} {parts : List (Context × List Context)} {standing : Standing}
      (part : (goal.apply ctx).Shows program before count shown (.done between))
      (later : Feeds program goal rest between more parts standing) :
      Feeds program goal (.ready ctx rest) before (count + more) ((ctx, shown) :: parts) standing
  | cut {ctx : Context} {before : Session} {count : Nat} {shown : List Context}
      {standing : Standing} (rest : Stream) (cuts : standing.Cuts)
      (part : (goal.apply ctx).Shows program before count shown standing) :
      Feeds program goal (.ready ctx rest) before count [(ctx, shown)] standing
  | forced {work : Work} {next : Stream} {before between : Session} {count : Nat}
      {parts : List (Context × List Context)} {standing : Standing}
      (forces : Runs (work.force program) before next between)
      (later : Feeds program goal next between count parts standing) :
      Feeds program goal (.suspended work) before (count + 1) parts standing
  | halt {work : Work} {before after : Session} {halt : Halt}
      (forces : (work.force program).run.run before = (.error halt, after)) :
      Feeds program goal (.suspended work) before 1 [] (.halt halt)

variable {parts : List (Context × List Context)}

theorem bind_ready_eq (ctx : Context) (rest : Stream) (goal : Goal) :
    (ready ctx rest).bind goal = goal.apply ctx >>= (·.andThen (.bind rest goal)) := by
  rw [Stream.bind, bindBy]
  congr 1
  funext answers
  cases answers <;> rfl

/-- Whatever is shown of feeding a stream into a goal is shown of the parts, in order, with no more
suspensions forced. -/
theorem exists_feeds (shows : (s.bind goal).Shows program before count shown standing) :
    ∃ forced ≤ count, ∃ parts, s.Feeds program goal before forced parts standing ∧
      shown = parts.flatMap (·.2) := by
  -- The outer induction is on suspensions, the inner one on the contexts that are ready.
  induction count using Nat.strong_induction_on generalizing s before shown with
  | _ count fewer =>
    induction s using Stream.heads.induct generalizing before count shown with
    | case1 ctx rest ih =>
        rw [bind_ready_eq] at shows
        rcases shows.of_bind with ⟨rfl, rfl, rfl⟩ | ⟨answers, between, ran, shows⟩ |
          ⟨halt, after, halts, rfl, rfl, rfl⟩
        · exact ⟨0, le_rfl, [], .unfinished _ before, rfl⟩
        · rcases parts_of_andThen shows with ⟨cuts, part⟩ |
            ⟨first, second, start, others, last, few, rfl, part, shows⟩
          · exact ⟨count, le_rfl, [(ctx, shown)], .cut rest cuts (.ran ran part), by simp⟩
          · obtain ⟨forced, within, parts, feeds, rfl⟩ :=
              ih second (fun less smaller => fewer less (by omega)) shows
            exact ⟨first + forced, by omega, (ctx, start) :: parts, .whole (.ran ran part) feeds,
              rfl⟩
        · exact ⟨0, le_rfl, [(ctx, [])], .cut rest (Standing.cuts_halt halt) (.halt halts), rfl⟩
    | case2 s notReady =>
        cases s with
        | ready ctx rest => exact absurd rfl (notReady ctx rest)
        | empty =>
            cases shows.of_pure with
            | unfinished => exact ⟨0, le_rfl, [], .unfinished _ before, rfl⟩
            | done => exact ⟨0, le_rfl, [], .done before, rfl⟩
        | aborted reason =>
            cases shows.of_pure with
            | unfinished => exact ⟨0, le_rfl, [], .unfinished _ before, rfl⟩
            | fault => exact ⟨0, le_rfl, [], .fault reason before, rfl⟩
        | suspended work =>
            cases shows.of_pure with
            | unfinished => exact ⟨0, le_rfl, [], .unfinished _ before, rfl⟩
            | @forced _ _ count _ _ shows =>
                rcases shows.of_bind with ⟨rfl, rfl, rfl⟩ | ⟨next, between, ran, shows⟩ |
                  ⟨halt, after, halts, rfl, rfl, rfl⟩
                · exact ⟨0, Nat.zero_le _, [], .unfinished _ before, rfl⟩
                · obtain ⟨forced, within, parts, feeds, rfl⟩ :=
                    fewer count (Nat.lt_succ_self count) shows
                  exact ⟨forced + 1, by omega, parts, .forced ran feeds, rfl⟩
                · exact ⟨1, le_rfl, [], .halt halts, rfl⟩

/-- What the parts show one after the other is shown of feeding the stream into the goal, with at
most one more suspension forced for each of them. -/
theorem Feeds.shows (feeds : s.Feeds program goal before count parts standing) :
    ∃ total ≤ count + parts.length,
      (s.bind goal).Shows program before total (parts.flatMap (·.2)) standing := by
  induction feeds with
  | unfinished s before => exact ⟨0, Nat.zero_le _, .unfinished _ before⟩
  | done before => exact ⟨0, Nat.zero_le _, .pure (.done before)⟩
  | fault reason before => exact ⟨0, Nat.zero_le _, .pure (.fault reason before)⟩
  | forced forces _ ih =>
      obtain ⟨total, few, shows⟩ := ih
      exact ⟨total + 1, by omega, .pure (.forced (.bind forces shows))⟩
  | halt forces => exact ⟨1, by simp, .pure (.forced (.halt_bind forces))⟩
  | @cut ctx before count shown standing rest cuts part =>
      refine ⟨count, Nat.le_add_right .., ?_⟩
      rw [bind_ready_eq, List.flatMap_singleton]
      exact bind_andThen part cuts
  | @whole ctx rest before between count more shown parts standing part later ih =>
      obtain ⟨total, few, shows⟩ := ih
      cases part with
      | ran ran part =>
          have resumes : (Continuation.bind rest goal).resume.Shows program between total
              (parts.flatMap (·.2)) standing := shows
          obtain ⟨all, within, follows⟩ := part.andThen_done resumes
          rw [bind_ready_eq, List.flatMap_cons, List.length_cons]
          exact ⟨all, by omega, .bind ran follows⟩

/-- The contexts that are fed are those of the stream itself, and the end is its own unless that
of the last part comes before. -/
theorem Feeds.leads (feeds : s.Feeds program goal before count parts standing) :
    ∃ turns last, s.Leads program turns (parts.map (·.1)) last ∧
      ((∃ reached own, turns.length + own ≤ count ∧ last.Shows program reached own [] standing) ∨
        standing.Cuts ∧ ∃ done ctx shown reached own, parts = done ++ [(ctx, shown)] ∧
          (goal.apply ctx).Shows program reached own shown standing) := by
  induction feeds with
  | unfinished s before => exact ⟨[], s, .here s, .inl ⟨before, 0, le_rfl, .unfinished s before⟩⟩
  | done before => exact ⟨[], _, .here _, .inl ⟨before, 0, le_rfl, .done before⟩⟩
  | fault reason before => exact ⟨[], _, .here _, .inl ⟨before, 0, le_rfl, .fault reason before⟩⟩
  | @halt work before after reason forces =>
      exact ⟨[], _, .here _, .inl ⟨before, 1, le_rfl, .forced (.halt forces)⟩⟩
  | @cut ctx before count shown standing rest cuts part =>
      exact ⟨[], rest, .hand ctx (.here rest),
        .inr ⟨cuts, [], ctx, shown, before, count, rfl, part⟩⟩
  | @whole ctx rest before between count more shown parts standing part later ih =>
      obtain ⟨turns, last, leads, ends⟩ := ih
      refine ⟨turns, last, .hand ctx leads, ?_⟩
      rcases ends with ⟨reached, own, few, ends⟩ |
        ⟨cuts, done, other, answers, reached, own, rfl, ends⟩
      · exact .inl ⟨reached, own, by omega, ends⟩
      · exact .inr ⟨cuts, (ctx, shown) :: done, other, answers, reached, own, rfl, ends⟩
  | @forced work next before between count parts standing forces later ih =>
      obtain ⟨turns, last, leads, ends⟩ := ih
      refine ⟨(before, between) :: turns, last, .forced forces leads, ends.imp_left ?_⟩
      rintro ⟨reached, own, few, ends⟩
      exact ⟨reached, own, by rw [List.length_cons]; omega, ends⟩

/-- Feeding a stream into a goal is an ordered and lazy concatenation.  What is shown of it is what
is shown of the parts, in the order of the stream, up to the first that does not come to its end;
all that the parts show is reached, with one more suspension for each of them at most; and the
contexts that are fed and the end behind them are those of the stream itself. -/
theorem bind_concatenates (program : Program) (s : Stream) (goal : Goal) (before : Session)
    (standing : Standing) :
    (∀ count shown, (s.bind goal).Shows program before count shown standing →
      ∃ forced ≤ count, ∃ parts, s.Feeds program goal before forced parts standing ∧
        shown = parts.flatMap (·.2)) ∧
    (∀ forced parts, s.Feeds program goal before forced parts standing →
      ∃ count ≤ forced + parts.length,
        (s.bind goal).Shows program before count (parts.flatMap (·.2)) standing) ∧
    ∀ forced parts, s.Feeds program goal before forced parts standing →
      ∃ turns last, s.Leads program turns (parts.map (·.1)) last ∧
        ((∃ reached own, turns.length + own ≤ forced ∧ last.Shows program reached own [] standing) ∨
          standing.Cuts ∧ ∃ done ctx shown reached own, parts = done ++ [(ctx, shown)] ∧
            (goal.apply ctx).Shows program reached own shown standing) := by
  refine ⟨?_, ?_, ?_⟩
  · intro count shown shows
    exact exists_feeds shows
  · intro forced parts feeds
    exact feeds.shows
  · intro forced parts feeds
    exact feeds.leads

/-- Behind the answer for its one context, the fault of a suspended stream is still shown. -/
theorem bind_concatenates_fault :
    let reason : Fault := .rowLength "r" 0 1 2
    let s : Stream := .ready .empty (.suspended (.build (.abort reason)))
    ∃ count ≤ 2, (s.bind .succeed).Shows ⟨[], 1⟩ (.start 0 0) count [.empty] (.fault reason) ∧
      ∃ forced ≤ count, ∃ parts,
        s.Feeds ⟨[], 1⟩ .succeed (.start 0 0) forced parts (.fault reason) ∧
          [Context.empty] = parts.flatMap (·.2) := by
  intro reason s
  have fed : s.Feeds ⟨[], 1⟩ .succeed (.start 0 0) 1 [(.empty, [.empty])] (.fault reason) := by
    have part : (Goal.succeed.apply .empty).Shows ⟨[], 1⟩ (.start 0 0) 0 [.empty]
        (.done (.start 0 0)) := .ran (s := .unit .empty) rfl (.hand .empty (.done _))
    have forces : Runs ((Work.build (.abort reason)).force ⟨[], 1⟩) (.start 0 0)
        (.aborted reason) (.start 0 0) := rfl
    exact .whole part (.forced forces (.fault reason _))
  have concatenates := bind_concatenates ⟨[], 1⟩ s .succeed (.start 0 0) (.fault reason)
  obtain ⟨count, few, shows⟩ := concatenates.2.1 1 _ fed
  exact ⟨count, few, shows, concatenates.1 count _ shows⟩

end Stream

end RelationalSolver
