import RelationalSolver.Proofs.Context.Condensing
import RelationalSolver.Proofs.Relation.Scan
import RelationalSolver.Proofs.Stream.Turns

/-!
# Searches with and without condensing

Two streams match if they have the same shape and carry contexts that match in the same
places.  Goals give streams that match in contexts that match, and such streams make the same
moves: a suspension is forced in both, or a context is handed out by both, or both end.
-/

namespace RelationalSolver

open Engine

/-- The same rows, to be tried in another context. -/
def RowScan.moved (scan : RowScan) (ctx : Context) : RowScan := { scan with context := ctx }

mutual

/-- The streams have the same shape, and their contexts match. -/
inductive Stream.Matches : Stream → Stream → Prop
  | empty : Stream.Matches .empty .empty
  | ready {ctx other : Context} {rest restOther : Stream} : ctx.Matches other →
      Stream.Matches rest restOther → Stream.Matches (.ready ctx rest) (.ready other restOther)
  | suspended {work workOther : Work} : Work.Matches work workOther →
      Stream.Matches (.suspended work) (.suspended workOther)
  | aborted (fault : Fault) : Stream.Matches (.aborted fault) (.aborted fault)

/-- The same is left to do, in contexts that match. -/
inductive Work.Matches : Work → Work → Prop
  | run (goal : Goal) {ctx other : Context} : ctx.Matches other →
      Work.Matches (.run goal ctx) (.run goal other)
  | call (name : String) (args : List Term) {ctx other : Context} : ctx.Matches other →
      Work.Matches (.call name args ctx) (.call name args other)
  | openRows (application : Application) {ctx other : Context} : ctx.Matches other →
      Work.Matches (.openRows application ctx) (.openRows application other)
  | scan (scan : RowScan) {other : Context} : scan.context.Matches other →
      Work.Matches (.scan scan) (.scan (scan.moved other))
  | bind {work workOther : Work} (goal : Goal) : Work.Matches work workOther →
      Work.Matches (.bind work goal) (.bind workOther goal)
  | append {work workOther : Work} {next nextOther : Continuation} :
      Work.Matches work workOther → Continuation.Matches next nextOther →
      Work.Matches (.append work next) (.append workOther nextOther)
  | resume {next nextOther : Continuation} : Continuation.Matches next nextOther →
      Work.Matches (.resume next) (.resume nextOther)
  | turn {first firstOther : Work} {others othersOther : List Work} :
      Work.Matches first firstOther → List.Forall₂ Work.Matches others othersOther →
      Work.Matches (.turn first others) (.turn firstOther othersOther)

/-- The same goes on, with contexts that match. -/
inductive Continuation.Matches : Continuation → Continuation → Prop
  | stream {s t : Stream} : Stream.Matches s t → Continuation.Matches (.stream s) (.stream t)
  | bind {s t : Stream} (goal : Goal) : Stream.Matches s t →
      Continuation.Matches (.bind s goal) (.bind t goal)

end

variable {program : Program} {ctx other : Context} {s t : Stream} {last lastOther : Continuation}
variable {works worksOther passed passedOther : List Work}
variable {queue queueOther behind behindOther : List Stream}

namespace Stream

/-! ## Combining streams -/

theorem Matches.unit (alike : ctx.Matches other) : (unit ctx).Matches (unit other) :=
  .ready alike .empty

theorem Matches.followBy (after : last.Matches lastOther) : ∀ {s t : Stream}, s.Matches t →
    (s.followBy last).Matches (t.followBy lastOther)
  | _, _, .empty => .suspended (.resume after)
  | _, _, .ready alike rest => .ready alike (followBy after rest)
  | _, _, .suspended work => .suspended (.append work after)
  | _, _, .aborted fault => .aborted fault

theorem matches_ofWorks (alike : List.Forall₂ Work.Matches works worksOther) :
    (ofWorks works).Matches (ofWorks worksOther) := by
  cases alike with
  | nil => exact .empty
  | cons first others =>
      cases others with
      | nil => exact .suspended first
      | cons second others => exact .suspended (.turn first (.cons second others))

theorem matches_passedBehind (before : List.Forall₂ Work.Matches passed passedOther)
    (after : List.Forall₂ Matches behind behindOther) :
    List.Forall₂ Matches (passedBehind passed behind) (passedBehind passedOther behindOther) := by
  induction before with
  | nil => exact after
  | cons work _ ih => exact .cons (.suspended work) ih

/-- Queues of streams that match take the same turns. -/
theorem matches_rotate (before : List.Forall₂ Work.Matches passed passedOther)
    (now : List.Forall₂ Matches queue queueOther)
    (after : List.Forall₂ Matches behind behindOther) :
    (rotate passed queue behind).Matches (rotate passedOther queueOther behindOther) := by
  fun_induction rotate passed queue behind generalizing passedOther queueOther behindOther with
  | case1 passed =>
      cases now
      cases after
      rw [rotate]
      exact matches_ofWorks (List.rel_reverse before)
  | case2 passed s behind ih =>
      cases now
      cases after with
      | cons here rest =>
          rw [rotate]
          exact ih before (List.rel_reverse (.cons here rest)) .nil
  | case3 passed behind work queue ih =>
      cases now with
      | cons here rest =>
          cases here with
          | suspended alike =>
              rw [rotate]
              exact ih (.cons alike before) rest after
  | case4 passed behind queue ih =>
      cases now with
      | cons here rest =>
          cases here
          rw [rotate]
          exact ih .nil rest (matches_passedBehind before after)
  | case5 passed behind ctx rest queue ih =>
      cases now with
      | cons here others =>
          cases here with
          | ready alike later =>
              rw [rotate]
              exact .ready alike (ih .nil others (.cons later (matches_passedBehind before after)))
  | case6 =>
      cases now with
      | cons here rest =>
          cases here
          rw [rotate]
          exact .aborted _

theorem matches_interleave (alike : List.Forall₂ Matches queue queueOther) :
    (interleave queue).Matches (interleave queueOther) := matches_rotate .nil alike .nil

theorem Matches.bindBy {run runOther : Context → Engine Stream} (goal : Goal)
    (runs : ∀ ctx other, ctx.Matches other → Agrees Matches (run ctx) (runOther other)) :
    ∀ {s t : Stream}, s.Matches t → Agrees Matches (s.bindBy run goal) (t.bindBy runOther goal)
  | _, _, .empty => .pure .empty
  | _, _, .aborted fault => .pure (.aborted fault)
  | _, _, .suspended work => .pure (.suspended (.bind goal work))
  | _, _, .ready alike rest => by
      apply (runs _ _ alike).bind
      intro answers answersOther holds
      have after : (Continuation.bind _ goal).Matches (.bind _ goal) := .bind goal rest
      cases holds with
      | empty => exact bindBy goal runs rest
      | ready alike more => exact .pure ((Matches.ready alike more).followBy after)
      | suspended work => exact .pure ((Matches.suspended work).followBy after)
      | aborted fault => exact .pure (.aborted fault)

end Stream

/-! ## Goals -/

namespace Goal

theorem planned_agrees (alike : ctx.Matches other) (goals : List Goal) :
    Agrees Eq (planned ctx goals) (planned other goals) := by
  unfold planned
  rw [alike.planner]
  dsimp only
  split
  · exact .pure rfl
  · have same : Pipeline.plan other.planningState (ctx.get .planner) goals =
        Pipeline.plan ctx.planningState (ctx.get .planner) goals := by
      unfold Context.planningState
      rw [alike.bindingsMade]
      exact alike.twins.plan _ _ _
    rw [same]
    apply (Agrees.ofBounded_self _).bind
    rintro ⟨final, notices⟩ _ rfl
    exact (Agrees.notifyAll notices).bind fun _ _ _ => .pure rfl

/-- Applied in contexts that match, a goal gives streams that match. -/
theorem applyWithin_agrees (depth : Nat) (g : Goal) (alike : ctx.Matches other) :
    Agrees Stream.Matches (g.applyWithin depth ctx) (g.applyWithin depth other) := by
  induction depth generalizing g ctx other with
  | zero => exact .throw _
  | succ depth ih =>
      cases g with
      | succeed => exact .pure (.unit alike)
      | fail => exact .pure .empty
      | equal a b =>
          apply (alike.unify a b).attempt.bind
          intro tried triedOther holds
          cases holds with
          | failed c => exact .pure (.aborted _)
          | result holds =>
              cases holds with
              | none => exact .pure .empty
              | some next => exact .pure (.unit next)
      | constrain c =>
          apply (alike.constrain c).bind
          intro result resultOther holds
          cases holds with
          | none => exact .pure .empty
          | some next => exact .pure (.unit next)
      | conj goals constraints =>
          apply (alike.constrainAll constraints).bind
          intro result resultOther holds
          cases holds with
          | none => exact .pure .empty
          | some next =>
              apply (planned_agrees next goals).bind
              rintro plan _ rfl
              apply (Agrees.notify _).bind
              intro _ _ _
              apply agreeing.foldlM (.unit next)
              exact fun g _ s t matched => matched.bindBy g fun _ _ => ih g
      | disj goals constraints =>
          apply (alike.constrainAll constraints).bind
          intro result resultOther holds
          cases holds with
          | none => exact .pure .empty
          | some next =>
              apply Agrees.map (agreeing.mapM fun g _ => ih g next)
              exact fun _ _ => Stream.matches_interleave
      | fresh names body =>
          apply (Agrees.freshVars _).bind
          rintro vars _ rfl
          exact (alike.fire _ _).bind fun _ _ _ => .pure (.suspended (.run _ alike))
      | delay body => exact .pure (.suspended (.run body alike))
      | call name args => exact .pure (.suspended (.call name args alike))
      | relation a => exact .pure (.suspended (.openRows a alike))
      | abort fault => exact .pure (.aborted fault)
      | yieldThenAbort fault => exact .pure (.ready alike (.aborted fault))

theorem apply_agrees (g : Goal) (alike : ctx.Matches other) :
    Agrees Stream.Matches (g.apply ctx) (g.apply other) := applyWithin_agrees _ g alike

theorem runBody_agrees (body : Goal) (alike : ctx.Matches other) :
    Agrees Stream.Matches (body.runBody ctx) (body.runBody other) := by
  unfold runBody
  split
  · exact body.apply_agrees alike
  · exact .throw _

end Goal

/-! ## Rows -/

namespace RowScan

theorem isObserved_eq (ctx : Context) (key : EventKey) :
    (ctx.hooks?.map (·.isObserved key)).getD false =
      (Registry.mk ctx.observers [] []).isObserved key := by
  unfold Context.observers
  cases ctx.hooks? with
  | none => simp [Registry.isObserved]
  | some registry => rfl

/-- A relation is asked for the same rows. -/
theorem start_alike (a : Application) (alike : ctx.Matches other) :
    Coupling.alike.Related (fun scan scanOther =>
        scan.context.Matches other ∧ scanOther = scan.moved other)
      (start a ctx) (start a other) := by
  unfold start
  rw [isObserved_eq, isObserved_eq, alike.observers, alike.twins.rowsOf]
  cases rowsOf a ctx.substitution with
  | ok found => exact .inl ⟨_, _, ⟨alike, rfl⟩, rfl, rfl⟩
  | error e => exact .inr ⟨rfl, rfl⟩

theorem report_agrees (scan : RowScan) (key : EventKey) (notice : Notice) {next nextOther : Context}
    (alike : next.Matches nextOther) :
    Agrees Eq (scan.report next key notice)
      ((scan.moved other).report nextOther key notice) := by
  apply (Agrees.notify notice).bind
  intro _ _ _
  unfold moved
  dsimp only
  split
  · exact alike.fire _ _
  · exact .pure rfl

theorem tryRows_agrees (limit : Nat) (scan : RowScan) (alike : scan.context.Matches other) :
    Agrees Stream.Matches (scan.tryRows limit) ((scan.moved other).tryRows limit) := by
  cases more : scan.rows.next with
  | none =>
      have moreOther : (scan.moved other).rows.next = none := more
      rw [tryRows_of_ended more, tryRows_of_ended moreOther]
      exact .pure .empty
  | some entry =>
      obtain ⟨row, rows⟩ := entry
      have moreOther : (scan.moved other).rows.next = some (row, rows) := more
      cases limit with
      | zero =>
          rw [tryRows_zero more, tryRows_zero moreOther]
          exact .throw _
      | succ limit =>
          by_cases fits : row.length = scan.args.length
          · let later : RowScan := { scan with rows := rows, index := scan.index + 1 }
            rw [tryRows_of_fits more fits, tryRows_of_fits moreOther fits]
            apply (alike.unifyAll scan.args row).attempt.bind
            intro tried triedOther holds
            cases holds with
            | failed c => exact .pure (.aborted _)
            | result holds =>
                cases holds with
                | none =>
                    apply (scan.report_agrees _ _ alike).bind
                    exact fun _ _ _ => tryRows_agrees limit later alike
                | some next =>
                    apply (scan.report_agrees _ _ next).bind
                    exact fun _ _ _ => .pure (.ready next (.suspended (.scan later alike)))
          · rw [tryRows_of_unfit more fits, tryRows_of_unfit moreOther fits]
            exact .pure (.aborted _)

theorem run_agrees (patience : Nat) (scan : RowScan) (alike : scan.context.Matches other) :
    Agrees Stream.Matches (scan.run patience) ((scan.moved other).run patience) := by
  unfold run moved
  dsimp only
  split <;> exact tryRows_agrees _ scan alike

end RowScan

/-! ## Forcing -/

namespace Stream

theorem Matches.bind (alike : s.Matches t) (goal : Goal) :
    Agrees Matches (s.bind goal) (t.bind goal) :=
  alike.bindBy goal fun _ _ => goal.apply_agrees

end Stream

theorem Continuation.Matches.resume (alike : last.Matches lastOther) :
    Agrees Stream.Matches last.resume lastOther.resume := by
  cases alike with
  | stream alike => exact .pure alike
  | bind goal alike => exact alike.bind goal

theorem Stream.Matches.andThen (alike : s.Matches t) (after : last.Matches lastOther) :
    Agrees Stream.Matches (s.andThen last) (t.andThen lastOther) := by
  cases alike with
  | empty => exact after.resume
  | ready alike rest => exact .pure ((Matches.ready alike rest).followBy after)
  | suspended work => exact .pure ((Matches.suspended work).followBy after)
  | aborted fault => exact .pure (.aborted fault)

/-- Forcing work that matches gives streams that match. -/
theorem Work.Matches.force : ∀ {work workOther : Work}, work.Matches workOther →
    Agrees Stream.Matches (work.force program) (workOther.force program)
  | _, _, .run goal alike => goal.runBody_agrees alike
  | _, _, .call name args alike => by
      unfold Work.force
      split
      · exact Goal.runBody_agrees _ alike
      · exact .throw _
  | _, _, .openRows a alike => by
      apply (Agrees.ofBounded (RowScan.start_alike a alike)).map
      rintro scan _ ⟨matched, rfl⟩
      exact .suspended (.scan scan matched)
  | _, _, .scan rows alike => rows.run_agrees _ alike
  | _, _, .bind goal alike => alike.force.bind fun _ _ forced => forced.bind goal
  | _, _, .append alike after => alike.force.bind fun _ _ forced => forced.andThen after
  | _, _, .resume after => after.resume
  | _, _, .turn first others => by
      apply first.force.bind
      intro forced forcedOther alike
      exact .pure (Stream.matches_interleave
        (Stream.matches_passedBehind others (.cons alike .nil)))

/-! ## Moves -/

/-- Moves of the same kind, that hand out contexts that match. -/
inductive Move.Matches : Move → Move → Prop
  | yield {ctx other : Context} {s t : Stream} : ctx.Matches other → s.Matches t →
      Move.Matches (.yield ctx s) (.yield other t)
  | forced {s t : Stream} : s.Matches t → Move.Matches (.forced s) (.forced t)
  | done : Move.Matches .done .done
  | fault (fault : Fault) : Move.Matches (.fault fault) (.fault fault)

namespace Stream

/-- Streams that match make the same move. -/
theorem Matches.step (program : Program) (alike : s.Matches t) :
    Agrees Move.Matches (s.step program) (t.step program) := by
  cases alike with
  | empty => exact .pure .done
  | ready alike rest => exact .pure (.yield alike rest)
  | suspended work => exact work.force.map fun _ _ => .forced
  | aborted fault => exact .pure (.fault fault)

/-- Streams that match make the same moves, however many. -/
theorem Matches.moves (count : Nat) (alike : s.Matches t) :
    Agrees (List.Forall₂ Move.Matches) (s.moves program count) (t.moves program count) := by
  induction count generalizing s t with
  | zero => exact .pure .nil
  | succ count ih =>
      apply (alike.step program).bind
      intro move moveOther same
      cases same with
      | yield matched rest => exact (ih rest).map fun _ _ => .cons (.yield matched rest)
      | forced rest => exact (ih rest).map fun _ _ => .cons (.forced rest)
      | done => exact .pure (.cons .done .nil)
      | fault fault => exact .pure (.cons (.fault fault) .nil)

end Stream

end RelationalSolver
