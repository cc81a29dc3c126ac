import RelationalSolver.Proofs.Hook.Delivery
import RelationalSolver.Proofs.Relation.Scan

/-!
# Events of rows

A scan reports what becomes of every row.  The report goes to the subscribers of the event
and of everything above it, provided that something is subscribed to rows in general or
above; a scan that finds no such subscription when it begins reports nothing.
-/

namespace RelationalSolver

open Engine

namespace Registry

variable {r : Registry} {key segment : EventKey} {o : Observer}

/-- Somebody is subscribed to exactly this key. -/
def Subscribed (r : Registry) (key : EventKey) : Prop := (r.observers.lookup key).isSome = true

/-- An event goes to the subscribers of its key and of every key above it. -/
theorem mem_receivers :
    o ∈ r.receivers key ↔ ∃ segment, segment <+: key ∧ o ∈ r.observersOf segment := by
  simp only [receivers, List.mem_flatMap, mem_segments]

theorem isObserved_iff :
    r.isObserved key = true ↔ ∃ segment, segment <+: key ∧ r.Subscribed segment := by
  simp only [isObserved, List.any_eq_true, mem_segments, Subscribed]

/-- Who is told about rows. -/
def rowAudience (r : Registry) (key : EventKey) : List Observer :=
  if r.isObserved .rows then r.receivers key else []

theorem mem_rowAudience :
    o ∈ r.rowAudience key ↔ (∃ segment, segment <+: EventKey.rows ∧ r.Subscribed segment) ∧
      ∃ segment, segment <+: key ∧ o ∈ r.observersOf segment := by
  rw [rowAudience, ← isObserved_iff, ← mem_receivers]
  split
  · rename_i observed
    simp [observed]
  · rename_i unobserved
    simp [unobserved]

end Registry

variable {program : Program} {ctx : Context} {registry : Registry} {before after : Session}
variable {audience : EventKey → List Observer}

namespace RowScan

variable {scan : RowScan}

/-- The session after a row was tried: a notice is written, and then the audience of the
event receives it. -/
def deliver (audience : EventKey → List Observer) (scan : RowScan) (s : Session) :
    Option Context → Session
  | some next =>
      (audience .rowSucceeded).foldl
        (·.receive .rowSucceeded (.row scan.relation scan.index scan.total) next.bindingsMade ·)
        (s.write (.rowSucceeded scan.relation scan.index))
  | none =>
      (audience .rowFailed).foldl
        (·.receive .rowFailed (.row scan.relation scan.index scan.total)
          scan.context.bindingsMade ·)
        (s.write (.rowFailed scan.relation scan.index))

/-- Rows of the right length are tried one after the other, and the audience is told about
each of them. -/
inductive Tries (audience : EventKey → List Observer) :
    RowScan → Session → RowScan → Session → Prop
  | stop (scan : RowScan) (s : Session) : Tries audience scan s scan s
  | row {scan last : RowScan} {s tried after : Session} {row : Row} {supply : RowSupply}
      {result : Option Context} (more : scan.rows.next = some (row, supply))
      (fits : row.length = scan.args.length)
      (attempts : Runs (scan.context.unifyAll scan.args row) s result tried)
      (rest : Tries audience { scan with rows := supply, index := scan.index + 1 }
        (scan.deliver audience tried result) last after) :
      Tries audience scan s last after

theorem Tries.trans {mid last : RowScan} {between : Session}
    (first : Tries audience scan before mid between)
    (second : Tries audience mid between last after) : Tries audience scan before last after := by
  induction first with
  | stop => exact second
  | row more fits attempts _ ih => exact .row more fits attempts (ih second)

/-- A facet collides when the next row is tried. -/
def Collides (scan : RowScan) (before after : Session) : Prop :=
  ∃ row supply c, scan.rows.next = some (row, supply) ∧
    Runs (attempt (scan.context.unifyAll scan.args row)) before (.error c) after

/-- The scan belongs to a branch with the hooks, and broadcasts if rows are observed. -/
structure Informs (scan : RowScan) (registry : Registry) : Prop where
  hooked : scan.context.hooks? = some registry
  broadcast : scan.broadcast = registry.isObserved .rows

theorem runs_report (informs : scan.Informs registry) (hooked : ctx.hooks? = some registry)
    {key : EventKey} {notice : Notice} (ran : Runs (scan.report ctx key notice) before () after) :
    after = (registry.rowAudience key).foldl
      (·.receive key (.row scan.relation scan.index scan.total) ctx.bindingsMade ·)
      (before.write notice) := by
  obtain ⟨_, written, notified, told⟩ := runs_bind.mp ran
  cases notified
  rw [informs.broadcast] at told
  rw [Registry.rowAudience]
  split at told
  · rename_i observed
    rw [Context.fire, hooked] at told
    rw [if_pos observed]
    cases told
    rfl
  · rename_i unobserved
    rw [if_neg unobserved]
    exact ((runs_pure.mp told).2).symm

/-- What trying rows ends with: there are no more, one has unified, or something went
wrong. -/
def Reaches (registry : Registry) (last : RowScan) (reached after : Session) : Stream → Prop
  | .empty => reached = after ∧ last.rows.next = none
  | .ready _ rest => reached = after ∧ last.Informs registry ∧ rest = .suspended (.scan last)
  | .aborted _ => reached = after ∨ last.Collides reached after
  | .suspended _ => False

/-- Trying rows tells the audience about every row that was tried. -/
theorem tryRows_tries (limit : Nat) (scan : RowScan) (informs : scan.Informs registry)
    {before after : Session} {s : Stream} (ran : Runs (scan.tryRows limit) before s after) :
    ∃ last reached, scan.Tries registry.rowAudience before last reached ∧
      last.Reaches registry reached after s := by
  fun_induction tryRows limit scan generalizing before with
  | case1 _ scan ended =>
      obtain ⟨rfl, rfl⟩ := runs_pure.mp ran
      exact ⟨scan, before, .stop scan before, rfl, ended⟩
  | case2 => exact absurd ran not_runs_throw
  | case3 scan =>
      obtain ⟨rfl, rfl⟩ := runs_pure.mp ran
      exact ⟨scan, before, .stop scan before, .inl rfl⟩
  | case4 scan row supply limit more later fits ih =>
      replace fits := not_not.mp fits
      obtain ⟨attempted, tried, attempts, rest⟩ := runs_bind.mp ran
      rcases attempted with c | _ | next
      · obtain ⟨rfl, rfl⟩ := runs_pure.mp rest
        exact ⟨scan, before, .stop scan before, .inr ⟨row, supply, c, more, attempts⟩⟩
      · obtain ⟨_, told, reports, goesOn⟩ := runs_bind.mp rest
        have same := runs_report informs informs.hooked reports
        obtain ⟨last, reached, tries, ends⟩ := ih ⟨informs.hooked, informs.broadcast⟩ goesOn
        rw [same] at tries
        exact ⟨last, reached, .row more fits (runs_attempt_ok.mp attempts) tries, ends⟩
      · obtain ⟨_, told, reports, goesOn⟩ := runs_bind.mp rest
        obtain ⟨rfl, rfl⟩ := runs_pure.mp goesOn
        rw [runs_attempt_ok] at attempts
        have fixed := (Context.unifyAll_keeps _ _ _).of_returns attempts.returns next rfl
        have hooked := (fixed .hooks trivial).trans informs.hooked
        refine ⟨later, told, .row more fits attempts ?_, rfl,
          ⟨informs.hooked, informs.broadcast⟩, rfl⟩
        rw [runs_report informs hooked reports]
        exact .stop later _

theorem run_tries (informs : scan.Informs registry) {patience : Nat} {s : Stream}
    (ran : Runs (scan.run patience) before s after) :
    ∃ last reached, scan.Tries registry.rowAudience before last reached ∧
      last.Reaches registry reached after s := by
  rw [run] at ran
  split at ran
  · exact tryRows_tries _ scan informs ran
  · exact tryRows_tries _ scan informs ran

/-- The audience is told about every row that the moves of a scan try.  If they come to
their end, no row is left, and if they end with a collision, the row that collided is
the last. -/
def Tells (registry : Registry) (scan : RowScan) (before after : Session) (moves : List Move) :
    Prop :=
  ∃ last reached, scan.Tries registry.rowAudience before last reached ∧
    (reached = after ∨ last.Collides reached after) ∧ (Exhausted moves → last.rows.next = none)

theorem Reaches.moves_tells {last : RowScan} {reached between : Session} {s : Stream}
    (reaches : last.Reaches registry reached between s) {count : Nat} {moves : List Move}
    (ran : Runs (s.moves program count) between moves after)
    (goesOn : ∀ fewer < count, ∀ later, last.Informs registry →
      Runs ((Stream.suspended (.scan last)).moves program fewer) reached later after →
      last.Tells registry reached after later) : last.Tells registry reached after moves := by
  cases s with
  | suspended work => exact reaches.elim
  | empty =>
      obtain ⟨rfl, ended⟩ := reaches
      cases count with
      | zero =>
          obtain ⟨rfl, rfl⟩ := runs_pure.mp ran
          exact ⟨last, reached, .stop last reached, .inl rfl, nofun⟩
      | succ count =>
          obtain ⟨rfl, rfl⟩ := runs_pure.mp ran
          exact ⟨last, reached, .stop last reached, .inl rfl, fun _ => ended⟩
  | aborted fault =>
      cases count with
      | zero =>
          obtain ⟨rfl, rfl⟩ := runs_pure.mp ran
          exact ⟨last, reached, .stop last reached, reaches, nofun⟩
      | succ count =>
          obtain ⟨rfl, rfl⟩ := runs_pure.mp ran
          exact ⟨last, reached, .stop last reached, reaches, nofun⟩
  | ready ctx rest =>
      obtain ⟨rfl, informs, rfl⟩ := reaches
      cases count with
      | zero =>
          obtain ⟨rfl, rfl⟩ := runs_pure.mp ran
          exact ⟨last, reached, .stop last reached, .inl rfl, nofun⟩
      | succ count =>
          obtain ⟨later, ranLater, rfl⟩ := runs_map.mp ran
          have ended : Exhausted (.yield ctx (.suspended (.scan last)) :: later) ↔
              Exhausted later := exhausted_cons (by simp)
          rw [Tells, ended]
          exact goesOn count (Nat.lt_succ_self count) later informs ranLater

theorem moves_tells (informs : scan.Informs registry) {count : Nat} {moves : List Move}
    (ran : Runs ((Stream.suspended (.scan scan)).moves program count) before moves after) :
    scan.Tells registry before after moves := by
  induction count using Nat.strong_induction_on generalizing scan before moves with
  | _ count ih =>
      cases count with
      | zero =>
          obtain ⟨rfl, rfl⟩ := runs_pure.mp ran
          exact ⟨scan, before, .stop scan before, .inl rfl, nofun⟩
      | succ count =>
          obtain ⟨move, forced, moved, ends⟩ := runs_bind.mp ran
          obtain ⟨s, forces, rfl⟩ := runs_map.mp moved
          obtain ⟨later, goesOn, rfl⟩ := runs_map.mp ends
          obtain ⟨mid, reached, tries, reaches⟩ := run_tries informs forces
          obtain ⟨last, finish, more, ending, exhausted⟩ := reaches.moves_tells goesOn
            fun fewer less _ informsLater => ih fewer (by omega) informsLater
          refine ⟨last, finish, tries.trans more, ending, ?_⟩
          rwa [exhausted_cons (by simp)]

theorem start_informs {a : Application} (hooked : ctx.hooks? = some registry)
    (opened : start a ctx = .ok scan) : scan.Informs registry := by
  obtain ⟨⟨rows, total⟩, _, found⟩ := except_bind_eq_ok.mp opened
  cases found
  exact ⟨hooked, by rw [hooked]; rfl⟩

end RowScan

/-- Every row that a relation goal tries is reported to its audience, whatever the hooks,
the relation and the context: to all subscribers of the event and of what is above it, if
something is subscribed to rows in general or above, and to nobody otherwise. -/
theorem Goal.search_tells_audience {a : Application} {scan : RowScan} {count : Nat}
    {moves : List Move} (hooked : ctx.hooks? = some registry)
    (opened : RowScan.start a ctx = .ok scan)
    (ran : Runs ((Goal.relation a).search program count ctx) before moves after) :
    scan.Tells registry before after moves ∧
      ∀ key o, o ∈ registry.rowAudience key ↔
        (∃ segment, segment <+: EventKey.rows ∧ registry.Subscribed segment) ∧
          ∃ segment, segment <+: key ∧ o ∈ registry.observersOf segment := by
  refine ⟨?_, fun key o => Registry.mem_rowAudience⟩
  obtain ⟨s, between, applies, moved⟩ := runs_bind.mp ran
  rw [apply_relation] at applies
  obtain ⟨rfl, rfl⟩ := runs_pure.mp applies
  cases count with
  | zero =>
      obtain ⟨rfl, rfl⟩ := runs_pure.mp moved
      exact ⟨scan, before, .stop scan before, .inl rfl, nofun⟩
  | succ count =>
      obtain ⟨move, forced, steps, ends⟩ := runs_bind.mp moved
      obtain ⟨next, forces, rfl⟩ := runs_map.mp steps
      obtain ⟨later, goesOn, rfl⟩ := runs_map.mp ends
      obtain ⟨started, opens, rfl⟩ := runs_map.mp forces
      obtain ⟨same, rfl⟩ := runs_ofBounded.mp opens
      rw [opened] at same
      cases same
      obtain ⟨last, reached, tries, ending, exhausted⟩ :=
        RowScan.moves_tells (RowScan.start_informs hooked opened) goesOn
      refine ⟨last, reached, tries, ending, ?_⟩
      rwa [exhausted_cons (by simp)]

/-- A context with hooks and nothing else. -/
def Context.ofHooks (registry : Registry) : Context := ⟨[⟨.hooks, registry⟩]⟩

/-- A relation with two rows, the second of which is one. -/
def Application.twoThenOne : Application :=
  ⟨⟨"r", .declared ⟨1, .listed [[.int 2], [.int 1]], .exact 2, []⟩⟩, [.int 1], .natural⟩

/-- A recorder of all row events receives one event for each of two rows. -/
theorem Goal.search_tells_recorder :
    ∃ (registry : Registry) (scan : RowScan) (moves : List Move) (after : Session),
      registry = Registry.empty.subscribe EventKey.rows (.recorder 0) ∧
      (Context.ofHooks registry).hooks? = some registry ∧
      RowScan.start .twoThenOne (.ofHooks registry) = .ok scan ∧
      Runs ((Goal.relation .twoThenOne).search ⟨[], 0⟩ 5 (.ofHooks registry)) (.start 0 0) moves
        after ∧
      Exhausted moves ∧ after.recorded.toList.map (·.key) = [.rowFailed, .rowSucceeded] ∧
      scan.Tells registry (.start 0 0) after moves := by
  obtain ⟨scan, moves, after, opened, ran, exhausted, recorded⟩ : ∃ scan moves after,
      RowScan.start .twoThenOne (.ofHooks (Registry.empty.subscribe EventKey.rows (.recorder 0))) =
        .ok scan ∧
      Runs ((Goal.relation .twoThenOne).search ⟨[], 0⟩ 5
        (.ofHooks (Registry.empty.subscribe EventKey.rows (.recorder 0)))) (.start 0 0) moves
        after ∧
      Exhausted moves ∧ after.recorded.toList.map (·.key) = [.rowFailed, .rowSucceeded] :=
    ⟨_, _, _, rfl, rfl, rfl, rfl⟩
  exact ⟨_, scan, moves, after, rfl, rfl, opened, ran, exhausted, recorded,
    (search_tells_audience rfl opened ran).1⟩

/-- A recorder of the rows that unify receives nothing of a row that does: it is subscribed
to the event, but nothing is subscribed to rows in general. -/
theorem Goal.search_untold :
    ∃ (registry : Registry) (moves : List Move) (after : Session),
      .recorder 0 ∈ registry.observersOf .rowSucceeded ∧
      Runs ((Goal.relation .twoThenOne).search ⟨[], 0⟩ 5 (.ofHooks registry)) (.start 0 0) moves
        after ∧
      Exhausted moves ∧ (moves.filterMap Move.context?).length = 1 ∧ after.recorded = #[] :=
  ⟨Registry.empty.subscribe EventKey.rowSucceeded (.recorder 0), _, _, by decide, rfl, rfl, rfl,
    rfl⟩

end RelationalSolver
