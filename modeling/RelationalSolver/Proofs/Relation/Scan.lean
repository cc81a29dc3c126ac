import RelationalSolver.Proofs.Context.Ground
import RelationalSolver.Proofs.Relation.Table
import RelationalSolver.Proofs.Stream.Execution

/-!
# Scanning the rows of a relation

A relation hands out one context for every row that unifies with its arguments, in the
order of the rows.  A look-up in a table leaves out only rows that do not unify, so it
makes no difference to a scan of the whole table.
-/

namespace RelationalSolver

open Engine

variable {program : Program} {ctx next : Context} {args row : List Term} {rows : List Row}

namespace Stream

/-- The stream hands out these contexts in order and comes to its end, in every
session. -/
inductive Lists (program : Program) : Stream → List Context → Prop
  | empty : Lists program .empty []
  | ready {rest : Stream} {contexts : List Context} (ctx : Context)
      (lists : Lists program rest contexts) : Lists program (.ready ctx rest) (ctx :: contexts)
  | forced {work : Work} {next : Stream} {contexts : List Context}
      (forces : Always (work.force program) next) (lists : Lists program next contexts) :
      Lists program (.suspended work) contexts

/-- The moves of such a stream are the same in every session. -/
theorem Lists.moves {s : Stream} {contexts : List Context} (lists : s.Lists program contexts) :
    ∃ moves, Exhausted moves ∧ moves.filterMap Move.context? = contexts ∧
      ∀ count, moves.length ≤ count → Always (s.moves program count) moves := by
  induction lists with
  | empty =>
      refine ⟨[.done], rfl, rfl, ?_⟩
      intro count enough
      obtain ⟨count, rfl⟩ := Nat.exists_eq_succ_of_ne_zero (Nat.one_le_iff_ne_zero.mp enough)
      exact always_pure _
  | @ready rest contexts ctx lists ih =>
      obtain ⟨moves, exhausted, yields, always⟩ := ih
      refine ⟨.yield ctx rest :: moves, ?_, ?_, ?_⟩
      · exact (exhausted_cons (by simp)).mpr exhausted
      · rw [List.filterMap_cons, yields]
        rfl
      · intro count enough
        obtain ⟨count, rfl⟩ := Nat.exists_eq_succ_of_ne_zero (n := count) (by
          rw [List.length_cons] at enough
          omega)
        exact (always_pure _).bind ((always count (Nat.le_of_succ_le_succ enough)).map _)
  | @forced work next contexts forces lists ih =>
      obtain ⟨moves, exhausted, yields, always⟩ := ih
      refine ⟨.forced next :: moves, ?_, yields, ?_⟩
      · exact (exhausted_cons (by simp)).mpr exhausted
      intro count enough
      obtain ⟨count, rfl⟩ := Nat.exists_eq_succ_of_ne_zero (n := count) (by
        rw [List.length_cons] at enough
        omega)
      exact (forces.map _).bind ((always count (Nat.le_of_succ_le_succ enough)).map _)

end Stream

namespace RowScan

theorem always_report (scan : RowScan) (ctx : Context) (key : EventKey) (notice : Notice) :
    Always (scan.report ctx key notice) () := by
  apply (always_modify _).bind
  cases scan.broadcast with
  | true => exact ctx.always_fire key _
  | false => exact always_pure ()

theorem tryRows_of_ended {scan : RowScan} (ended : scan.rows.next = none) (limit : Nat) :
    scan.tryRows limit = pure .empty := by
  rw [tryRows.eq_def]
  simp only [ended]

theorem tryRows_zero {scan : RowScan} {entry : Row × RowSupply}
    (more : scan.rows.next = some entry) : scan.tryRows 0 = throw .unending := by
  rw [tryRows.eq_def]
  simp only [more]

theorem tryRows_of_unfit {scan : RowScan} {supply : RowSupply}
    (more : scan.rows.next = some (row, supply)) (unfit : row.length ≠ scan.args.length)
    (limit : Nat) :
    scan.tryRows (limit + 1) =
      pure (.aborted (.rowLength scan.relation scan.index row.length scan.args.length)) := by
  rw [tryRows.eq_def]
  simp only [more, ne_eq, unfit, not_false_eq_true, if_true]

/-- What becomes of a row of the right length. -/
theorem tryRows_of_fits {scan : RowScan} {supply : RowSupply}
    (more : scan.rows.next = some (row, supply)) (fits : row.length = scan.args.length)
    (limit : Nat) :
    scan.tryRows (limit + 1) = (do
      let later := { scan with rows := supply, index := scan.index + 1 }
      match ← attempt (scan.context.unifyAll scan.args row) with
      | .error collision => pure (.aborted (.facetCollision collision))
      | .ok (some next) => do
          scan.report next .rowSucceeded (.rowSucceeded scan.relation scan.index)
          pure (.ready next (.suspended (.scan later)))
      | .ok none => do
          scan.report scan.context .rowFailed (.rowFailed scan.relation scan.index)
          later.tryRows limit) := by
  have unfolded := tryRows.eq_def (limit + 1) scan
  simp only [more, fits, ne_eq, not_true_eq_false, if_false] at unfolded
  exact unfolded

/-- Trying rows gives a stream of the contexts of those that unify. -/
theorem tryRows_lists {outcome : Row → Option Context} {limit : Nat} {scan : RowScan}
    (supply : scan.rows = .listed rows) (enough : rows.length ≤ limit)
    (fits : ∀ row ∈ rows, row.length = scan.args.length)
    (returns : ∀ row ∈ rows, Returns (scan.context.unifyAll scan.args row) (outcome row)) :
    ∃ s, Always (scan.tryRows limit) s ∧ s.Lists program (rows.filterMap outcome) := by
  induction rows generalizing limit scan with
  | nil =>
      refine ⟨.empty, ?_, .empty⟩
      rw [tryRows_of_ended (by rw [supply]; rfl)]
      exact always_pure _
  | cons row rows ih =>
      rw [List.forall_mem_cons] at fits returns
      obtain ⟨limit, rfl⟩ := Nat.exists_eq_succ_of_ne_zero (n := limit) (by
        rw [List.length_cons] at enough
        omega)
      let later : RowScan := { scan with rows := .listed rows, index := scan.index + 1 }
      have attempts : Always (attempt (scan.context.unifyAll scan.args row)) (.ok (outcome row)) :=
        ((Context.unifyAll_detached _ _ _).always returns.1).attempt
      have more : scan.rows.next = some (row, .listed rows) := by
        rw [supply]
        rfl
      rw [tryRows_of_fits more fits.1]
      cases found : outcome row with
      | none =>
          obtain ⟨s, tries, lists⟩ := @ih limit later rfl (Nat.le_of_succ_le_succ enough) fits.2
            returns.2
          rw [found] at attempts
          refine ⟨s, attempts.bind ((scan.always_report _ _ _).bind tries), ?_⟩
          rw [List.filterMap_cons, found]
          exact lists
      | some next =>
          obtain ⟨s, tries, lists⟩ := @ih rows.length later rfl (Nat.le_refl _) fits.2 returns.2
          rw [found] at attempts
          refine ⟨.ready next (.suspended (.scan later)), ?_, ?_⟩
          · exact attempts.bind ((scan.always_report _ _ _).bind (always_pure _))
          · rw [List.filterMap_cons, found]
            exact .ready next (.forced tries lists)

end RowScan

/-- A relation whose rows are listed, visited in natural order, hands out the contexts of
the rows that unify. -/
theorem Application.search_lists {a : Application} (natural : a.order = .natural)
    (supply : a.relation.source.rows (a.pattern ctx.substitution) = .listed rows)
    (fits : ∀ row ∈ rows, row.length = a.args.length) {outcome : Row → Option Context}
    (returns : ∀ row ∈ rows, Returns (ctx.unifyAll a.args row) (outcome row)) :
    (Stream.suspended (.openRows a ctx)).Lists program (rows.filterMap outcome) := by
  have opened : ∃ scan, RowScan.start a ctx = .ok scan ∧ scan.rows = .listed rows ∧
      scan.args = a.args ∧ scan.context = ctx := by
    simp only [RowScan.start, RowScan.rowsOf, natural, supply]
    exact ⟨_, rfl, rfl, rfl, rfl⟩
  obtain ⟨scan, opens, listed, sameArgs, rfl⟩ := opened
  have starts : Always ((Work.openRows a scan.context).force program)
      (.suspended (.scan scan)) := by
    rw [Work.force, opens]
    exact (always_pure scan).map _
  rw [← sameArgs] at fits returns
  obtain ⟨s, tries, lists⟩ := RowScan.tryRows_lists listed (Nat.le_refl _) fits returns
  have runs : Always ((Work.scan scan).force program) s := by
    rw [Work.force, RowScan.run, listed]
    exact tries
  exact .forced starts (.forced runs lists)

/-! ## Looking rows up -/

/-- A row that the arguments unify with has what the pattern asks for. -/
theorem Application.agrees_of_matchesGround {a : Application}
    (agree : ctx.MatchesGround a.args row) :
    (a.pattern ctx.substitution).agrees row = true := by
  rw [pattern]
  generalize a.args = args at agree
  induction agree with
  | nil => rfl
  | @cons arg value _ _ here _ ih =>
      rw [List.map_cons]
      by_cases ground : (ctx.resolve arg).isGround = true
      · change (ctx.substitution.resolve arg).isGround = true at ground
        have same : ctx.substitution.resolve arg = value := here ground
        rw [same] at ground
        simpa [same, ground, Pattern.agrees] using ih
      · change ¬ (ctx.substitution.resolve arg).isGround = true at ground
        simpa [ground, Pattern.agrees] using ih

/-- A row that has what the pattern asks for agrees with the ground arguments. -/
theorem Application.matchesGround_of_agrees {a : Application}
    (lengths : a.args.length = row.length)
    (agrees : (a.pattern ctx.substitution).agrees row = true) : ctx.MatchesGround a.args row := by
  rw [pattern] at agrees
  generalize a.args = args at lengths agrees
  induction args generalizing row with
  | nil =>
      cases row with
      | nil => exact .nil
      | cons value row => cases lengths
  | cons arg args ih =>
      cases row with
      | nil => cases lengths
      | cons value row =>
          rw [List.map_cons] at agrees
          have shorter : args.length = row.length := Nat.succ.inj lengths
          by_cases ground : (ctx.substitution.resolve arg).isGround = true
          · simp only [ground, if_true, Pattern.agrees, Bool.and_eq_true, decide_eq_true_eq]
              at agrees
            exact .cons (fun _ => agrees.1) (ih shorter agrees.2)
          · simp only [ground, Bool.false_eq_true, if_false, Pattern.agrees] at agrees
            exact .cons (fun isGround => absurd isGround ground) (ih shorter agrees)

/-- The rows that a look-up leaves out do not unify with the arguments. -/
theorem FactTable.filterMap_matching {facts : FactTable} (wellFormed : facts.WellFormed)
    {a : Application} (free : ctx.BindsFreely) {outcome : Row → Option Context}
    (returns : ∀ row ∈ facts.rows.toList, Returns (ctx.unifyAll a.args row) (outcome row)) :
    (facts.matching (a.pattern ctx.substitution)).filterMap outcome =
      facts.rows.toList.filterMap outcome := by
  rw [wellFormed.matching_eq, List.filterMap_filter]
  apply List.filterMap_congr
  intro row member
  cases found : outcome row with
  | none => exact ite_self none
  | some next =>
      have returned := found ▸ returns row member
      have agree := Context.matchesGround_of_unifyAll free (wellFormed.ground row member) returned
      rw [if_pos (Application.agrees_of_matchesGround agree)]

/-- Looking rows up hands out what a scan of the whole table hands out. -/
theorem Application.search_lists_table {a : Application} {facts : FactTable}
    (natural : a.order = .natural) (source : a.relation.source = .table facts)
    (wellFormed : facts.WellFormed) (full : a.args.length = facts.arity)
    (free : ctx.BindsFreely) {outcome : Row → Option Context}
    (returns : ∀ row ∈ facts.rows.toList, Returns (ctx.unifyAll a.args row) (outcome row)) :
    (Stream.suspended (.openRows a ctx)).Lists program
      (facts.rows.toList.filterMap outcome) := by
  have supply : a.relation.source.rows (a.pattern ctx.substitution) =
      .listed (facts.matching (a.pattern ctx.substitution)) := by
    rw [source, FactSource.rows_table]
  have inside : ∀ row ∈ facts.matching (a.pattern ctx.substitution),
      row ∈ facts.rows.toList := by
    intro row member
    rw [wellFormed.matching_eq] at member
    exact List.mem_of_mem_filter member
  have fits : ∀ row ∈ facts.matching (a.pattern ctx.substitution),
      row.length = a.args.length := by
    intro row member
    rw [wellFormed.lengths row (inside row member), full]
  rw [← FactTable.filterMap_matching wellFormed free returns]
  exact search_lists natural supply fits fun row member => returns row (inside row member)

theorem Goal.apply_relation (a : Application) (ctx : Context) :
    (Goal.relation a).apply ctx = pure (.suspended (.openRows a ctx)) := rfl

/-- A relation over a table agrees with the scan of all rows.  Its moves are the same in
every session: in the order of the table they hand out the context of every row that
unifies with the arguments, and then comes the end. -/
theorem Goal.search_table {arity : Nat} {facts : FactTable} {a : Application}
    (made : FactTable.ofRows arity rows = .ok facts) (source : a.relation.source = .table facts)
    (natural : a.order = .natural) (full : a.args.length = arity) (free : ctx.BindsFreely)
    (outcome : Row → Option Context)
    (returns : ∀ row ∈ rows, Returns (ctx.unifyAll a.args row) (outcome row))
    (program : Program) :
    ∃ moves, Exhausted moves ∧
      moves.filterMap Move.context? = rows.filterMap outcome ∧
      ∀ count, moves.length ≤ count →
        Always ((Goal.relation a).search program count ctx) moves := by
  have wellFormed := FactTable.wellFormed_of_ofRows made
  obtain ⟨rfl, rfl⟩ := FactTable.rows_of_ofRows made
  have lists : (Stream.suspended (.openRows a ctx)).Lists program _ :=
    Application.search_lists_table natural source wellFormed full free returns
  obtain ⟨moves, exhausted, yields, always⟩ := lists.moves
  refine ⟨moves, exhausted, yields, fun count enough => ?_⟩
  rw [search, apply_relation]
  exact (always_pure _).bind (always count enough)

/-- Two of three rows unify with a variable and a number. -/
theorem Goal.search_table_pairs :
    ∃ facts first second moves,
      FactTable.ofRows 2 [[.int 1, .int 2], [.int 1, .int 3], [.int 4, .int 2]] = .ok facts ∧
      (Context.empty.BindsFreely ∧ first.resolve (.var (.numbered 1)) = .int 1 ∧
        second.resolve (.var (.numbered 1)) = .int 4) ∧
      Exhausted moves ∧ moves.filterMap Move.context? = [first, second] ∧
      ∀ count, moves.length ≤ count → Always ((Goal.relation
        ⟨⟨"pairs", .table facts⟩, [.var (.numbered 1), .int 2], .natural⟩).search ⟨[], 0⟩ count
          .empty) moves := by
  obtain ⟨first, second, one, two, three, resolved⟩ : ∃ first second,
      Returns (Context.empty.unifyAll [.var (.numbered 1), .int 2] [.int 1, .int 2]) (some first) ∧
      Returns (Context.empty.unifyAll [.var (.numbered 1), .int 2] [.int 1, .int 3]) none ∧
      Returns (Context.empty.unifyAll [.var (.numbered 1), .int 2] [.int 4, .int 2])
        (some second) ∧
      first.resolve (.var (.numbered 1)) = .int 1 ∧
        second.resolve (.var (.numbered 1)) = .int 4 :=
    ⟨_, _, ⟨.start 0 0, _, rfl⟩, ⟨.start 0 0, _, rfl⟩, ⟨.start 0 0, _, rfl⟩, rfl, rfl⟩
  let outcome : Row → Option Context := fun row =>
    if row = [.int 1, .int 2] then some first
    else if row = [.int 4, .int 2] then some second else none
  have free : Context.empty.BindsFreely := nofun
  have returns : ∀ row ∈ [[.int 1, .int 2], [.int 1, .int 3], [.int 4, .int 2]],
      Returns (Context.empty.unifyAll [.var (.numbered 1), .int 2] row) (outcome row) := by
    simp only [List.forall_mem_cons]
    exact ⟨one, two, three, nofun⟩
  obtain ⟨facts, made⟩ : ∃ facts, FactTable.ofRows 2
      [[.int 1, .int 2], [.int 1, .int 3], [.int 4, .int 2]] = .ok facts := ⟨_, rfl⟩
  obtain ⟨moves, exhausted, yields, always⟩ := Goal.search_table
    (a := ⟨⟨"pairs", .table facts⟩, [.var (.numbered 1), .int 2], .natural⟩) made rfl rfl rfl free
    outcome returns ⟨[], 0⟩
  exact ⟨facts, first, second, moves, made, ⟨free, resolved⟩, exhausted, yields, always⟩

end RelationalSolver
