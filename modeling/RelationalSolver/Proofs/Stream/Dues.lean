import RelationalSolver.Proofs.Goal.Independence
import RelationalSolver.Proofs.Relation.Scan
import RelationalSolver.Proofs.Stream.Quota

/-!
# Searches come up to exact bounds

Every task of a search has a due, the number of answers that its goals have at least if they are
independent, and zero otherwise.  A task that does the first thing it has to do leads to tasks
whose dues add up to no less than its own, since every row that a look-up gives unifies and
leaves the goals that follow as they are.  A search that comes to its end pays its dues.
-/

namespace RelationalSolver

open Engine Substitution

variable {program : Program} {ctx next : Context} {g : Goal}
variable {goals : List Goal} {task : Task} {tasks expanded : List Task} {first : Nat}
variable {allotted : Allotments} {vs : List Var}

/-- The goal is independent, and no stored constraint waits for its unbound variables. -/
structure Goal.IndependentIn (ctx : Context) (g : Goal) : Prop where
  independent : g.Independent ctx.substitution
  unwatched : ∀ v ∈ g.openVars ctx.substitution, ctx.Unwatched v

namespace Goal

theorem mem_openVars_conj {s : Substitution} {v : Var} :
    v ∈ (Goal.conj goals []).openVars s ↔ ∃ g ∈ goals, v ∈ g.openVars s := by
  rw [openVars, openVarsAll_eq, List.mem_flatMap]

theorem independentIn_conj : (Goal.conj goals []).IndependentIn ctx ↔
    (∀ g ∈ goals, g.IndependentIn ctx) ∧ goals.Pairwise fun g h =>
      (g.openVars ctx.substitution).Disjoint (h.openVars ctx.substitution) := by
  constructor
  · rintro ⟨⟨_, each, apart⟩, unwatched⟩
    rw [allIndependent_iff] at each
    exact ⟨fun g member => ⟨each g member, fun v inside =>
      unwatched v (mem_openVars_conj.mpr ⟨g, member, inside⟩)⟩, apart⟩
  · rintro ⟨each, apart⟩
    refine ⟨⟨rfl, allIndependent_iff.mpr fun g member => (each g member).independent, apart⟩, ?_⟩
    intro v inside
    obtain ⟨g, member, found⟩ := mem_openVars_conj.mp inside
    exact (each g member).unwatched v found

namespace IndependentIn

theorem head (independent : (Goal.conj (g :: goals) []).IndependentIn ctx) :
    g.IndependentIn ctx := (independentIn_conj.mp independent).1 g List.mem_cons_self

theorem tail (independent : (Goal.conj (g :: goals) []).IndependentIn ctx) :
    (Goal.conj goals []).IndependentIn ctx := by
  rw [independentIn_conj, List.forall_mem_cons, List.pairwise_cons] at independent
  exact independentIn_conj.mpr ⟨independent.1.2, independent.2.2⟩

theorem disjoint (independent : (Goal.conj (g :: goals) []).IndependentIn ctx) :
    ((Goal.conj goals []).openVars ctx.substitution).Disjoint (g.openVars ctx.substitution) := by
  intro v member inside
  obtain ⟨h, among, found⟩ := mem_openVars_conj.mp member
  exact (List.pairwise_cons.mp (independentIn_conj.mp independent).2).1 h among inside found

/-- The goals of a conjunction are independent of those that follow it. -/
theorem append {parts : List Goal}
    (independent : (Goal.conj (.conj parts [] :: goals) []).IndependentIn ctx) :
    (Goal.conj (parts ++ goals) []).IndependentIn ctx := by
  have here := independentIn_conj.mp independent.head
  have later := independentIn_conj.mp independent.tail
  refine independentIn_conj.mpr ⟨List.forall_mem_append.mpr ⟨here.1, later.1⟩,
    List.pairwise_append.mpr ⟨here.2, later.2, fun g member h among v inside found => ?_⟩⟩
  exact independent.disjoint (mem_openVars_conj.mpr ⟨h, among, found⟩)
    (mem_openVars_conj.mpr ⟨g, member, inside⟩)

/-- So is every branch of a disjunction. -/
theorem branch {parts : List Goal}
    (independent : (Goal.conj (.disj parts [] :: goals) []).IndependentIn ctx)
    (member : g ∈ parts) : (Goal.conj (g :: goals) []).IndependentIn ctx := by
  have later := independentIn_conj.mp independent.tail
  have inside : ∀ v ∈ g.openVars ctx.substitution,
      v ∈ (Goal.disj parts []).openVars ctx.substitution := by
    intro v found
    rw [openVars, openVarsAll_eq, List.mem_flatMap]
    exact ⟨g, member, found⟩
  have here : g.IndependentIn ctx :=
    ⟨allIndependent_iff.mp independent.head.independent.2 g member, fun v found =>
      independent.head.unwatched v (inside v found)⟩
  refine independentIn_conj.mpr ⟨List.forall_mem_cons.mpr ⟨here, later.1⟩,
    List.pairwise_cons.mpr ⟨fun h among v found other => ?_, later.2⟩⟩
  exact independent.disjoint (mem_openVars_conj.mpr ⟨h, among, other⟩) (inside v found)

/-- Filling in variables of others leaves a goal as it is. -/
theorem of_fills (independent : g.IndependentIn ctx) (fills : Context.Fills vs ctx next)
    (apart : (g.openVars ctx.substitution).Disjoint vs) :
    g.IndependentIn next ∧ g.least next.substitution = g.least ctx.substitution := by
  have spares := fills.frames.spares g independent.independent apart
  exact ⟨⟨spares.independent, fun v member =>
    fills.unwatched (independent.unwatched v (spares.openVars ▸ member))⟩, spares.least⟩

end IndependentIn

end Goal

/-- Rows that are to be tried unify with the arguments, and do not concern the goals that
follow. -/
structure RowScan.Fits (scan : RowScan) (rows : List Row) (goals : List Goal) : Prop where
  later : (Goal.conj goals []).IndependentIn scan.context
  fillable : scan.context.Fillable scan.args
  apart : ((Goal.conj goals []).openVars scan.context.substitution).Disjoint
    (scan.context.substitution.openVars scan.args)
  agree : ∀ row ∈ rows, (∀ value ∈ row, value.isGround = true) ∧
    scan.context.MatchesGround scan.args row

/-! ## Dues -/

namespace Pending

open Classical in
/-- The number of answers that a task has at least. -/
noncomputable def due : Pending → Nat
  | .goals ctx left =>
      if (Goal.conj left []).IndependentIn ctx then (Goal.conj left []).least ctx.substitution
      else 0
  | .scan tried left =>
      match tried.rows with
      | .listed rows =>
          if tried.Fits rows left then
            rows.length * (Goal.conj left []).least tried.context.substitution
          else 0
      | .endless _ _ => 0
  | .foreign => 0

theorem due_goals (independent : (Goal.conj goals []).IndependentIn ctx) :
    (Pending.goals ctx goals).due = (Goal.conj goals []).least ctx.substitution :=
  if_pos independent

theorem due_scan {scan : RowScan} {rows : List Row} (supply : scan.rows = .listed rows)
    (fits : scan.Fits rows goals) : (Pending.scan scan goals).due =
      rows.length * (Goal.conj goals []).least scan.context.substitution := by
  simp only [due, supply, if_pos fits]

end Pending

namespace Task

/-- The dues of the tasks taken together. -/
noncomputable def dues (tasks : List Task) : Nat := (tasks.map fun task => task.pending.due).sum

@[simp] theorem dues_nil : dues [] = 0 := rfl

@[simp] theorem dues_cons (task : Task) (tasks : List Task) :
    dues (task :: tasks) = task.pending.due + dues tasks := by
  rw [dues, dues, List.map_cons, List.sum_cons]

@[simp] theorem dues_append (tasks others : List Task) :
    dues (tasks ++ others) = dues tasks + dues others := by
  rw [dues, dues, dues, List.map_append, List.sum_append]

theorem dues_singleton (path : Path) (p : Pending) : dues [⟨path, p⟩] = p.due := by
  rw [dues_cons, dues_nil, Nat.add_zero]

theorem dues_finished (answers : List (Path × Context)) :
    dues (answers.map finished) = answers.length := by
  induction answers with
  | nil => rfl
  | cons answer answers ih =>
      have one : (finished answer).pending.due = 1 :=
        Pending.due_goals ⟨⟨rfl, trivial, .nil⟩, nofun⟩
      rw [List.map_cons, dues_cons, ih, one, List.length_cons, Nat.add_comm]

end Task

/-! ## Expanding a task -/

theorem Goal.least_conj_cons (s : Substitution) (g : Goal) (goals : List Goal) :
    (Goal.conj (g :: goals) []).least s = g.least s * (Goal.conj goals []).least s := by
  rw [least_conj, least_conj, List.map_cons, List.prod_cons]

/-- A task that starts with a goal owes nothing unless the goals are independent. -/
theorem Pending.due_le_of_independent {most : Nat}
    (paid : (Goal.conj goals []).IndependentIn ctx →
      (Goal.conj goals []).least ctx.substitution ≤ most) :
    (Pending.goals ctx goals).due ≤ most := by
  rw [due]
  split
  · rename_i independent
    exact paid independent
  · exact Nat.zero_le _

/-- With a goal that need not have an answer nothing is owed. -/
theorem Pending.due_le_of_least_eq_zero (none : g.least ctx.substitution = 0) (most : Nat) :
    (Pending.goals ctx (g :: goals)).due ≤ most := by
  apply due_le_of_independent
  intro _
  rw [Goal.least_conj_cons, none, Nat.zero_mul]
  exact Nat.zero_le most

/-- The branches of a disjunction share its due. -/
theorem due_le_branches {parts : List Goal} (place : Nat → Path)
    (each : ∀ g ∈ parts, (Goal.conj (g :: goals) []).IndependentIn ctx) :
    (parts.map (Goal.least ctx.substitution)).sum * (Goal.conj goals []).least ctx.substitution ≤
      Task.dues (parts.mapIdx fun i part => ⟨place i, .goals ctx (part :: goals)⟩) := by
  induction parts generalizing place with
  | nil => exact Nat.le_of_eq (Nat.zero_mul _)
  | cons part parts ih =>
      rw [List.forall_mem_cons] at each
      rw [List.mapIdx_cons, List.map_cons, List.sum_cons, Nat.add_mul, Task.dues_cons,
        Pending.due_goals each.1, Goal.least_conj_cons]
      exact Nat.add_le_add_left (ih (fun i => place (i + 1)) each.2) _

/-- A relation owes an answer for every row that it looks up. -/
theorem due_le_start {a : Application} {scan : RowScan} (path : Path)
    (plain : (Pending.goals ctx (.relation a :: goals)).Plain)
    (opened : RowScan.start a ctx = .ok scan) :
    (Pending.goals ctx (.relation a :: goals)).due ≤ Task.dues [⟨path, .scan scan goals⟩] := by
  apply Pending.due_le_of_independent
  intro independent
  obtain ⟨⟨⟨facts, arity, listed, source, made⟩, _⟩, _⟩ := List.forall_mem_cons.mp plain.2
  have wellFormed := FactTable.wellFormed_of_ofRows made
  rcases RowScan.of_start opened with ⟨_, sameArgs, rfl, _⟩
  rcases RowScan.rows_of_start opened source with ⟨rows, supply, same⟩
  obtain ⟨⟨full, direct, different⟩, unwatched⟩ := independent.head
  rw [← sameArgs] at direct different
  have fits : scan.Fits rows goals := by
    refine ⟨independent.tail, ⟨direct, different, ?_⟩, ?_, ?_⟩
    · rw [sameArgs]
      exact unwatched
    · rw [sameArgs]
      exact independent.disjoint
    · intro row member
      have inside := same.mem_iff.mp member
      rw [wellFormed.matching_eq, List.mem_filter] at inside
      refine ⟨wellFormed.ground row inside.1, ?_⟩
      rw [sameArgs]
      have lengths : a.args.length = row.length := by
        rw [full, Relation.arity, source]
        exact (wellFormed.lengths row inside.1).symm
      exact Application.matchesGround_of_agrees lengths inside.2
  rw [Task.dues_singleton, Pending.due_scan supply fits, Goal.least_conj_cons,
    Goal.least_relation source, same.length_eq]

/-- Trying a row pays for it. -/
theorem due_le_row {scan : RowScan} {row : Row} {rows : RowSupply} {result : Option Context}
    (path last : Path) (index : Nat) (plain : (Pending.scan scan goals).Plain)
    (supply : scan.rows.next = some (row, rows))
    (returned : Returns (scan.context.unifyAll scan.args row) result) :
    (Pending.scan scan goals).due ≤ Task.dues (Task.ofContexts path result goals ++
      [⟨last, .scan { scan with rows := rows, index := index } goals⟩]) := by
  obtain ⟨bare, _, free, listed, isListed, _⟩ := plain
  cases listed with
  | nil =>
      rw [isListed] at supply
      cases supply
  | cons first rest =>
      rw [isListed] at supply
      cases supply
      by_cases fits : scan.Fits (row :: rest) goals
      · obtain ⟨later, fillable, apart, agree⟩ := fits
        rw [List.forall_mem_cons] at agree
        obtain ⟨next, rfl, fills⟩ :=
          (bare.unifyAll_direct free fillable agree.1.1 agree.1.2).of_returns returned
        obtain ⟨laterNext, same⟩ := later.of_fills fills apart
        have fitsRest :
            RowScan.Fits { scan with rows := .listed rest, index := index } rest goals :=
          ⟨later, fillable, apart, agree.2⟩
        rw [Pending.due_scan isListed ⟨later, fillable, apart, List.forall_mem_cons.mpr agree⟩,
          Task.dues_append, Task.dues_singleton, Pending.due_scan rfl fitsRest, List.length_cons,
          Nat.add_one_mul, Nat.add_comm]
        apply Nat.add_le_add_right
        change _ ≤ Task.dues [⟨path, .goals next goals⟩]
        rw [Task.dues_singleton, Pending.due_goals laterNext, same]
      · have none : (Pending.scan scan goals).due = 0 := by
          simp only [Pending.due, isListed, if_neg fits]
        rw [none]
        exact Nat.zero_le _

/-- A task that does the first thing it has to do leads to tasks that owe no less. -/
theorem Expands.due_le (expands : Expands program first task expanded allotted)
    (plain : task.pending.Plain) : task.pending.due ≤ Task.dues expanded := by
  cases expands with
  | succeed path ctx goals =>
      rw [Task.dues_singleton]
      apply Pending.due_le_of_independent
      intro independent
      rw [Pending.due_goals independent.tail, Goal.least_conj_cons, Goal.least, Nat.one_mul]
  | fail path ctx goals => exact Pending.due_le_of_least_eq_zero rfl _
  | equal path goals returned => exact Pending.due_le_of_least_eq_zero rfl _
  | constrain path goals returned => exact Pending.due_le_of_least_eq_zero rfl _
  | @refused path ctx goals parts constraints returned =>
      apply Pending.due_le_of_independent
      intro independent
      obtain rfl : constraints = [] := independent.head.independent.1
      obtain ⟨before, after, ran⟩ := returned
      cases (runs_pure.mp ran).1
  | @conj path ctx next goals parts planned constraints returned plans =>
      apply Pending.due_le_of_independent
      intro independent
      obtain rfl : constraints = [] := independent.head.independent.1
      obtain ⟨before, after, ran⟩ := returned
      cases (runs_pure.mp ran).1
      rw [Goal.planned_eq plain.1.unplanned plans, Task.dues_singleton,
        Pending.due_goals independent.append, Goal.least_conj_cons]
      rw [Goal.least_conj, Goal.least_conj, Goal.least_conj, List.map_append, List.prod_append]
  | @disj path ctx goals parts constraints result returned =>
      apply Pending.due_le_of_independent
      intro independent
      obtain rfl : constraints = [] := independent.head.independent.1
      obtain ⟨before, after, ran⟩ := returned
      cases (runs_pure.mp ran).1
      rw [Option.toList_some, List.flatMap_singleton, Goal.least_conj_cons, Goal.least_disj]
      exact due_le_branches _ fun part => independent.branch
  | fresh path ctx goals names body => exact Pending.due_le_of_least_eq_zero rfl _
  | delay path ctx goals body => exact Pending.due_le_of_least_eq_zero rfl _
  | call path ctx goals args defined => exact Pending.due_le_of_least_eq_zero rfl _
  | relation path goals opened => exact due_le_start path plain opened
  | @exhausted path scan goals ended =>
      obtain ⟨_, _, _, listed, isListed, _⟩ := plain
      cases listed with
      | nil => simp [Pending.due, isListed]
      | cons row rows =>
          rw [isListed] at ended
          cases ended
  | row path goals supply returned => exact due_le_row _ _ _ plain supply returned
  | yieldThenAbort path ctx goals fault => exact Pending.due_le_of_least_eq_zero rfl _

/-- A bag of tasks from which none is lost goes on to owe no less. -/
theorem Evolves.dues_le {lossy : Prop} (plainDefinitions : program.definitions.Plain)
    {next : List Task} (evolves : Evolves program lossy first tasks allotted next)
    (lossless : ¬ lossy) (plain : Task.AllPlain tasks) : Task.dues tasks ≤ Task.dues next := by
  induction evolves with
  | perm same => exact (same.map _).sum_eq.le
  | expand expands others =>
      rw [Task.AllPlain, List.forall_mem_cons] at plain
      rw [Task.dues_cons, Task.dues_append]
      exact Nat.add_le_add_right (expands.due_le plain.1) _
  | drop lost => exact absurd lost lossless
  | trans earlier _ first second =>
      exact (first plain).trans (second (earlier.keepTo plainDefinitions plain).1)

/-! ## The answers of a search -/

/-- A search that comes to its end hands out as many contexts as independent goals have answers
at least. -/
theorem Goal.search_reaches_least {count : Nat} {before after : Session} {moves : List Move}
    (plainDefinitions : program.definitions.Plain) (plain : g.Plain) (bare : ctx.Bare)
    (independent : g.IndependentIn ctx)
    (ran : Runs (g.search program count ctx) before moves after) (exhausted : Exhausted moves) :
    g.least ctx.substitution ≤ (moves.filterMap Move.context?).length := by
  rcases g.search_evolves ctx count ran with ⟨allotted, answers, rest, evolves, yields, ended⟩
  have start : Task.AllPlain [⟨[], .goals ctx [g]⟩] :=
    List.forall_mem_singleton.mpr ⟨bare, List.forall_mem_singleton.mpr plain⟩
  have paid := evolves.dues_le plainDefinitions (not_not_intro exhausted) start
  have owed : (Pending.goals ctx [g]).due = g.least ctx.substitution := by
    have alone : (Goal.conj [g] []).IndependentIn ctx :=
      independentIn_conj.mpr
        ⟨List.forall_mem_singleton.mpr independent, List.pairwise_singleton _ _⟩
    rw [Pending.due_goals alone, least_conj, List.map_singleton, List.prod_singleton]
  rw [ended exhausted, List.append_nil, Task.dues_finished, Task.dues_singleton, owed] at paid
  rw [← yields, List.length_map]
  exact paid

/-- If the bound of a goal is exact and not saturated, a search that comes to its end hands out
just so many contexts, provided that the goal is independent or the bound is zero. -/
theorem Goal.search_meets_bound {n count : Nat} {before after : Session} {moves : List Move}
    (plainDefinitions : program.definitions.Plain) (plain : g.Plain) (bare : ctx.Bare)
    (bounded : g.bound ctx.substitution = .ok (.exact n)) (unsaturated : n < SizeBound.ceiling)
    (independent : 0 < n → g.IndependentIn ctx)
    (ran : Runs (g.search program count ctx) before moves after) (exhausted : Exhausted moves) :
    (moves.filterMap Move.context?).length = n := by
  have limits := limits_bound bare.acyclic g _ plain bounded n rfl unsaturated
  have most := (search_within_most plainDefinitions plain bare ran).trans limits
  apply Nat.le_antisymm (Nat.cast_le.mp most)
  rcases Nat.eq_zero_or_pos n with rfl | positive
  · exact Nat.zero_le _
  · exact (attained_bound g _ plain bounded n rfl unsaturated).trans
      (search_reaches_least plainDefinitions plain bare (independent positive) ran exhausted)

/-- Three pairs of digits. -/
def FactTable.digitPairs : FactTable :=
  (((FactTable.empty 2).push [.int 1, .int 2]).push [.int 1, .int 3]).push [.int 4, .int 2]

/-- One variable stands to the left of two, and another to the right of one. -/
def Goal.besideDigits : Goal :=
  .conj [.relation ⟨⟨"pairs", .table .digitPairs⟩, [.var (.numbered 1), .int 2], .natural⟩,
    .relation ⟨⟨"pairs", .table .digitPairs⟩, [.int 1, .var (.numbered 2)], .natural⟩] []

theorem Goal.search_meets_bound_besideDigits :
    Definitions.Plain [] ∧ Goal.besideDigits.Plain ∧ Context.checked.Bare ∧
      Goal.besideDigits.bound Context.checked.substitution = .ok (.exact 4) ∧
      4 < SizeBound.ceiling ∧ Goal.besideDigits.IndependentIn .checked ∧ ∃ moves,
        (∃ after, Runs (Goal.besideDigits.search ⟨[], 1⟩ 30 .checked) (.start 0 0) moves after) ∧
        Exhausted moves ∧ (moves.filterMap Move.context?).length = 4 := by
  have noDefinitions : Definitions.Plain [] := nofun
  have bare := Context.bare_checked
  have plain : Goal.besideDigits.Plain := by
    have made : FactTable.ofRows 2 [[.int 1, .int 2], [.int 1, .int 3], [.int 4, .int 2]] =
        .ok .digitPairs := rfl
    refine ⟨⟨⟨_, _, _, rfl, made⟩, ?_⟩, ⟨⟨_, _, _, rfl, made⟩, ?_⟩, trivial⟩
    · simp only [List.forall_mem_cons]
      exact ⟨rfl, rfl, nofun⟩
    · simp only [List.forall_mem_cons]
      exact ⟨rfl, rfl, nofun⟩
  have bounded : Goal.besideDigits.bound Context.checked.substitution = .ok (.exact 4) := by
    decide +kernel
  have independent : Goal.besideDigits.IndependentIn .checked := by
    refine ⟨⟨rfl, ⟨⟨rfl, ?_, by decide⟩, ⟨rfl, ?_, by decide⟩, trivial⟩, ?_⟩, fun _ _ => rfl⟩
    · simp only [List.forall_mem_cons]
      exact ⟨.inr rfl, .inl rfl, nofun⟩
    · simp only [List.forall_mem_cons]
      exact ⟨.inl rfl, .inr rfl, nofun⟩
    · exact List.pairwise_pair.mpr (List.singleton_disjoint.mpr
        (show Var.numbered 1 ∉ [Var.numbered 2] by decide))
  have ends : Engine.endsAfter (Goal.besideDigits.search ⟨[], 1⟩ 30 .checked) (.start 0 0) 4 =
      true := by
    decide +kernel
  rcases Engine.exists_exhausted ends with ⟨moves, after, ran, exhausted, _⟩
  exact ⟨noDefinitions, plain, bare, bounded, by decide, independent, moves, ⟨after, ran⟩,
    exhausted, search_meets_bound noDefinitions plain bare bounded (by decide)
      (fun _ => independent) ran exhausted⟩

/-- A variable that two goals of a conjunction share makes an exact bound wrong.  Each of two
tables has two rows, and only one digit stands in both. -/
theorem Goal.search_misses_bound :
    Context.checked.hooks? = none ∧
      Goal.inBoth.bound Context.checked.substitution = .ok (.exact 4) ∧
      4 < SizeBound.ceiling ∧ ∃ moves,
        (∃ after, Runs (Goal.inBoth.search ⟨[], 1⟩ 20 .checked) (.start 0 0) moves after) ∧
        Exhausted moves ∧ (moves.filterMap Move.context?).length = 1 := by
  have ends : Engine.endsAfter (Goal.inBoth.search ⟨[], 1⟩ 20 .checked) (.start 0 0) 1 = true := by
    decide +kernel
  rcases Engine.exists_exhausted ends with ⟨moves, after, ran, exhausted, one⟩
  exact ⟨rfl, by decide +kernel, by decide, moves, ⟨after, ran⟩, exhausted, one⟩

end RelationalSolver
