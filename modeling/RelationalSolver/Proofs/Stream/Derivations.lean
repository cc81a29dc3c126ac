import RelationalSolver.Proofs.Stream.Execution

/-!
# Derivations

A derivation goes through goals from left to right.  It takes one branch of every
disjunction and one row of every relation that it meets, and unfolds what is
suspended.  The choices that it makes tell it apart from other derivations.  Expanding
a task makes the next choice, and gives each derivation of the task to one of the new
tasks.
-/

namespace RelationalSolver

open Engine

/-- The ordinals of the new variables that are introduced after some choices. -/
abbrev Numbering := Path → Nat → Nat

/-- So many new variables, introduced after some choices. -/
def Numbering.vars (numbers : Numbering) (path : Path) (count : Nat) : List Var :=
  (List.range count).map fun i => .numbered (numbers path i)

/-- No ordinal is used twice, and none that is smaller than the given one. -/
structure Numbering.Fresh (numbers : Numbering) (first : Nat) : Prop where
  distinct : ∀ path i other j, numbers path i = numbers other j → path = other ∧ i = j
  unused : ∀ path i, first ≤ numbers path i

/-- The row with a number, counted from zero. -/
def RowSupply.row? : RowSupply → Nat → Option Row
  | .listed rows, number => rows[number]?
  | .endless row first, number => some (row (first + number))

/-- From the context, after the choices of the first path, the goals can be gone
through with the choices of the last path, and this gives the result. -/
inductive Derivation (program : Program) (numbers : Numbering) :
    Path → Context → List Goal → Path → Context → Prop
  | done (path : Path) (ctx : Context) : Derivation program numbers path ctx [] path ctx
  | succeed {path last : Path} {ctx result : Context} {goals : List Goal}
      (derives : Derivation program numbers path ctx goals last result) :
      Derivation program numbers path ctx (.succeed :: goals) last result
  | equal {path last : Path} {ctx result next : Context} {goals : List Goal} {a b : Term}
      (returned : Returns (ctx.unify a b) (some next))
      (derives : Derivation program numbers path next goals last result) :
      Derivation program numbers path ctx (.equal a b :: goals) last result
  | constrain {path last : Path} {ctx result next : Context} {goals : List Goal} {c : Constraint}
      (returned : Returns (ctx.constrain c) (some next))
      (derives : Derivation program numbers path next goals last result) :
      Derivation program numbers path ctx (.constrain c :: goals) last result
  | conj {path last : Path} {ctx result next : Context} {goals parts : List Goal}
      {constraints : List Constraint}
      (returned : Returns (ctx.constrainAll constraints) (some next))
      (derives : Derivation program numbers path next (parts ++ goals) last result) :
      Derivation program numbers path ctx (.conj parts constraints :: goals) last result
  | disj {path last : Path} {ctx result next : Context} {goals parts : List Goal}
      {constraints : List Constraint} {index : Nat} {part : Goal}
      (returned : Returns (ctx.constrainAll constraints) (some next))
      (branch : parts[index]? = some part)
      (derives : Derivation program numbers (path ++ [.branch index]) next (part :: goals) last
        result) :
      Derivation program numbers path ctx (.disj parts constraints :: goals) last result
  | fresh {path last : Path} {ctx result : Context} {goals : List Goal} {names : List String}
      {body : Goal}
      (derives : Derivation program numbers (path ++ [.unfold]) ctx
        (body.fill (.ofLists names ((numbers.vars path names.length).map .var)) :: goals) last
        result) :
      Derivation program numbers path ctx (.fresh names body :: goals) last result
  | delay {path last : Path} {ctx result : Context} {goals : List Goal} {body : Goal}
      (derives : Derivation program numbers (path ++ [.unfold]) ctx (body :: goals) last result) :
      Derivation program numbers path ctx (.delay body :: goals) last result
  | call {path last : Path} {ctx result : Context} {goals : List Goal} {name : String}
      {args : List Term} {definition : Definition}
      (defined : program.definitions.lookup name = some definition)
      (derives : Derivation program numbers (path ++ [.unfold]) ctx (definition.apply args :: goals)
        last result) :
      Derivation program numbers path ctx (.call name args :: goals) last result
  | relation {path last : Path} {ctx result next : Context} {goals : List Goal} {a : Application}
      {rows : RowSupply} {total number : Nat} {row : Row}
      (opened : RowScan.rowsOf a ctx.substitution = .ok (rows, total))
      (enumerated : rows.row? number = some row)
      (returned : Returns (ctx.unifyAll a.args row) (some next))
      (derives : Derivation program numbers (path ++ [.row number]) next goals last result) :
      Derivation program numbers path ctx (.relation a :: goals) last result
  | yieldThenAbort {path last : Path} {ctx result : Context} {goals : List Goal} {fault : Fault}
      (derives : Derivation program numbers path ctx goals last result) :
      Derivation program numbers path ctx (.yieldThenAbort fault :: goals) last result

variable {program : Program} {goals : List Goal} {path last : Path} {ctx result : Context}
variable {task : Task} {tasks next expanded : List Task} {first : Nat} {allotted : Allotments}

/-- The derivations of a task go through what it has still to do. -/
def Task.Derives (program : Program) (numbers : Numbering) (last : Path) (result : Context) :
    Task → Prop
  | ⟨path, .goals ctx goals⟩ => Derivation program numbers path ctx goals last result
  | ⟨path, .scan scan goals⟩ => ∃ number row next, scan.rows.row? number = some row ∧
      Returns (scan.context.unifyAll scan.args row) (some next) ∧
      Derivation program numbers (path ++ [.row (scan.index + number)]) next goals
        last result
  | ⟨_, .foreign⟩ => False

/-! ## Expanding a task keeps its derivations -/

/-- The numbering puts the new variables that were allotted in their order. -/
def Numbering.Agrees (numbers : Numbering) : Nat → Allotments → Prop
  | _, [] => True
  | first, (path, count) :: allotted =>
      (∀ i < count, numbers path i = first + i) ∧ numbers.Agrees (first + count) allotted

theorem Numbering.vars_eq {numbers : Numbering} {count : Nat}
    (same : ∀ i < count, numbers path i = first + i) :
    numbers.vars path count = newVars first count := by
  apply List.map_congr_left
  intro i mem
  rw [same i (List.mem_range.mp mem)]

theorem Numbering.agrees_append {numbers : Numbering} {later : Allotments}
    (agrees : numbers.Agrees first (allotted ++ later)) :
    numbers.Agrees first allotted ∧ numbers.Agrees (first + allotted.total) later := by
  induction allotted generalizing first with
  | nil => exact ⟨trivial, agrees⟩
  | cons allotment allotted ih =>
      rcases agrees with ⟨here, agrees⟩
      rcases ih agrees with ⟨front, back⟩
      rw [Nat.add_assoc] at back
      exact ⟨⟨here, front⟩, back⟩

/-- Conjunctions of the branch are not planned. -/
def Task.Unplanned : Task → Prop
  | ⟨_, .goals ctx _⟩ => ctx.get .planner = []
  | ⟨_, .scan scan _⟩ => scan.context.get .planner = []
  | ⟨_, .foreign⟩ => True

theorem Context.SamePlanner.get_eq {next : Context} (same : ctx.SamePlanner next) :
    next.get .planner = ctx.get .planner := by
  unfold get
  rw [show next.get? .planner = ctx.get? .planner from same]

theorem Goal.planned_eq {parts planned : List Goal} (unplanned : ctx.get .planner = [])
    (plans : Returns (Goal.planned ctx parts) planned) : planned = parts := by
  rcases plans with ⟨before, after, ran⟩
  simp only [Goal.planned, unplanned, List.isEmpty_nil, Bool.true_or, if_true] at ran
  exact (runs_pure.mp ran).1.symm

theorem Task.mem_ofContexts {found : Option Context} :
    task ∈ Task.ofContexts path found goals ↔
      ∃ next, found = some next ∧ task = ⟨path, .goals next goals⟩ := by
  cases found <;> simp [Task.ofContexts]

theorem Task.exists_mem_ofContexts {found : Option Context} {condition : Task → Prop} :
    (∃ other ∈ Task.ofContexts path found goals, condition other) ↔
      ∃ next, found = some next ∧ condition ⟨path, .goals next goals⟩ := by
  cases found <;> simp [Task.ofContexts]

theorem RowSupply.row?_of_next_none {rows : RowSupply} (ended : rows.next = none) (number : Nat) :
    rows.row? number = none := by
  cases rows with
  | listed rows =>
      cases rows with
      | nil => rfl
      | cons row rows => cases ended
  | endless row first => cases ended

theorem RowSupply.row?_of_next {rows later : RowSupply} {row : Row}
    (next : rows.next = some (row, later)) :
    rows.row? 0 = some row ∧ ∀ number, later.row? number = rows.row? (number + 1) := by
  cases rows with
  | listed rows =>
      cases rows with
      | nil => cases next
      | cons row rows =>
          cases next
          exact ⟨rfl, fun number => rfl⟩
  | endless row first =>
      cases next
      refine ⟨rfl, fun number => ?_⟩
      rw [row?, row?, Nat.add_assoc, Nat.add_comm 1]

theorem RowScan.of_start {a : Application} {scan : RowScan} (opened : start a ctx = .ok scan) :
    (∃ total, rowsOf a ctx.substitution = .ok (scan.rows, total)) ∧ scan.args = a.args ∧
      scan.context = ctx ∧ scan.index = 0 := by
  unfold start at opened
  cases supply : rowsOf a ctx.substitution with
  | error e =>
      rw [supply] at opened
      cases opened
  | ok supplied =>
      rw [supply] at opened
      cases opened
      exact ⟨⟨supplied.2, rfl⟩, rfl, rfl, rfl⟩

theorem Task.unplanned_of_passes {found : Option Context} (unplanned : ctx.get .planner = [])
    (passes : ctx.Passes found) :
    ∀ other ∈ Task.ofContexts path found goals, other.Unplanned := by
  intro other mem
  cases found with
  | none => cases mem
  | some next =>
      rw [List.mem_singleton.mp mem]
      exact (passes next rfl).get_eq.trans unplanned

theorem Expands.unplanned (expands : Expands program first task expanded allotted)
    (unplanned : task.Unplanned) : ∀ other ∈ expanded, other.Unplanned := by
  cases expands with
  | succeed => exact List.forall_mem_singleton.mpr unplanned
  | fail => simp
  | equal _ _ returned =>
      exact Task.unplanned_of_passes unplanned ((Context.unify_detached _ _ _).of_returns returned)
  | constrain _ _ returned =>
      exact Task.unplanned_of_passes unplanned ((Context.constrain_detached _).of_returns returned)
  | refused => simp
  | conj _ _ returned =>
      have passes := (Context.constrainAll_detached _).of_returns returned
      exact Task.unplanned_of_passes unplanned passes
  | disj _ _ returned =>
      have passes := (Context.constrainAll_detached _).of_returns returned
      intro other mem
      rcases List.mem_flatMap.mp mem with ⟨next, found, mem⟩
      rcases List.mem_mapIdx.mp mem with ⟨_, _, rfl⟩
      exact (passes next (Option.mem_toList.mp found)).get_eq.trans unplanned
  | fresh => exact List.forall_mem_singleton.mpr unplanned
  | delay => exact List.forall_mem_singleton.mpr unplanned
  | call => exact List.forall_mem_singleton.mpr unplanned
  | relation _ _ opened =>
      rw [← (RowScan.of_start opened).2.2.1] at unplanned
      exact List.forall_mem_singleton.mpr unplanned
  | exhausted => simp
  | row _ _ _ returned =>
      have passes := (Context.unifyAll_detached _ _ _).of_returns returned
      intro other mem
      rcases List.mem_append.mp mem with mem | mem
      · exact Task.unplanned_of_passes unplanned passes other mem
      · rw [List.mem_singleton.mp mem]
        exact unplanned
  | yieldThenAbort => exact List.forall_mem_singleton.mpr unplanned

/-- A disjunction is gone through by way of one of its branches. -/
theorem Task.derives_disj_iff {numbers : Numbering} {parts : List Goal}
    {constraints : List Constraint} {found : Option Context}
    (returned : Returns (ctx.constrainAll constraints) found) :
    Task.Derives program numbers last result ⟨path, .goals ctx (.disj parts constraints :: goals)⟩ ↔
      ∃ other ∈ (found.toList.flatMap fun next => parts.mapIdx fun i part =>
          ⟨path ++ [.branch i], .goals next (part :: goals)⟩ : List Task),
        other.Derives program numbers last result := by
  constructor
  · intro derives
    cases derives with
    | @disj _ _ _ _ next _ _ _ index part attached branch derives =>
        rw [(Context.constrainAll_detached _).eq_of_returns returned attached]
        rcases List.getElem?_eq_some_iff.mp branch with ⟨bound, same⟩
        have chosen : Task.mk (path ++ [Choice.branch index]) (.goals next (part :: goals)) ∈
            parts.mapIdx fun i part => ⟨path ++ [.branch i], .goals next (part :: goals)⟩ :=
          List.mem_mapIdx.mpr ⟨index, bound, by rw [same]⟩
        exact ⟨_, List.mem_flatMap.mpr ⟨next, Option.mem_toList.mpr rfl, chosen⟩, derives⟩
  · rintro ⟨other, mem, derives⟩
    rcases List.mem_flatMap.mp mem with ⟨next, attached, mem⟩
    rcases List.mem_mapIdx.mp mem with ⟨index, bound, rfl⟩
    rw [Option.mem_toList.mp attached] at returned
    exact .disj returned (List.getElem?_eq_getElem bound) derives

/-- A relation is gone through by way of one of the rows that are opened. -/
theorem Task.derives_relation_iff {numbers : Numbering} {a : Application} {scan : RowScan}
    (opened : RowScan.start a ctx = .ok scan) :
    Task.Derives program numbers last result ⟨path, .goals ctx (.relation a :: goals)⟩ ↔
      Task.Derives program numbers last result ⟨path, .scan scan goals⟩ := by
  rcases RowScan.of_start opened with ⟨⟨total, supplied⟩, sameArgs, sameContext, begins⟩
  simp only [Task.Derives, sameArgs, sameContext, begins, Nat.zero_add]
  constructor
  · intro derives
    cases derives with
    | relation found enumerated returned derives =>
        cases supplied.symm.trans found
        exact ⟨_, _, _, enumerated, returned, derives⟩
  · rintro ⟨number, row, next, enumerated, returned, derives⟩
    exact .relation supplied enumerated returned derives

/-- Rows are gone through by way of the first one or of the rows after it. -/
theorem Task.derives_scan_iff {numbers : Numbering} {scan : RowScan} {row : Row} {rows : RowSupply}
    {found : Option Context} (next : scan.rows.next = some (row, rows))
    (returned : Returns (scan.context.unifyAll scan.args row) found) :
    Task.Derives program numbers last result ⟨path, .scan scan goals⟩ ↔
      (∃ other ∈ Task.ofContexts (path ++ [.row scan.index]) found goals,
        other.Derives program numbers last result) ∨
      Task.Derives program numbers last result
        ⟨path, .scan { scan with rows := rows, index := scan.index + 1 } goals⟩ := by
  rcases RowSupply.row?_of_next next with ⟨here, later⟩
  simp only [Task.exists_mem_ofContexts, Task.Derives, later]
  constructor
  · rintro ⟨number, other, context, enumerated, unified, derives⟩
    cases number with
    | zero =>
        cases here.symm.trans enumerated
        exact .inl ⟨context, (Context.unifyAll_detached _ _ _).eq_of_returns returned unified,
          derives⟩
    | succ number =>
        rw [← Nat.add_assoc, Nat.add_right_comm] at derives
        exact .inr ⟨number, other, context, enumerated, unified, derives⟩
  · rintro (⟨context, rfl, derives⟩ | ⟨number, other, context, enumerated, unified, derives⟩)
    · exact ⟨0, _, context, here, returned, derives⟩
    · rw [Nat.add_right_comm, Nat.add_assoc] at derives
      exact ⟨number + 1, other, context, enumerated, unified, derives⟩

/-- Expanding a task keeps its derivations, each in one of the new tasks. -/
theorem Expands.derives_iff {numbers : Numbering}
    (expands : Expands program first task expanded allotted)
    (agrees : numbers.Agrees first allotted) (unplanned : task.Unplanned) :
    task.Derives program numbers last result ↔
      ∃ other ∈ expanded, other.Derives program numbers last result := by
  cases expands with
  | succeed path ctx goals =>
      simp only [List.mem_singleton, exists_eq_left, Task.Derives]
      constructor
      · intro derives
        cases derives with
        | succeed derives => exact derives
      · exact .succeed
  | fail path ctx goals =>
      simp only [List.not_mem_nil, false_and, exists_false, iff_false, Task.Derives]
      intro derives
      cases derives
  | equal path goals returned =>
      rw [Task.exists_mem_ofContexts]
      constructor
      · intro derives
        cases derives with
        | equal found derives =>
            exact ⟨_, (Context.unify_detached _ _ _).eq_of_returns returned found, derives⟩
      · rintro ⟨next, rfl, derives⟩
        exact .equal returned derives
  | constrain path goals returned =>
      rw [Task.exists_mem_ofContexts]
      constructor
      · intro derives
        cases derives with
        | constrain found derives =>
            exact ⟨_, (Context.constrain_detached _).eq_of_returns returned found, derives⟩
      · rintro ⟨next, rfl, derives⟩
        exact .constrain returned derives
  | refused path goals returned =>
      simp only [List.not_mem_nil, false_and, exists_false, iff_false, Task.Derives]
      intro derives
      cases derives with
      | conj found _ =>
          cases (Context.constrainAll_detached _).eq_of_returns returned found
  | @conj path ctx next goals parts planned constraints returned plans =>
      have same := (Context.constrainAll_detached constraints).of_returns returned next rfl
      rw [Goal.planned_eq (same.get_eq.trans unplanned) plans]
      simp only [List.mem_singleton, exists_eq_left, Task.Derives]
      constructor
      · intro derives
        cases derives with
        | conj found derives =>
            cases (Context.constrainAll_detached _).eq_of_returns returned found
            exact derives
      · exact .conj returned
  | disj path goals returned => exact Task.derives_disj_iff returned
  | fresh path ctx goals names body =>
      simp only [List.mem_singleton, exists_eq_left, Task.Derives]
      rw [← Numbering.vars_eq agrees.1]
      constructor
      · intro derives
        cases derives with
        | fresh derives => exact derives
      · exact .fresh
  | delay path ctx goals body =>
      simp only [List.mem_singleton, exists_eq_left, Task.Derives]
      constructor
      · intro derives
        cases derives with
        | delay derives => exact derives
      · exact .delay
  | call path ctx goals args defined =>
      simp only [List.mem_singleton, exists_eq_left, Task.Derives]
      constructor
      · intro derives
        cases derives with
        | call found derives =>
            cases defined.symm.trans found
            exact derives
      · exact .call defined
  | relation path goals opened =>
      simp only [List.mem_singleton, exists_eq_left]
      exact Task.derives_relation_iff opened
  | exhausted path goals ended =>
      simp only [List.not_mem_nil, false_and, exists_false, iff_false, Task.Derives,
        RowSupply.row?_of_next_none ended]
      rintro ⟨_, _, _, enumerated, _⟩
      cases enumerated
  | row path goals next returned =>
      simp only [List.mem_append, or_and_right, exists_or, List.mem_singleton, exists_eq_left]
      exact Task.derives_scan_iff next returned
  | yieldThenAbort path ctx goals fault =>
      simp only [List.mem_singleton, exists_eq_left, Task.Derives]
      constructor
      · intro derives
        cases derives with
        | yieldThenAbort derives => exact derives
      · exact .yieldThenAbort

end RelationalSolver
