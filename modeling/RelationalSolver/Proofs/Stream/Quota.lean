import RelationalSolver.Proofs.Context.Restriction
import RelationalSolver.Proofs.Goal.Counting
import RelationalSolver.Proofs.Planning.Answers

/-!
# Searches stay within their bounds

Every task of a search has a quota, the product of the numbers of answers that its goals
do not exceed under the bindings of its context.  A task that does the first thing it has
to do leads to tasks whose quotas add up to no more than its own, since the contexts that
it leads to have no new solutions.  An answer takes up one of the quota.
-/

namespace RelationalSolver

open Engine

variable {definitions : Definitions} {program : Program} {ctx : Context} {g : Goal}
variable {goals : List Goal} {task : Task} {tasks next expanded : List Task} {first : Nat}
variable {allotted : Allotments}

namespace Pending

/-- The number of answers that a task does not exceed. -/
noncomputable def quota : Pending → ℕ∞
  | .goals ctx left => (left.map (Goal.most ctx.substitution.solutions)).prod
  | .scan tried left =>
      match tried.rows with
      | .listed rows => fitting tried.context.substitution.solutions tried.args rows *
          (left.map (Goal.most tried.context.substitution.solutions)).prod
      | .endless _ _ => ⊤
  | .foreign => ⊤

/-- The context is bare and the goals are plain; the rows that are tried are listed. -/
def Plain : Pending → Prop
  | .goals ctx left => ctx.Bare ∧ ∀ g ∈ left, g.Plain
  | .scan tried left => tried.context.Bare ∧ (∀ g ∈ left, g.Plain) ∧
      (∀ t ∈ tried.args, t.WildcardFree) ∧
      ∃ rows, tried.rows = .listed rows ∧ ∀ row ∈ rows, ∀ t ∈ row, t.WildcardFree
  | .foreign => False

theorem quota_cons : (Pending.goals ctx (g :: goals)).quota =
    g.most ctx.substitution.solutions * (Pending.goals ctx goals).quota := by
  rw [quota, quota, List.map_cons, List.prod_cons]

theorem quota_append (goals others : List Goal) : (Pending.goals ctx (goals ++ others)).quota =
    (goals.map (Goal.most ctx.substitution.solutions)).prod * (Pending.goals ctx others).quota := by
  rw [quota, quota, List.map_append, List.prod_append]

theorem quota_scan {scan : RowScan} {rows : List Row} (supply : scan.rows = .listed rows) :
    (Pending.scan scan goals).quota =
      fitting scan.context.substitution.solutions scan.args rows *
        (Pending.goals scan.context goals).quota := by
  simp only [quota, supply]

theorem quota_mono {next : Context}
    (less : next.substitution.solutions ⊆ ctx.substitution.solutions) (goals : List Goal) :
    (Pending.goals next goals).quota ≤ (Pending.goals ctx goals).quota :=
  Goal.prod_most_mono less goals

/-- A goal that may have an answer takes nothing from the quota of the others. -/
theorem quota_le_of_one_le (some : 1 ≤ g.most ctx.substitution.solutions) :
    (Pending.goals ctx goals).quota ≤ (Pending.goals ctx (g :: goals)).quota := by
  rw [quota_cons]
  exact le_mul_of_one_le_left' some

/-- An unsized goal allows whatever comes in its place. -/
theorem quota_le_of_top (unsized : g.most ctx.substitution.solutions = ⊤) (body : Goal) :
    (Pending.goals ctx (body :: goals)).quota ≤ (Pending.goals ctx (g :: goals)).quota := by
  rw [quota_cons, quota_cons, unsized]
  exact mul_le_mul_left le_top _

end Pending

namespace Task

/-- The tasks are plain. -/
def AllPlain (tasks : List Task) : Prop := ∀ task ∈ tasks, task.pending.Plain

/-- The quotas of the tasks taken together. -/
noncomputable def quotas (tasks : List Task) : ℕ∞ := (tasks.map fun task => task.pending.quota).sum

@[simp] theorem quotas_nil : quotas [] = 0 := rfl

@[simp] theorem quotas_cons (task : Task) (tasks : List Task) :
    quotas (task :: tasks) = task.pending.quota + quotas tasks := by
  rw [quotas, quotas, List.map_cons, List.sum_cons]

@[simp] theorem quotas_append (tasks others : List Task) :
    quotas (tasks ++ others) = quotas tasks + quotas others := by
  rw [quotas, quotas, quotas, List.map_append, List.sum_append]

/-- The tasks are plain and keep within a quota. -/
def KeepTo (quota : ℕ∞) (tasks : List Task) : Prop := AllPlain tasks ∧ quotas tasks ≤ quota

theorem keepTo_nil (quota : ℕ∞) : KeepTo quota [] := ⟨List.forall_mem_nil _, zero_le⟩

theorem keepTo_singleton {quota : ℕ∞} {path : Path} {p : Pending} (plain : p.Plain)
    (within : p.quota ≤ quota) : KeepTo quota [⟨path, p⟩] := by
  refine ⟨List.forall_mem_singleton.mpr plain, ?_⟩
  rwa [quotas_cons, quotas_nil, add_zero]

theorem KeepTo.append {quota other : ℕ∞} {others : List Task} (keep : KeepTo quota tasks)
    (keepOthers : KeepTo other others) : KeepTo (quota + other) (tasks ++ others) := by
  refine ⟨List.forall_mem_append.mpr ⟨keep.1, keepOthers.1⟩, ?_⟩
  rw [quotas_append]
  exact add_le_add keep.2 keepOthers.2

theorem KeepTo.mono {quota other : ℕ∞} (keep : KeepTo quota tasks) (within : quota ≤ other) :
    KeepTo other tasks := ⟨keep.1, keep.2.trans within⟩

/-- A context that is left by what restricts the solutions keeps to the quota that the
goals have in the first one. -/
theorem keepTo_ofContexts {new : Set Assignment} {result : Option Context} (path : Path)
    (leaves : Context.Leaves (Context.Restricts new) ctx result) (plain : ∀ g ∈ goals, g.Plain) :
    KeepTo (someLeft (ctx.substitution.solutions ∩ new) * (Pending.goals ctx goals).quota)
      (ofContexts path result goals) := by
  cases result with
  | none => exact keepTo_nil _
  | some next =>
      have restricts := leaves next rfl
      refine keepTo_singleton ⟨restricts.bare, plain⟩ ?_
      rw [someLeft_of_nonempty restricts.nonempty, one_mul]
      exact Pending.quota_mono restricts.solutions_subset goals

end Task

/-! ## Expanding a task -/

/-- The branches of a disjunction share its quota. -/
theorem keepTo_branches {next : Context} {parts : List Goal} (place : Nat → Path)
    (bare : next.Bare) (plainParts : ∀ g ∈ parts, g.Plain) (plain : ∀ g ∈ goals, g.Plain) :
    Task.KeepTo
      ((parts.map (Goal.most next.substitution.solutions)).sum * (Pending.goals next goals).quota)
      (parts.mapIdx fun i part => ⟨place i, .goals next (part :: goals)⟩) := by
  induction parts generalizing place with
  | nil => exact Task.keepTo_nil _
  | cons part parts ih =>
      rw [List.forall_mem_cons] at plainParts
      rw [List.mapIdx_cons, List.map_cons, List.sum_cons, add_mul]
      have here : Task.KeepTo
          (part.most next.substitution.solutions * (Pending.goals next goals).quota)
          [⟨place 0, .goals next (part :: goals)⟩] :=
        Task.keepTo_singleton ⟨bare, List.forall_mem_cons.mpr ⟨plainParts.1, plain⟩⟩
          Pending.quota_cons.le
      exact here.append (ih (fun i => place (i + 1)) plainParts.2)

/-- A relation keeps to its quota when its rows are looked up. -/
theorem keepTo_start {a : Application} {scan : RowScan} (path : Path)
    (plain : (Pending.goals ctx (.relation a :: goals)).Plain)
    (opened : RowScan.start a ctx = .ok scan) :
    Task.KeepTo (Pending.goals ctx (.relation a :: goals)).quota [⟨path, .scan scan goals⟩] := by
  obtain ⟨bare, allPlain⟩ := plain
  obtain ⟨⟨⟨facts, arity, listed, source, made⟩, free⟩, later⟩ := List.forall_mem_cons.mp allPlain
  have wellFormed := FactTable.wellFormed_of_ofRows made
  rcases RowScan.of_start opened with ⟨_, sameArgs, rfl, _⟩
  rcases RowScan.rows_of_start opened source with ⟨rows, supply, same⟩
  rw [wellFormed.matching_eq] at same
  apply Task.keepTo_singleton
  · refine ⟨bare, later, sameArgs ▸ free, rows, supply, ?_⟩
    intro row member t inside
    have ground := wellFormed.ground row (List.mem_of_mem_filter (same.mem_iff.mp member)) t inside
    exact Term.isGround_iff.mp ground .wildcard
  · rw [Pending.quota_scan supply, Pending.quota_cons, Goal.most_relation source, sameArgs]
    apply mul_le_mul_left
    rw [Nat.cast_le, fitting_perm same]
    exact fitting_filter_le _ _ _

/-- Trying a row leaves the quota of the other rows. -/
theorem keepTo_row {scan : RowScan} {row : Row} {rows : RowSupply} {result : Option Context}
    (path last : Path) (index : Nat) (plain : (Pending.scan scan goals).Plain)
    (supply : scan.rows.next = some (row, rows))
    (returned : Returns (scan.context.unifyAll scan.args row) result) :
    Task.KeepTo (Pending.scan scan goals).quota (Task.ofContexts path result goals ++
      [⟨last, .scan { scan with rows := rows, index := index } goals⟩]) := by
  obtain ⟨bare, later, free, listed, isListed, freeRows⟩ := plain
  cases listed with
  | nil =>
      rw [isListed] at supply
      cases supply
  | cons first rest =>
      rw [isListed] at supply
      cases supply
      rw [List.forall_mem_cons] at freeRows
      have leaves := (bare.unifyAll free freeRows.1).of_returns returned
      have others : Task.KeepTo _
          [⟨last, .scan { scan with rows := .listed rest, index := index } goals⟩] :=
        Task.keepTo_singleton ⟨bare, later, free, rest, rfl, freeRows.2⟩ le_rfl
      apply ((Task.keepTo_ofContexts path leaves later).append others).mono
      rw [Pending.quota_scan isListed, Pending.quota_scan rfl, ← add_mul]
      apply mul_le_mul_left
      rcases Set.eq_empty_or_nonempty (scan.context.substitution.solutions ∩
        pairUnifiers scan.args row) with none | left
      · rw [someLeft_of_empty none, zero_add, Nat.cast_le]
        exact fitting_le_fitting_cons _ _ _
      · rw [someLeft_of_nonempty left, fitting_cons_of_nonempty rest left, Nat.cast_add, add_comm]
        exact le_rfl

/-- A task that does the first thing it has to do leads to tasks that keep to its
quota. -/
theorem Expands.keepTo (plainDefinitions : program.definitions.Plain)
    (expands : Expands program first task expanded allotted) (plain : task.pending.Plain) :
    Task.KeepTo task.pending.quota expanded := by
  cases expands with
  | succeed path ctx goals =>
      obtain ⟨bare, allPlain⟩ := plain
      exact Task.keepTo_singleton ⟨bare, (List.forall_mem_cons.mp allPlain).2⟩
        (Pending.quota_le_of_one_le (by rw [Goal.most]))
  | fail path ctx goals => exact Task.keepTo_nil _
  | @equal path ctx goals a b result returned =>
      obtain ⟨bare, allPlain⟩ := plain
      obtain ⟨free, later⟩ := List.forall_mem_cons.mp allPlain
      have leaves := (bare.unify free.1 free.2).of_returns returned
      apply (Task.keepTo_ofContexts path leaves later).mono
      rw [Pending.quota_cons, Goal.most]
  | @constrain path ctx goals c result returned =>
      obtain ⟨bare, allPlain⟩ := plain
      have leaves := (bare.constrain c).of_returns returned
      apply (Task.keepTo_ofContexts path leaves (List.forall_mem_cons.mp allPlain).2).mono
      rw [Pending.quota_cons]
      exact mul_le_mul_left le_top _
  | refused => exact Task.keepTo_nil _
  | @conj path ctx next goals parts planned constraints returned plans =>
      obtain ⟨bare, allPlain⟩ := plain
      obtain ⟨plainParts, later⟩ := List.forall_mem_cons.mp allPlain
      rw [Goal.Plain, Goal.allPlain_iff] at plainParts
      have restricts := (bare.constrainAll constraints).of_returns returned next rfl
      rw [Goal.planned_eq restricts.bare.unplanned plans]
      refine Task.keepTo_singleton
        ⟨restricts.bare, List.forall_mem_append.mpr ⟨plainParts, later⟩⟩ ?_
      rw [Pending.quota_cons, Goal.most_conj]
      have less := Pending.quota_mono restricts.solutions_subset (parts ++ goals)
      exact less.trans (Pending.quota_append parts goals).le
  | @disj path ctx goals parts constraints result returned =>
      obtain ⟨bare, allPlain⟩ := plain
      obtain ⟨plainParts, later⟩ := List.forall_mem_cons.mp allPlain
      rw [Goal.Plain, Goal.allPlain_iff] at plainParts
      cases result with
      | none => exact Task.keepTo_nil _
      | some next =>
          have restricts := (bare.constrainAll constraints).of_returns returned next rfl
          rw [Option.toList_some, List.flatMap_singleton]
          apply (keepTo_branches _ restricts.bare plainParts later).mono
          rw [Pending.quota_cons, Goal.most_disj]
          have less := restricts.solutions_subset
          apply mul_le_mul' _ (Pending.quota_mono less goals)
          rw [← Goal.mosts_eq, ← Goal.mosts_eq]
          exact (Goal.mosts_mono less parts).sum_le_sum
  | fresh path ctx goals names body =>
      obtain ⟨bare, allPlain⟩ := plain
      obtain ⟨plainFresh, later⟩ := List.forall_mem_cons.mp allPlain
      have plainBody : body.Plain := plainFresh
      have named : ∀ v ∈ newVars first names.length, v ≠ .wildcard := by simp [newVars]
      have filled := Goal.plain_fresh plainBody names named
      refine Task.keepTo_singleton ⟨bare, ?_⟩ (Pending.quota_le_of_top (by rw [Goal.most]) _)
      exact List.forall_mem_cons.mpr ⟨filled, later⟩
  | delay path ctx goals body =>
      obtain ⟨bare, allPlain⟩ := plain
      obtain ⟨plainBody, later⟩ := List.forall_mem_cons.mp allPlain
      exact Task.keepTo_singleton ⟨bare, List.forall_mem_cons.mpr ⟨plainBody, later⟩⟩
        (Pending.quota_le_of_top (by rw [Goal.most]) _)
  | @call path ctx goals name args definition defined =>
      obtain ⟨bare, allPlain⟩ := plain
      obtain ⟨free, later⟩ := List.forall_mem_cons.mp allPlain
      have plainBody := Goal.plain_apply (plainDefinitions name definition defined) free
      exact Task.keepTo_singleton ⟨bare, List.forall_mem_cons.mpr ⟨plainBody, later⟩⟩
        (Pending.quota_le_of_top (by rw [Goal.most]) _)
  | relation path goals opened => exact keepTo_start path plain opened
  | exhausted => exact Task.keepTo_nil _
  | row path goals supply returned => exact keepTo_row _ _ _ plain supply returned
  | yieldThenAbort path ctx goals fault =>
      obtain ⟨bare, allPlain⟩ := plain
      exact Task.keepTo_singleton ⟨bare, (List.forall_mem_cons.mp allPlain).2⟩
        (Pending.quota_le_of_one_le (by rw [Goal.most]; exact le_top))

/-- A bag of tasks keeps to its quota, whether or not tasks are lost. -/
theorem Evolves.keepTo {lossy : Prop} (plainDefinitions : program.definitions.Plain)
    (evolves : Evolves program lossy first tasks allotted next) (plain : Task.AllPlain tasks) :
    Task.KeepTo (Task.quotas tasks) next := by
  induction evolves with
  | perm same =>
      refine ⟨fun task member => plain task (same.mem_iff.mpr member), ?_⟩
      exact (same.map _).sum_eq.ge
  | expand expands others =>
      rw [Task.AllPlain, List.forall_mem_cons] at plain
      rw [Task.quotas_cons]
      exact (expands.keepTo plainDefinitions plain.1).append ⟨plain.2, le_rfl⟩
  | drop _ task others =>
      rw [Task.AllPlain, List.forall_mem_cons] at plain
      refine ⟨plain.2, ?_⟩
      rw [Task.quotas_cons]
      exact le_add_self
  | trans _ _ first second =>
      have keep := first plain
      exact (second keep.1).mono keep.2

/-! ## The answers of a search -/

theorem Task.quotas_finished (answers : List (Path × Context)) :
    Task.quotas (answers.map Task.finished) = answers.length := by
  induction answers with
  | nil => rfl
  | cons answer answers ih =>
      rw [List.map_cons, Task.quotas_cons, ih, List.length_cons, Nat.cast_add, add_comm]
      rfl

/-- A search hands out no more contexts than the goal has answers at most. -/
theorem Goal.search_within_most {count : Nat} {before after : Session} {moves : List Move}
    (plainDefinitions : program.definitions.Plain) (plain : g.Plain) (bare : ctx.Bare)
    (ran : Runs (g.search program count ctx) before moves after) :
    (moves.filterMap Move.context?).length ≤ g.most ctx.substitution.solutions := by
  rcases g.search_evolves ctx count ran with ⟨allotted, answers, rest, evolves, yields, _⟩
  have start : Task.AllPlain [⟨[], .goals ctx [g]⟩] :=
    List.forall_mem_singleton.mpr ⟨bare, List.forall_mem_singleton.mpr plain⟩
  have within := (evolves.keepTo plainDefinitions start).2
  rw [Task.quotas_append, Task.quotas_finished] at within
  rw [← yields, List.length_map]
  calc (answers.length : ℕ∞) ≤ answers.length + Task.quotas rest := le_self_add
    _ ≤ Task.quotas [⟨[], .goals ctx [g]⟩] := within
    _ = g.most ctx.substitution.solutions := by simp [Pending.quota]

/-- A finite bound of a goal, if it is not saturated, limits the contexts that any search of the
goal hands out, in the context that the bound was found in and in every context that
further equations and constraints make of it. -/
theorem Goal.search_within_bound {ops : List Operation} {later : Context} {bound : SizeBound}
    (plainDefinitions : program.definitions.Plain) (plain : g.Plain) (bare : ctx.Bare)
    (bounded : g.bound ctx.substitution = .ok bound) (free : ∀ op ∈ ops, op.WildcardFree)
    (reached : Returns (Operation.runAll ctx ops) (some later)) {count : Nat}
    {before after : Session} {moves : List Move}
    (ran : Runs (g.search program count later) before moves after) :
    (∀ limit, bound.upper = some limit → limit < SizeBound.ceiling →
      (moves.filterMap Move.context?).length ≤ limit) ∧
    (bound.isZero = true → moves.filterMap Move.context? = []) := by
  have restricts := Operation.runAll_restricts bare free reached
  have limits : bound.Limits (moves.filterMap Move.context?).length := by
    intro limit isLimit below
    calc ((moves.filterMap Move.context?).length : ℕ∞)
        ≤ g.most later.substitution.solutions :=
          search_within_most plainDefinitions plain restricts.bare ran
      _ ≤ g.most ctx.substitution.solutions := most_mono restricts.solutions_subset g
      _ ≤ limit := limits_bound bare.acyclic g bound plain bounded limit isLimit below
  constructor
  · exact fun limit isLimit below => Nat.cast_le.mp (limits limit isLimit below)
  · intro zero
    exact List.length_eq_zero_iff.mp (Nat.cast_eq_zero.mp (limits.eq_zero zero))

theorem Context.bare_checked : Context.checked.Bare where
  unhooked := rfl
  unplanned := rfl
  checked := rfl
  acyclic := Substitution.acyclic_empty
  free := Substitution.wildcardFree_empty

/-- A variable stands in two tables of two rows, so there are at most four answers, also
when it must not be one; the one answer is found.  Nothing is found if a goal beside one
without a bound fails. -/
theorem Goal.search_within_bound_inBoth :
    let ops : List Operation := [.constrain (.neq (.var (.numbered 1)) (.int 1))]
    let failing : Goal := .conj [.delay .succeed, .fail] []
    Definitions.Plain [] ∧ Context.checked.Bare ∧ Goal.inBoth.Plain ∧ failing.Plain ∧
      Goal.inBoth.bound Context.checked.substitution = .ok (.exact 4) ∧
      failing.bound Context.checked.substitution = .ok (.exact 0) ∧
      (∀ op ∈ ops, op.WildcardFree) ∧ ∃ later moves none,
        Returns (Operation.runAll .checked ops) (some later) ∧
        (∃ after, Runs (Goal.inBoth.search ⟨[], 1⟩ 20 later) (.start 0 0) moves after) ∧
        (handedOut moves).card = 1 ∧ (moves.filterMap Move.context?).length ≤ 4 ∧
        (∃ after, Runs (failing.search ⟨[], 1⟩ 20 later) (.start 0 0) none after) ∧
        none.filterMap Move.context? = [] := by
  intro ops failing
  have noDefinitions : Definitions.Plain [] := nofun
  have bare := Context.bare_checked
  have plain : Goal.inBoth.Plain := by
    have free : ∀ t ∈ [Term.var (.numbered 1)], t.WildcardFree :=
      List.forall_mem_singleton.mpr (by decide)
    exact ⟨⟨⟨_, 1, [[.int 1], [.int 2]], rfl, rfl⟩, free⟩,
      ⟨⟨_, 1, [[.int 2], [.int 3]], rfl, rfl⟩, free⟩, trivial⟩
  have plainFailing : failing.Plain := ⟨trivial, trivial, trivial⟩
  have bounded : Goal.inBoth.bound Context.checked.substitution = .ok (.exact 4) := by
    decide +kernel
  have boundedFailing : failing.bound Context.checked.substitution = .ok (.exact 0) := rfl
  have free : ∀ op ∈ ops, op.WildcardFree := List.forall_mem_singleton.mpr trivial
  have steps : ∃ later, Returns (Operation.runAll .checked ops) (some later) ∧
      Engine.endsAfter (Goal.inBoth.search ⟨[], 1⟩ 20 later) (.start 0 0) 1 = true ∧
      Engine.endsAfter (failing.search ⟨[], 1⟩ 20 later) (.start 0 0) 0 = true :=
    ⟨_, ⟨.start 0 0, _, rfl⟩, by decide +kernel, by decide +kernel⟩
  rcases steps with ⟨later, reached, ends, endsFailing⟩
  rcases Engine.exists_exhausted ends with ⟨moves, after, ran, _, one⟩
  rcases Engine.exists_exhausted endsFailing with ⟨none, finish, ranFailing, _, _⟩
  refine ⟨noDefinitions, bare, plain, plainFailing, bounded, boundedFailing, free, later, moves,
    none, reached, ⟨after, ran⟩, one, ?_, ⟨finish, ranFailing⟩, ?_⟩
  · exact (search_within_bound noDefinitions plain bare bounded free reached ran).1 4 rfl
      (by decide)
  · exact (search_within_bound noDefinitions plainFailing bare boundedFailing free reached
      ranFailing).2 rfl

end RelationalSolver
