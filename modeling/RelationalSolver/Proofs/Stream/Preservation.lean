import RelationalSolver.Proofs.Relation.Shuffling
import RelationalSolver.Proofs.Stream.Answers

/-!
# Tasks hand their answers on

Every task of proper work hands its answers on when it does the first thing it has to
do, and so does a bag of tasks from which none is lost.
-/

namespace RelationalSolver

open Engine Constraint Pending

variable {ctx next : Context} {goals parts planned : List Goal} {definitions : Definitions}
variable {m : Leaf} {p q : Pending} {path : Path} {result : Option Context}

theorem Goal.Guarded.proper {g : Goal} (guarded : g.Guarded) (other : ∀ c, g ≠ .constrain c) :
    g.Proper := by
  rcases guarded with proper | ⟨c, same, _⟩
  · exact proper
  · exact absurd same (other c)

/-! ## One thing to be asked for -/

/-- Work for the same context with the same ways through it. -/
theorem Pending.HandedOn.of_leaves (sane : p.Sane definitions) (same : q.context = p.context)
    (guarded : ∀ g ∈ q.goalsLeft, g.Guarded) (tabular : q.Tabular)
    (leaves : ∀ depth, q.leaves (Goal.callLeaves definitions depth) =
      p.leaves (Goal.callLeaves definitions depth)) : HandedOn definitions [p] [q] := by
  apply HandedOn.of_eq
  · rw [List.forall_mem_singleton]
    constructor
    · rw [same]
      exact sane.tidy
    · exact guarded
    · exact tabular
    · intro depth
      rw [same, leaves]
      exact sane.honours depth
  · intro depth
    rw [allAnswers_cons, allAnswers_cons, Pending.answers, Pending.answers, same, leaves]

theorem Pending.HandedOn.of_no_leaves
    (none : ∀ depth, p.leaves (Goal.callLeaves definitions depth) = 0) :
    HandedOn definitions [p] [] := by
  apply HandedOn.of_eq (List.forall_mem_nil _)
  intro depth
  rw [allAnswers_cons, Pending.answers, none, Context.answers_zero, zero_add]

/-- What a context becomes by being asked for something goes on with the goals. -/
theorem Pending.ofContexts_answers (tidy : ctx.Tidy) (asked : ctx.Asked m result)
    (passes : ctx.Passes result) (guarded : ∀ g ∈ goals, g.Guarded)
    (honours : ∀ depth,
      ∀ ℓ ∈ (Goal.leavesOfAll (Goal.callLeaves definitions depth) goals).map m.and, ctx.Honours ℓ) :
    (∀ q ∈ (Task.ofContexts path result goals).map Task.pending, q.Sane definitions) ∧
      ∀ depth, allAnswers definitions depth ((Task.ofContexts path result goals).map Task.pending) =
        ctx.answers ((Goal.leavesOfAll (Goal.callLeaves definitions depth) goals).map m.and) := by
  cases result with
  | none =>
      refine ⟨List.forall_mem_nil _, ?_⟩
      exact fun depth => (asked.answers_eq_zero (honours depth)).symm
  | some next =>
      have sane : (Pending.goals next goals).Sane definitions := by
        constructor
        · exact tidy.passes passes rfl asked.1
        · exact guarded
        · trivial
        · exact fun depth => (asked.answers_eq (honours depth)).1
      constructor
      · exact List.forall_mem_singleton.mpr sane
      · intro depth
        rw [← (asked.answers_eq (honours depth)).2]
        exact add_zero _

/-- A goal that asks for one thing hands its answers on. -/
theorem Pending.HandedOn.of_asked {g : Goal}
    (sane : (Pending.goals ctx (g :: goals)).Sane definitions)
    (leaves : ∀ called, g.leaves called = {m}) (asked : ctx.Asked m result)
    (passes : ctx.Passes result) :
    HandedOn definitions [.goals ctx (g :: goals)]
      ((Task.ofContexts path result goals).map Task.pending) := by
  have whole : ∀ depth,
      (Pending.goals ctx (g :: goals)).leaves (Goal.callLeaves definitions depth) =
        (Goal.leavesOfAll (Goal.callLeaves definitions depth) goals).map m.and := by
    intro depth
    rw [Pending.leaves, Goal.leavesOfAll, leaves, Leaf.singleton_combine]
  have honours := sane.honours
  simp only [whole] at honours
  have later := (List.forall_mem_cons.mp sane.guarded).2
  rcases ofContexts_answers sane.tidy asked passes later honours with ⟨saneLater, same⟩
  apply HandedOn.of_eq saneLater
  intro depth
  rw [same, allAnswers_cons, allAnswers_nil, add_zero, Pending.answers, whole]

/-! ## Conjunctions -/

/-- Goals that stand for others have the same answers. -/
theorem Goal.Stands.answers {called : String → List Term → Multiset Leaf}
    (stands : Goal.Stands ctx.substitution parts planned) (guarded : ∀ g ∈ parts, g.Guarded)
    {ways : Multiset Leaf}
    (honours : ∀ ℓ ∈ Leaf.combine (leavesOfAll called parts) ways, ctx.Honours ℓ) :
    (∀ ℓ ∈ Leaf.combine (leavesOfAll called planned) ways, ctx.Honours ℓ) ∧
      ctx.answers (Leaf.combine (leavesOfAll called planned) ways) =
        ctx.answers (Leaf.combine (leavesOfAll called parts) ways) := by
  have within : ∀ ℓ ∈ Leaf.combine (leavesOfAll called parts) ways,
      ∀ θ ∈ ctx.left ℓ, Goal.Admit parts θ := by
    intro ℓ member θ solves
    rcases Leaf.mem_combine.mp member with ⟨m, here, k, _, rfl⟩
    exact Goal.admits_of_mem_leavesOfAll guarded here solves.2.1
  rcases stands with rearranges | ⟨rfl, excluded⟩
  · rcases rearranges.leaves with ⟨extra, implied, leaves⟩
    rw [leaves, Leaf.map_and_combine]
    have left : ∀ ℓ, ctx.left (extra.and ℓ) = ctx.left ℓ := by
      intro ℓ
      rw [Context.left, Context.left, Leaf.and, implied.solutions, Set.univ_inter]
    have survives : ∀ ℓ ∈ Leaf.combine (leavesOfAll called parts) ways,
        (ctx.Survives (extra.and ℓ) ↔ ctx.Survives ℓ) := by
      intro ℓ member
      rw [Context.Survives, Context.Survives, left]
      constructor
      · exact fun survives => ⟨survives.1, survives.2.2⟩
      · exact fun survives => ⟨survives.1,
          implied.permitted _ survives.1.2.1 survives.1.1 (within ℓ member), survives.2⟩
    constructor
    · intro ℓ member survivesHere
      rcases Multiset.mem_map.mp member with ⟨k, inside, rfl⟩
      have survivesThere := (survives k inside).mp survivesHere
      rcases honours k inside survivesThere with ⟨spared, promised⟩
      rw [left]
      exact ⟨spared,
        implied.promised _ spared.2.1 spared.1 (within k inside), promised⟩
    · symm
      apply Context.answers_map
      exact fun ℓ member => Context.remains_congr (left ℓ).symm (survives ℓ member).symm
  · have none : leavesOfAll called [.fail] = 0 := by
      rw [leavesOfAll_singleton]
      rfl
    rw [none, Leaf.zero_combine]
    refine ⟨fun ℓ member => absurd member (Multiset.notMem_zero ℓ), ?_⟩
    symm
    apply Context.answers_eq_zero
    intro ℓ member survives
    rcases survives.1.1 with ⟨θ, inside⟩
    exact excluded θ inside.1 (within ℓ member θ inside)

/-! ## Relations -/

theorem RowScan.rows_of_start {a : Application} {scan : RowScan} {facts : FactTable}
    (opened : start a ctx = .ok scan) (source : a.relation.source = .table facts) :
    ∃ rows, scan.rows = .listed rows ∧ rows.Perm (facts.matching (a.pattern ctx.substitution)) := by
  rcases (of_start opened).1 with ⟨total, supply⟩
  rw [rowsOf] at supply
  cases order : a.order with
  | natural =>
      simp only [order, source, FactSource.rows_table] at supply
      injection supply with supplied
      injection supplied with listed _
      exact ⟨_, listed.symm, .refl _⟩
  | shuffled seed =>
      simp only [order, source, FactSource.rows_table] at supply
      injection supply with supplied
      injection supplied with listed _
      exact ⟨_, listed.symm, Random.shuffle_perm seed _⟩

/-- Rows that do not agree with the bindings have no answers, so a look-up loses
none. -/
theorem Context.answers_rows {a : Application} {facts : FactTable} {rows : List Row}
    (acyclic : ctx.substitution.Acyclic) (source : a.relation.source = .table facts)
    (wellFormed : facts.WellFormed)
    (same : rows.Perm (facts.matching (a.pattern ctx.substitution))) (ways : Multiset Leaf) :
    Leaf.ofRows a.args rows ≤ a.leaves ∧
      ctx.answers (Leaf.combine (Leaf.ofRows a.args rows) ways) =
        ctx.answers (Leaf.combine a.leaves ways) := by
  generalize asked : a.pattern ctx.substitution = pattern at same
  rw [wellFormed.matching_eq] at same
  have parts : a.leaves = Leaf.ofRows a.args rows +
      Leaf.ofRows a.args (facts.rows.toList.filter fun row => !pattern.agrees row) := by
    rw [Leaf.ofRows_perm a.args same, ← Leaf.ofRows_append,
      Leaf.ofRows_perm a.args (List.filter_append_perm _ _)]
    rw [Application.leaves_eq source]
  have nothing : ctx.answers (Leaf.combine (Leaf.ofRows a.args
      (facts.rows.toList.filter fun row => !pattern.agrees row)) ways) = 0 := by
    apply answers_eq_zero
    intro ℓ member survives
    rcases Leaf.mem_combine.mp member with ⟨m, first, k, _, rfl⟩
    rcases Multiset.mem_map.mp first with ⟨row, among, rfl⟩
    rcases List.mem_filter.mp (Multiset.mem_coe.mp among) with ⟨inside, apart⟩
    rcases survives.1.1 with ⟨θ, solves, equal, _⟩
    have differs : (a.pattern ctx.substitution).agrees row = false := by
      rw [asked]
      simpa using apart
    exact Application.not_pairUnifiers_of_not_agrees acyclic solves
      (wellFormed.ground row inside) differs equal
  constructor
  · rw [parts]
    exact Multiset.le_add_right _ _
  · rw [parts, Leaf.add_combine, answers_add, nothing, add_zero]

/-- A relation hands its answers on to the rows that are looked up. -/
theorem Pending.HandedOn.of_start {a : Application} {scan : RowScan}
    (sane : (Pending.goals ctx (.relation a :: goals)).Sane definitions)
    (opened : RowScan.start a ctx = .ok scan) :
    HandedOn definitions [.goals ctx (.relation a :: goals)] [.scan scan goals] := by
  rcases List.forall_mem_cons.mp sane.guarded with ⟨here, there⟩
  rcases here.proper (by simp) with ⟨⟨facts, arity, listed, source, made⟩, free⟩
  have wellFormed := FactTable.wellFormed_of_ofRows made
  rcases RowScan.of_start opened with ⟨_, sameArgs, rfl, _⟩
  rcases RowScan.rows_of_start opened source with ⟨rows, supply, same⟩
  have acyclic : scan.context.substitution.Acyclic := sane.tidy.orderly.acyclic
  have leaves : scan.leaves = Leaf.ofRows a.args rows := by
    rw [RowScan.leaves, supply, sameArgs]
  have rowsOnly := fun ways => Context.answers_rows acyclic source wellFormed same ways
  apply HandedOn.of_eq
  · rw [List.forall_mem_singleton]
    constructor
    · exact sane.tidy
    · exact there
    · refine ⟨sameArgs ▸ free, rows, supply, ?_⟩
      intro row member
      apply wellFormed.ground row
      rw [wellFormed.matching_eq] at same
      exact List.mem_of_mem_filter (same.mem_iff.mp member)
    · intro depth ℓ member
      apply sane.honours depth
      rw [Pending.leaves, leaves] at member
      exact Multiset.mem_of_le (Leaf.combine_le (rowsOnly 0).1 le_rfl) member
  · intro depth
    have same := (rowsOnly (Goal.leavesOfAll (Goal.callLeaves definitions depth) goals)).2
    rw [← leaves] at same
    rw [allAnswers_cons, allAnswers_cons]
    exact congrArg (· + 0) same

/-- A scan hands its answers on to its first row and to the scan of the others. -/
theorem Pending.HandedOn.of_row {scan : RowScan} {row : Row} {rows : RowSupply} {index : Nat}
    (sane : (Pending.scan scan goals).Sane definitions) (supply : scan.rows.next = some (row, rows))
    (returned : Returns (scan.context.unifyAll scan.args row) result) :
    HandedOn definitions [.scan scan goals]
      ((Task.ofContexts path result goals).map Task.pending ++
        [.scan { scan with rows := rows, index := index } goals]) := by
  rcases sane.tabular with ⟨free, listed, isListed, ground⟩
  cases listed with
  | nil =>
      rw [isListed] at supply
      cases supply
  | cons first rest =>
      rw [isListed] at supply
      cases supply
      rcases List.forall_mem_cons.mp ground with ⟨groundHere, groundThere⟩
      have asked := sane.tidy.orderly.unifyAll_asked free
        (fun t member => Term.isGround_iff.mp (groundHere t member) .wildcard) returned
      have passes := (Context.unifyAll_detached scan.context scan.args row).of_returns returned
      let ways := fun depth => Goal.leavesOfAll (Goal.callLeaves definitions depth) goals
      have split : ∀ depth, (Pending.scan scan goals).leaves (Goal.callLeaves definitions depth) =
          (ways depth).map (Leaf.ofSolutions (pairUnifiers scan.args row)).and +
            Leaf.combine (Leaf.ofRows scan.args rest) (ways depth) := by
        intro depth
        rw [Pending.leaves, RowScan.leaves, isListed]
        dsimp only
        rw [Leaf.ofRows_cons, Leaf.add_combine, Leaf.singleton_combine]
      have honours := sane.honours
      simp only [split, Multiset.mem_add, or_imp, forall_and] at honours
      have later : ∀ g ∈ goals, g.Guarded := sane.guarded
      rcases ofContexts_answers sane.tidy asked passes later honours.1 with ⟨saneNext, same⟩
      apply HandedOn.of_eq
      · rw [List.forall_mem_append, List.forall_mem_singleton]
        refine ⟨saneNext, ?_⟩
        exact ⟨sane.tidy, sane.guarded, ⟨free, rest, rfl, groundThere⟩, honours.2⟩
      · intro depth
        rw [allAnswers_append, same, allAnswers_cons, allAnswers_cons, allAnswers_nil, add_zero,
          add_zero, Pending.answers, Pending.answers, split, Context.answers_add]
        rfl

/-! ## Branches and bodies -/

theorem Pending.allAnswers_branches (depth : Nat) :
    allAnswers definitions depth (parts.map fun part => .goals ctx (part :: goals)) =
      ctx.answers (Leaf.combine (Goal.leavesOfSome (Goal.callLeaves definitions depth) parts)
        (Goal.leavesOfAll (Goal.callLeaves definitions depth) goals)) := by
  induction parts with
  | nil =>
      rw [Goal.leavesOfSome, Leaf.zero_combine, Context.answers_zero]
      rfl
  | cons part parts ih =>
      rw [List.map_cons, allAnswers_cons, ih, Goal.leavesOfSome, Leaf.add_combine,
        Context.answers_add]
      rfl

theorem Pending.leaves_branch_le {part : Goal} (member : part ∈ parts) (depth : Nat) :
    (Pending.goals ctx (part :: goals)).leaves (Goal.callLeaves definitions depth) ≤
      Leaf.combine (Goal.leavesOfSome (Goal.callLeaves definitions depth) parts)
        (Goal.leavesOfAll (Goal.callLeaves definitions depth) goals) := by
  apply Leaf.combine_le _ le_rfl
  induction parts with
  | nil => cases member
  | cons first parts ih =>
      rw [Goal.leavesOfSome]
      rcases List.mem_cons.mp member with rfl | member
      · exact Multiset.le_add_right _ _
      · exact (ih member).trans (Multiset.le_add_left _ _)

/-- A disjunction hands its answers on to its branches. -/
theorem Pending.HandedOn.of_disj {constraints : List Constraint}
    (sane : (Pending.goals ctx (.disj parts constraints :: goals)).Sane definitions)
    (returned : Returns (ctx.constrainAll constraints) result) :
    HandedOn definitions [.goals ctx (.disj parts constraints :: goals)]
      (result.toList.flatMap fun next => parts.map fun part => .goals next (part :: goals)) := by
  rcases List.forall_mem_cons.mp sane.guarded with ⟨here, there⟩
  rcases here.proper (by simp) with ⟨properParts, properConstraints⟩
  rw [Goal.allProper_iff] at properParts
  have asked := sane.tidy.orderly.constrainAll_asked
    (fun c member => .inl (properConstraints c member)) returned
  have passes := (Context.constrainAll_detached constraints).of_returns returned
  let ways := fun depth =>
    Leaf.combine (Goal.leavesOfSome (Goal.callLeaves definitions depth) parts)
      (Goal.leavesOfAll (Goal.callLeaves definitions depth) goals)
  have whole : ∀ depth, (Pending.goals ctx (.disj parts constraints :: goals)).leaves
      (Goal.callLeaves definitions depth) =
        (ways depth).map (Leaf.ofConstraints constraints).and := by
    intro depth
    rw [Pending.leaves, Goal.leavesOfAll, Goal.leaves, Leaf.map_and_combine]
  have honours := sane.honours
  simp only [whole] at honours
  cases result with
  | none =>
      apply HandedOn.of_eq (List.forall_mem_nil _)
      intro depth
      rw [allAnswers_cons, Pending.answers, whole, allAnswers_nil, add_zero]
      exact (asked.answers_eq_zero (honours depth)).symm
  | some next =>
      have branches : ([next].flatMap fun next => parts.map fun part =>
          Pending.goals next (part :: goals)) = parts.map fun part => .goals next (part :: goals) :=
        List.flatMap_singleton _ _
      rw [Option.toList_some, branches]
      apply HandedOn.of_eq
      · rw [List.forall_mem_map]
        intro part member
        constructor
        · exact sane.tidy.passes passes rfl asked.1
        · exact List.forall_mem_cons.mpr ⟨.inl (properParts part member), there⟩
        · trivial
        · intro depth ℓ inside
          exact (asked.answers_eq (honours depth)).1 ℓ
            (Multiset.mem_of_le (leaves_branch_le member depth) inside)
      · intro depth
        rw [allAnswers_branches, allAnswers_cons, Pending.answers, whole, allAnswers_nil, add_zero]
        exact (asked.answers_eq (honours depth)).2

theorem Pending.leaves_conj {constraints : List Constraint} (depth : Nat) :
    (Pending.goals ctx (.conj parts constraints :: goals)).leaves
      (Goal.callLeaves definitions depth) =
        (Leaf.combine (Goal.leavesOfAll (Goal.callLeaves definitions depth) parts)
          (Goal.leavesOfAll (Goal.callLeaves definitions depth) goals)).map
            (Leaf.ofConstraints constraints).and := by
  rw [Pending.leaves, Goal.leavesOfAll, Goal.leaves, Leaf.map_and_combine]

/-- A conjunction whose constraints are refused has no answers. -/
theorem Pending.HandedOn.of_refused {constraints : List Constraint}
    (sane : (Pending.goals ctx (.conj parts constraints :: goals)).Sane definitions)
    (returned : Returns (ctx.constrainAll constraints) none) :
    HandedOn definitions [.goals ctx (.conj parts constraints :: goals)] [] := by
  rcases List.forall_mem_cons.mp sane.guarded with ⟨here, _⟩
  rcases here.proper (by simp) with ⟨_, properConstraints⟩
  have asked := sane.tidy.orderly.constrainAll_asked
    (fun c member => .inl (properConstraints c member)) returned
  have honours := sane.honours
  simp only [leaves_conj] at honours
  apply HandedOn.of_eq (List.forall_mem_nil _)
  intro depth
  rw [allAnswers_cons, Pending.answers, leaves_conj, allAnswers_nil, add_zero]
  exact (asked.answers_eq_zero (honours depth)).symm

/-- A conjunction hands its answers on to the goals that stand for its own. -/
theorem Pending.HandedOn.of_conj {constraints : List Constraint}
    (sane : (Pending.goals ctx (.conj parts constraints :: goals)).Sane definitions)
    (returned : Returns (ctx.constrainAll constraints) (some next))
    (plans : Returns (Goal.planned next parts) planned) :
    HandedOn definitions [.goals ctx (.conj parts constraints :: goals)]
      [.goals next (planned ++ goals)] := by
  rcases List.forall_mem_cons.mp sane.guarded with ⟨here, there⟩
  rcases here.proper (by simp) with ⟨properParts, properConstraints⟩
  rw [Goal.allProper_iff] at properParts
  have guarded : ∀ g ∈ parts, g.Guarded := fun g member => .inl (properParts g member)
  have asked := sane.tidy.orderly.constrainAll_asked
    (fun c member => .inl (properConstraints c member)) returned
  have tidy : next.Tidy := sane.tidy.passes
    ((Context.constrainAll_detached constraints).of_returns returned) rfl asked.1
  have stands := Goal.planned_stands tidy.lets tidy.orderly.acyclic guarded plans
  have after : ∀ depth, (Pending.goals next (planned ++ goals)).leaves
      (Goal.callLeaves definitions depth) =
        Leaf.combine (Goal.leavesOfAll (Goal.callLeaves definitions depth) planned)
          (Goal.leavesOfAll (Goal.callLeaves definitions depth) goals) :=
    fun depth => Goal.leavesOfAll_append _ planned goals
  have honours := sane.honours
  simp only [leaves_conj] at honours
  have kept := fun depth => asked.answers_eq (honours depth)
  have same := fun depth => stands.answers guarded (kept depth).1
  apply HandedOn.of_eq
  · rw [List.forall_mem_singleton]
    constructor
    · exact tidy
    · exact List.forall_mem_append.mpr ⟨stands.guarded, there⟩
    · trivial
    · intro depth
      rw [after]
      exact (same depth).1
  · intro depth
    rw [allAnswers_cons, allAnswers_cons, Pending.answers, Pending.answers, after, leaves_conj]
    exact congrArg (· + 0) ((same depth).2.trans (kept depth).2)

/-- A call hands its answers on to the body, which is unfolded once more then. -/
theorem Pending.HandedOn.of_call {name : String} {args : List Term} {definition : Definition}
    (proper : definitions.Proper)
    (sane : (Pending.goals ctx (.call name args :: goals)).Sane definitions)
    (defined : definitions.lookup name = some definition) :
    HandedOn definitions [.goals ctx (.call name args :: goals)]
      [.goals ctx (definition.apply args :: goals)] := by
  rcases List.forall_mem_cons.mp sane.guarded with ⟨here, there⟩
  have body : (definition.apply args).Proper :=
    Goal.proper_apply (proper name definition defined) (here.proper (by simp))
  have unfolded : ∀ depth, Goal.callLeaves definitions (depth + 1) name args =
      (definition.apply args).leaves (Goal.callLeaves definitions depth) := by
    intro depth
    rw [Goal.callLeaves, defined]
  have later : ∀ depth, (Pending.goals ctx (definition.apply args :: goals)).leaves
      (Goal.callLeaves definitions depth) ≤
        (Pending.goals ctx (.call name args :: goals)).leaves
          (Goal.callLeaves definitions (depth + 1)) := by
    intro depth
    apply Leaf.combine_le
    · exact (unfolded depth).ge
    · exact Goal.leavesOfAll_le (Goal.callLeaves_le_succ definitions depth) goals
  have earlier : ∀ depth, (Pending.goals ctx (.call name args :: goals)).leaves
      (Goal.callLeaves definitions depth) ≤
        (Pending.goals ctx (definition.apply args :: goals)).leaves
          (Goal.callLeaves definitions depth) := by
    intro depth
    apply Leaf.combine_le _ le_rfl
    rw [← unfolded]
    exact Goal.callLeaves_le_succ definitions depth name args
  constructor
  · rw [List.forall_mem_singleton]
    constructor
    · exact sane.tidy
    · exact List.forall_mem_cons.mpr ⟨.inl body, there⟩
    · trivial
    · exact fun depth ℓ member =>
        sane.honours (depth + 1) ℓ (Multiset.mem_of_le (later depth) member)
  · intro depth
    rw [allAnswers_cons, allAnswers_cons]
    exact add_le_add (Context.answers_le (earlier depth)) le_rfl
  · refine ⟨1, ?_⟩
    intro depth
    rw [allAnswers_cons, allAnswers_cons]
    exact add_le_add (Context.answers_le (later depth)) le_rfl

/-! ## Tasks -/

variable {program : Program} {first : Nat} {task : Task} {expanded tasks after : List Task}
variable {allotted : Allotments}

theorem pending_mapIdx (path : Path) (parts goals : List Goal) :
    (parts.mapIdx fun i part => (⟨path ++ [.branch i], .goals ctx (part :: goals)⟩ : Task)).map
      Task.pending = parts.map fun part => .goals ctx (part :: goals) := by
  apply List.ext_getElem?
  intro i
  simp only [List.getElem?_map, List.getElem?_mapIdx, Option.map_map]
  rfl

/-- A task hands its answers on to the tasks that it leads to. -/
theorem Expands.handedOn (expands : Expands program first task expanded allotted)
    (proper : program.definitions.Proper) (sane : task.pending.Sane program.definitions) :
    HandedOn program.definitions [task.pending] (expanded.map Task.pending) := by
  cases expands with
  | succeed path ctx goals =>
      have later := (List.forall_mem_cons.mp sane.guarded).2
      change HandedOn program.definitions _ [.goals ctx goals]
      exact .of_leaves sane rfl later trivial fun depth => (Leaf.all_combine _).symm
  | fail path ctx goals =>
      apply HandedOn.of_no_leaves
      intro depth
      rw [Pending.leaves, Goal.leavesOfAll, Goal.leaves, Leaf.zero_combine]
  | equal path goals returned =>
      rcases (sane.guarded _ List.mem_cons_self).proper (by simp) with ⟨left, right⟩
      exact .of_asked sane (fun _ => rfl)
        (sane.tidy.orderly.unify_asked left right returned)
        ((Context.unify_detached _ _ _).of_returns returned)
  | @constrain path ctx goals c result returned =>
      have guarded : c.Guarded := by
        rcases sane.guarded _ List.mem_cons_self with proper | ⟨d, same, guarded⟩
        · exact .inl proper
        · cases same
          exact guarded
      exact .of_asked sane (fun _ => rfl) (sane.tidy.orderly.constrain_asked guarded returned)
        ((Context.constrain_detached c).of_returns returned)
  | refused path goals returned => exact .of_refused sane returned
  | conj path goals returned plans => exact .of_conj sane returned plans
  | disj path goals returned =>
      rw [List.map_flatMap]
      simp only [pending_mapIdx]
      exact .of_disj sane returned
  | fresh path ctx goals names body =>
    exact ((sane.guarded _ List.mem_cons_self).proper (by simp)).elim
  | delay path ctx goals body =>
      rcases List.forall_mem_cons.mp sane.guarded with ⟨here, there⟩
      have proper : body.Proper := here.proper (by simp)
      change HandedOn program.definitions _ [.goals ctx (body :: goals)]
      exact .of_leaves sane rfl (List.forall_mem_cons.mpr ⟨.inl proper, there⟩) trivial
        fun depth => rfl
  | call path ctx goals args defined => exact .of_call proper sane defined
  | relation path goals opened => exact .of_start sane opened
  | @exhausted path scan goals ended =>
      rcases sane.tabular with ⟨_, rows, listed, _⟩
      cases rows with
      | cons row rows =>
          rw [listed] at ended
          cases ended
      | nil =>
          have none : scan.leaves = 0 := by
            rw [RowScan.leaves, listed]
            rfl
          apply HandedOn.of_no_leaves
          intro depth
          rw [Pending.leaves, none, Leaf.zero_combine]
  | row path goals next returned =>
      rw [List.map_append]
      exact .of_row sane next returned
  | yieldThenAbort path ctx goals fault =>
      exact ((sane.guarded _ List.mem_cons_self).proper (by simp)).elim

/-- A bag of tasks from which none is lost hands its answers on. -/
theorem Evolves.handedOn (evolves : Evolves program False first tasks allotted after)
    (proper : program.definitions.Proper)
    (sane : ∀ p ∈ tasks.map Task.pending, p.Sane program.definitions) :
    HandedOn program.definitions (tasks.map Task.pending) (after.map Task.pending) := by
  induction evolves with
  | perm same => exact .of_perm sane (same.map _)
  | expand expands others =>
      rcases List.forall_mem_cons.mp sane with ⟨here, there⟩
      rw [List.map_append]
      exact (expands.handedOn proper here).append_right there
  | drop allowed => exact allowed.elim
  | trans _ _ one two =>
      have earlier := one sane
      exact earlier.trans (two earlier.sane)

end RelationalSolver
