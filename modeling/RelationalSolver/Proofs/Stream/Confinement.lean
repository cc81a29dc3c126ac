import RelationalSolver.Proofs.Context.Confinement
import RelationalSolver.Proofs.Context.Operations
import RelationalSolver.Proofs.Goal.Reported
import RelationalSolver.Proofs.Planning.Provenance
import RelationalSolver.Proofs.Stream.Execution
import RelationalSolver.Proofs.Stream.Preservation

/-!
# Searches bind only what their goals report

A set of variables that no binding leads out of, and that holds what a goal reports, is left
by no task of its search: contexts and goals that are within the set lead to others that are.
So the contexts that a search hands out bind only variables that the goal reports, or that
are reached from those.
-/

namespace RelationalSolver

open Engine

variable {program : Program} {base ctx next : Context} {inside : Set Var} {goals : List Goal}
  {task : Task} {tasks expanded others : List Task} {first : Nat} {allotted : Allotments}

/-- A goal of a plan is over the set if the goals of the conjunction are. -/
theorem Goal.StemsFrom.within {g : Goal} {origin : Option Goal} (stems : g.StemsFrom origin)
    (within : ∀ h ∈ origin, h.Within inside) : g.Within inside := by
  cases stems with
  | itself g => exact within g rfl
  | reordered a order => exact within (.relation a) rfl
  | restriction | guard => trivial

theorem Goal.planned_confined {planned : List Goal} (within : Goal.AllWithin inside goals)
    (returned : Returns (Goal.planned ctx goals) planned) : ∀ g ∈ planned, g.Within inside := by
  rw [Goal.allWithin_iff] at within
  intro g member
  obtain rfl | ⟨origin, stems, among⟩ := Goal.planned_stems returned g member
  · trivial
  · exact stems.within fun h same => within h (among h same)

/-- What is still to be done is over the set, in a context that was confined to it. -/
def Pending.Confined (inside : Set Var) (base : Context) : Pending → Prop
  | .goals ctx left => Context.Confined inside base ctx ∧ ∀ g ∈ left, g.Within inside
  | .scan tried left => Context.Confined inside base tried.context ∧
      (∀ g ∈ left, g.Within inside) ∧
      (∀ t ∈ tried.args, t.Within inside) ∧
      ∃ rows, tried.rows = .listed rows ∧ ∀ row ∈ rows, ∀ t ∈ row, t.Within inside
  | .foreign => False

/-- Every task is. -/
def Task.AllConfined (inside : Set Var) (base : Context) (tasks : List Task) : Prop :=
  ∀ task ∈ tasks, task.pending.Confined inside base

namespace Task

theorem allConfined_ofContexts {result : Option Context} (path : Path)
    (leaves : Context.Leaves (Context.Confined inside) base result)
    (within : ∀ g ∈ goals, g.Within inside) :
    AllConfined inside base (ofContexts path result goals) := by
  cases result with
  | none => exact List.forall_mem_nil _
  | some next => exact List.forall_mem_singleton.mpr ⟨leaves next rfl, within⟩

end Task

/-! ## Expanding a task -/

/-- The rows of a table are ground, so they are over every set. -/
theorem confined_start {a : Application} {scan : RowScan}
    (confined : (Pending.goals ctx (.relation a :: goals)).Confined inside base)
    (opened : RowScan.start a ctx = .ok scan) : (Pending.scan scan goals).Confined inside base := by
  obtain ⟨here, allWithin⟩ := confined
  obtain ⟨⟨⟨facts, arity, listed, source, made⟩, args⟩, later⟩ :=
    List.forall_mem_cons.mp allWithin
  have wellFormed := FactTable.wellFormed_of_ofRows made
  obtain ⟨_, sameArgs, rfl, _⟩ := RowScan.of_start opened
  obtain ⟨rows, supply, same⟩ := RowScan.rows_of_start opened source
  rw [wellFormed.matching_eq] at same
  refine ⟨here, later, sameArgs ▸ args, rows, supply, ?_⟩
  intro row member t among v mentioned
  have ground := wellFormed.ground row (List.mem_of_mem_filter (same.mem_iff.mp member)) t among
  rw [Term.isGround_iff.mp ground v] at mentioned
  cases mentioned

theorem confined_row {scan : RowScan} {row : Row} {rows : RowSupply} {result : Option Context}
    (only : base.OnlyObserved) (path last : Path) (index : Nat)
    (confined : (Pending.scan scan goals).Confined inside base)
    (supply : scan.rows.next = some (row, rows))
    (returned : Returns (scan.context.unifyAll scan.args row) result) :
    Task.AllConfined inside base (Task.ofContexts path result goals ++
      [⟨last, .scan { scan with rows := rows, index := index } goals⟩]) := by
  obtain ⟨here, later, args, listed, isListed, allWithin⟩ := confined
  cases listed with
  | nil =>
      rw [isListed] at supply
      cases supply
  | cons first rest =>
      rw [isListed] at supply
      cases supply
      rw [List.forall_mem_cons] at allWithin
      have leaves := (here.unifyAll only args allWithin.1).of_returns returned
      refine List.forall_mem_append.mpr ⟨Task.allConfined_ofContexts path leaves later, ?_⟩
      exact List.forall_mem_singleton.mpr ⟨here, later, args, rest, rfl, allWithin.2⟩

/-- A task that does the first thing it has to do leads to confined tasks. -/
theorem Expands.confined (only : base.OnlyObserved)
    (expands : Expands program first task expanded allotted)
    (confined : task.pending.Confined inside base) : Task.AllConfined inside base expanded := by
  cases expands with
  | succeed path ctx goals =>
      exact List.forall_mem_singleton.mpr ⟨confined.1, (List.forall_mem_cons.mp confined.2).2⟩
  | fail path ctx goals => exact List.forall_mem_nil _
  | equal path goals returned =>
      obtain ⟨⟨left, right⟩, later⟩ := List.forall_mem_cons.mp confined.2
      exact Task.allConfined_ofContexts path
        ((confined.1.unify only left right).of_returns returned) later
  | @constrain path ctx goals c result returned =>
      exact Task.allConfined_ofContexts path ((confined.1.constrain c).of_returns returned)
        (List.forall_mem_cons.mp confined.2).2
  | refused => exact List.forall_mem_nil _
  | @conj path ctx next goals parts planned constraints returned plans =>
      obtain ⟨parts, later⟩ := List.forall_mem_cons.mp confined.2
      refine List.forall_mem_singleton.mpr
        ⟨(confined.1.constrainAll constraints).of_returns returned next rfl, ?_⟩
      exact List.forall_mem_append.mpr ⟨Goal.planned_confined parts plans, later⟩
  | @disj path ctx goals parts constraints result returned =>
      obtain ⟨within, later⟩ := List.forall_mem_cons.mp confined.2
      have leaves := (confined.1.constrainAll constraints).of_returns returned
      intro task member
      obtain ⟨next, among, member⟩ := List.mem_flatMap.mp member
      obtain ⟨i, inRange, rfl⟩ := List.mem_mapIdx.mp member
      have here := Goal.allWithin_iff.mp within parts[i] (List.getElem_mem inRange)
      exact ⟨leaves next (Option.mem_toList.mp among), List.forall_mem_cons.mpr ⟨here, later⟩⟩
  | fresh path ctx goals names body => exact (List.forall_mem_cons.mp confined.2).1.elim
  | delay path ctx goals body => exact (List.forall_mem_cons.mp confined.2).1.elim
  | call path ctx goals => exact (List.forall_mem_cons.mp confined.2).1.elim
  | relation path goals opened =>
      exact List.forall_mem_singleton.mpr (confined_start confined opened)
  | exhausted => exact List.forall_mem_nil _
  | row path goals supply returned => exact confined_row only _ _ _ confined supply returned
  | yieldThenAbort path ctx goals fault => exact (List.forall_mem_cons.mp confined.2).1.elim

/-- A bag of confined tasks stays confined, whether or not tasks are lost. -/
theorem Evolves.confined {lossy : Prop} (only : base.OnlyObserved)
    (evolves : Evolves program lossy first tasks allotted others)
    (confined : Task.AllConfined inside base tasks) : Task.AllConfined inside base others := by
  induction evolves with
  | perm same => exact fun task member => confined task (same.mem_iff.mpr member)
  | expand expands others =>
      obtain ⟨here, there⟩ := List.forall_mem_cons.mp confined
      exact List.forall_mem_append.mpr ⟨expands.confined only here, there⟩
  | drop _ task others => exact (List.forall_mem_cons.mp confined).2
  | trans _ _ first second => exact second (first confined)

/-! ## The answers of a search -/

/-- What an immediate goal binds is reached from the variables that it reports, and nothing
but bindings, counters and constraints is written, whatever the planner and the observers. -/
theorem Goal.search_binds_reported {g : Goal} (immediate : g.Immediate)
    (only : ctx.OnlyObserved) (orderly : ctx.substitution.Orderly) :
    ∃ vars, g.vars? = some vars ∧
      ∀ (program : Program) (count : Nat) (before after : Session) (moves : List Move),
        Runs (g.search program count ctx) before moves after →
          ∀ next ∈ moves.filterMap Move.context?,
            next.substitution.Extends ctx.substitution ∧
            (∀ v, next.substitution.lookup v ≠ none → ctx.substitution.lookup v = none →
              v ∈ PlannedGoal.reached ctx.substitution vars) ∧
            Context.Keeps FacetKey.IsAside ctx next := by
  obtain ⟨vars, reports⟩ := immediate.exists_vars?
  refine ⟨vars, reports, ?_⟩
  intro program count before after moves ran next member
  obtain ⟨allotted, answers, rest, evolves, yields, _⟩ := g.search_evolves ctx count ran
  have start : Task.AllConfined (ctx.substitution.reachedFrom vars) ctx
      [⟨[], .goals ctx [g]⟩] := by
    refine List.forall_mem_singleton.mpr ⟨⟨.refl orderly (orderly.encloses vars), .refl ctx⟩, ?_⟩
    refine List.forall_mem_singleton.mpr (Goal.within_of_vars? (.inl rfl) g reports ?_ immediate)
    exact fun v member => .inr ⟨v, member, .refl⟩
  rw [← yields] at member
  obtain ⟨answer, among, rfl⟩ := List.mem_map.mp member
  have confined := (evolves.confined only start (Task.finished answer)
    (List.mem_append_left _ (List.mem_map_of_mem among))).1
  refine ⟨confined.bindings.extended, fun v bound unbound => ?_, confined.aside⟩
  obtain rfl | ⟨u, reported, path⟩ := confined.bindings.added v bound unbound
  · exact absurd confined.bindings.orderly.anonymous bound
  · refine mem_foldl_appendAllNew.mpr (.inr ⟨u, reported, ?_⟩)
    apply Substitution.mem_freeVars ⟨u, Term.mentions_var.mpr rfl, path⟩ unbound
    rintro rfl
    exact bound confined.bindings.orderly.anonymous

/-- A context with a planner, in which a variable is bound to a pair that holds another. -/
def Context.paired : Context :=
  (Context.checked.put .substitutions
    (Substitution.empty.insert (.numbered 1) (.compound "" [.var (.numbered 2), .int 1]))).put
      .planner [.cardinality]

/-- Equating the variable with a pair binds the other one, which is reached from it. -/
theorem Goal.search_binds_reported_inside :
    let g : Goal := .conj [.succeed, .equal (.var (.numbered 1)) (.compound "" [.int 2, .int 1])] []
    g.Immediate ∧ Context.paired.OnlyObserved ∧ Context.paired.substitution.Orderly ∧
      g.vars? = some [.numbered 1] ∧ ∃ moves after next,
        Runs (g.search ⟨[], 1⟩ 3 Context.paired) (.start 0 0) moves after ∧
        next ∈ moves.filterMap Move.context? ∧
        next.substitution.lookup (.numbered 2) = some (.int 2) ∧
        .numbered 2 ∈ PlannedGoal.reached Context.paired.substitution [.numbered 1] := by
  intro g
  have immediate : g.Immediate := ⟨trivial, trivial, trivial⟩
  have only : Context.paired.OnlyObserved := ⟨nofun, nofun⟩
  have orderly : Context.paired.substitution.Orderly :=
    (Substitution.built_single "" _ (by decide)).orderly
  have reports : g.vars? = some [.numbered 1] := rfl
  have run : ∃ moves after next,
      Runs (g.search ⟨[], 1⟩ 3 Context.paired) (.start 0 0) moves after ∧
        moves.filterMap Move.context? = [next] ∧
        next.substitution.lookup (.numbered 2) = some (.int 2) := ⟨_, _, _, rfl, rfl, rfl⟩
  obtain ⟨moves, after, next, ran, one, bound⟩ := run
  have member : next ∈ moves.filterMap Move.context? := by simp [one]
  obtain ⟨vars, known, binds⟩ := Goal.search_binds_reported immediate only orderly
  cases reports.symm.trans known
  have added := (binds _ _ _ _ _ ran next member).2.1 (.numbered 2) (by simp [bound]) rfl
  exact ⟨immediate, only, orderly, reports, moves, after, next, ran, member, bound, added⟩

end RelationalSolver
