import Mathlib.Data.Multiset.ZeroCons
import RelationalSolver.Proofs.Context.Operations
import RelationalSolver.Proofs.Stream.Preservation

/-!
# Planning keeps the answers

A conjunction is run twice from a context to which equations and constraints were
added, once as it is and once with passes that plan it and all conjunctions inside it.
If both runs come to their end, they hand out the same answers, up to the order and
the names of unbound variables.
-/

namespace RelationalSolver

open Engine Constraint Pending

variable {ctx installed : Context} {definitions : Definitions} {passes : Pipeline} {g : Goal}

namespace Context

theorem substitution_put_planner : (ctx.put .planner passes).substitution = ctx.substitution :=
  get_put_of_ne (by decide)

theorem pending_put_planner : (ctx.put .planner passes).pending = ctx.pending :=
  get_put_of_ne (by decide)

theorem Orderly.put_planner {Member : Constraint → Prop} (orderly : ctx.Orderly Member) :
    (ctx.put .planner passes).Orderly Member where
  quiet := orderly.quiet.put rfl (by decide) (by decide)
  acyclic := by
    rw [substitution_put_planner]
    exact orderly.acyclic
  plain := by
    rw [substitution_put_planner]
    exact orderly.plain
  attended := by
    rw [substitution_put_planner, pending_put_planner]
    exact orderly.attended

/-- A planner says nothing about answers. -/
theorem answers_put_planner (ways : Multiset Leaf) :
    (ctx.put .planner passes).answers ways = ctx.answers ways := by
  have left : ∀ ℓ, (ctx.put .planner passes).left ℓ = ctx.left ℓ := by
    intro ℓ
    rw [Context.left, Context.left, substitution_put_planner]
  have survives : ∀ ℓ, (ctx.put .planner passes).Survives ℓ ↔ ctx.Survives ℓ := by
    intro ℓ
    simp only [Survives, reading, left, substitution_put_planner, pending_put_planner]
  rw [Context.answers, Context.answers]
  exact Multiset.bind_congr fun ℓ _ => remains_congr (left ℓ) (survives ℓ)

/-- Without guards there is nothing to cut off. -/
theorem Orderly.honours {ℓ : Leaf} (orderly : ctx.Orderly Constraint.Proper)
    (unguarded : ℓ.promised = Set.univ) : ctx.Honours ℓ := by
  intro survives
  refine ⟨⟨survives.1.1, survives.1.2.1, ?_⟩, ?_⟩
  · intro id c stored
    exact survives.1.2.2 id c stored (orderly.attended.member stored).isGuard_eq
  · rw [unguarded]
    trivial

end Context

/-- The first task of a proper goal is sane. -/
theorem Pending.sane_start (orderly : ctx.Orderly Constraint.Proper)
    (lets : .refuse ∉ ctx.get .planner) (properDefinitions : definitions.Proper)
    (proper : g.Proper) :
    (Pending.goals ctx [g]).Sane definitions where
  tidy := ⟨orderly.mono fun c proper => .inl proper, lets⟩
  guarded := List.forall_mem_singleton.mpr (.inl proper)
  tabular := trivial
  honours depth ℓ member := by
    apply orderly.honours
    rw [Pending.leaves, Goal.leavesOfAll_singleton] at member
    exact Goal.promised_of_mem_leaves (Goal.unguarded_callLeaves properDefinitions depth) g ℓ proper
      member

/-! ## The answers of a search -/

/-- The contexts that are handed out. -/
def handedOut (moves : List Move) : Multiset Context := moves.filterMap Move.context?

/-- Contexts that have been handed out have themselves as their only answers. -/
theorem Pending.allAnswers_finished {answers : List (Path × Context)} {depth : Nat}
    (sane : ∀ p ∈ (answers.map Task.finished).map Task.pending, p.Sane definitions) :
    allAnswers definitions depth ((answers.map Task.finished).map Task.pending) =
      (answers.map (·.2) : Multiset Context).map fun ctx => ctx.substitution.solutions := by
  induction answers with
  | nil => rfl
  | cons answer answers ih =>
      rcases List.forall_mem_cons.mp sane with ⟨here, there⟩
      have orderly : answer.2.Orderly Guarded := here.tidy.orderly
      have own : (Task.finished answer).pending.answers definitions depth =
          {answer.2.substitution.solutions} := by
        rw [← orderly.remains_all]
        exact Multiset.singleton_bind _ _
      rw [List.map_cons, List.map_cons, allAnswers_cons, ih there, own]
      rfl

/-- The answers of a search that came to its end are those that its goal has when its
calls are unfolded deep enough. -/
theorem Goal.search_answers {program : Program} {count : Nat} {before after : Session}
    {moves : List Move} (proper : program.definitions.Proper)
    (sane : (Pending.goals ctx [g]).Sane program.definitions)
    (ran : Runs (g.search program count ctx) before moves after) (exhausted : Exhausted moves) :
    (∀ found ∈ handedOut moves, found.substitution.Acyclic) ∧ ∃ enough, ∀ depth,
      Pending.answers program.definitions depth (.goals ctx [g]) ≤
        (handedOut moves).map (fun found => found.substitution.solutions) ∧
      (handedOut moves).map (fun found => found.substitution.solutions) ≤
        Pending.answers program.definitions (depth + enough) (.goals ctx [g]) := by
  rcases g.search_evolves ctx count ran with ⟨allotted, answers, rest, evolves, yields, ended⟩
  rw [ended exhausted, List.append_nil] at evolves
  have handed := (evolves.mono fun lossy => lossy exhausted).handedOn proper
    (List.forall_mem_singleton.mpr sane)
  have own : ∀ depth, allAnswers program.definitions depth
      ((answers.map Task.finished).map Task.pending) =
        (handedOut moves).map fun found => found.substitution.solutions := by
    intro depth
    rw [handedOut, ← yields]
    exact allAnswers_finished handed.sane
  have root : ∀ depth, allAnswers program.definitions depth
      ([(⟨[], .goals ctx [g]⟩ : Task)].map Task.pending) =
        Pending.answers program.definitions depth (.goals ctx [g]) := fun depth => add_zero _
  constructor
  · intro found member
    rw [handedOut, ← yields, Multiset.mem_coe] at member
    rcases List.mem_map.mp member with ⟨answer, among, rfl⟩
    exact (handed.sane _ (List.mem_map_of_mem (List.mem_map_of_mem among))).tidy.orderly.acyclic
  · rcases handed.bounded with ⟨enough, bounded⟩
    refine ⟨enough, ?_⟩
    intro depth
    have kept := handed.kept depth
    have few := bounded depth
    rw [root, own] at kept
    rw [root, own] at few
    exact ⟨kept, few⟩

/-! ## With and without a planner -/

theorem Operation.runAll_passes {ops : List Operation}
    (returned : Returns (Operation.runAll ctx ops) (some installed)) :
    ctx.SamePlanner installed := by
  induction ops generalizing ctx with
  | nil =>
      rcases returned with ⟨before, after, ran⟩
      cases (runs_pure.mp ran).1
      rfl
  | cons op ops ih =>
      rcases returned with ⟨before, after, ran⟩
      rcases runs_bind.mp ran with ⟨result, between, first, rest⟩
      cases result with
      | none => cases (runs_pure.mp rest).1
      | some next =>
          have passes : ctx.Passes (some next) := by
            cases op with
            | unify a b => exact (Context.unify_detached ctx a b).of_returns first.returns
            | constrain c => exact (Context.constrain_detached c).of_returns first.returns
          exact (passes next rfl).trans (ih rest.returns)

/-- The lists of terms that some variables resolve to in the contexts handed out. -/
def resolvedAnswers (vs : List Var) (moves : List Move) : Multiset (List Term) :=
  (handedOut moves).map fun found => vs.map fun v => found.resolve (.var v)

/-- Planning keeps the answers.  From a context that equations and constraints were
added to, a proper goal is searched with and without passes that plan its conjunctions
and those inside it.  If both searches come to their end, the answers are the same,
each as often, up to the names of unbound variables. -/
theorem Goal.search_planning_keeps_answers {program : Program} {ops : List Operation} {g : Goal}
    (properDefinitions : program.definitions.Proper) (properOps : ∀ op ∈ ops, op.Proper)
    (proper : g.Proper) (reached : Returns (Operation.runAll .checked ops) (some ctx))
    (lets : .refuse ∉ passes) (installs : Returns (ctx.set .planner passes) installed)
    {count countPlanned : Nat} {before after start finish : Session} {moves planned : List Move}
    (ran : Runs (g.search program count ctx) before moves after) (exhausted : Exhausted moves)
    (ranPlanned : Runs (g.search program countPlanned installed) start planned finish)
    (exhaustedPlanned : Exhausted planned) (vs : List Var) :
    Multiset.Rel Term.Variant (resolvedAnswers vs moves) (resolvedAnswers vs planned) := by
  have orderly : ctx.Orderly Constraint.Proper :=
    ((Operation.runAll_settles (Context.orderly_checked Constraint.Proper) properOps).of_returns
      reached).1
  have unplanned : ctx.get .planner = [] := (Operation.runAll_passes reached).get_eq
  have isInstalled : installed = ctx.put .planner passes := by
    rcases installs with ⟨first, last, set⟩
    rw [orderly.quiet.clear.set_eq rfl] at set
    exact (runs_pure.mp set).1.symm
  subst isInstalled
  have sane := Pending.sane_start orderly (by simp [unplanned]) properDefinitions proper
  have sanePlanned := Pending.sane_start orderly.put_planner (by simpa using lets)
    properDefinitions proper
  rcases Goal.search_answers properDefinitions sane ran exhausted with ⟨acyclic, enough, bounds⟩
  rcases Goal.search_answers properDefinitions sanePlanned ranPlanned exhaustedPlanned with
    ⟨acyclicPlanned, enoughPlanned, boundsPlanned⟩
  have same : ∀ depth,
      Pending.answers program.definitions depth (.goals (ctx.put .planner passes) [g]) =
        Pending.answers program.definitions depth (.goals ctx [g]) :=
    fun depth => Context.answers_put_planner _
  simp only [same] at boundsPlanned
  have solutions : (handedOut moves).map (fun found => found.substitution.solutions) =
      (handedOut planned).map fun found => found.substitution.solutions := by
    apply le_antisymm
    · exact (bounds 0).2.trans (boundsPlanned _).1
    · exact (boundsPlanned 0).2.trans (bounds _).1
  rw [← Multiset.rel_eq, Multiset.rel_map] at solutions
  rw [resolvedAnswers, resolvedAnswers, Multiset.rel_map]
  apply solutions.mono
  intro found member other memberPlanned equal
  have variant := Substitution.variant_of_solutions_eq (acyclic found member)
    (acyclicPlanned other memberPlanned) equal (vs.map .var)
  rw [List.map_map, List.map_map] at variant
  exact variant

/-- The search, begun in the session, hands out so many contexts and comes to the end of
its stream. -/
def Engine.endsAfter (search : Engine (List Move)) (before : Session) (contexts : Nat) : Bool :=
  match (search.run.run before).1 with
  | .ok moves =>
      match moves.getLast? with
      | some .done => (moves.filterMap Move.context?).length = contexts
      | _ => false
  | .error _ => false

theorem Engine.exists_exhausted {search : Engine (List Move)} {before : Session} {contexts : Nat}
    (ended : endsAfter search before contexts = true) :
    ∃ moves after, Runs search before moves after ∧ Exhausted moves ∧
      (handedOut moves).card = contexts := by
  rw [endsAfter] at ended
  split at ended
  · rename_i moves found
    refine ⟨moves, (search.run.run before).2, Prod.ext found rfl, ?_⟩
    split at ended
    · rename_i last
      exact ⟨last, of_decide_eq_true ended⟩
    · cases ended
  · cases ended

/-- The digits one and two. -/
def FactTable.oneTwo : FactTable := ((FactTable.empty 1).push [.int 1]).push [.int 2]

/-- The digits two and three. -/
def FactTable.twoThree : FactTable := ((FactTable.empty 1).push [.int 2]).push [.int 3]

/-- A variable stands in both tables. -/
def Goal.inBoth : Goal :=
  .conj [.relation ⟨⟨"low", .table .oneTwo⟩, [.var (.numbered 1)], .natural⟩,
    .relation ⟨⟨"high", .table .twoThree⟩, [.var (.numbered 1)], .natural⟩] []

/-- With a guard in front of the two relations, and their rows in other orders, the one
answer is found that the relations have as they stand. -/
theorem Goal.search_inBoth :
    let ops : List Operation := [.constrain (.neq (.var (.numbered 1)) (.int 1))]
    let passes : Pipeline := [.cardinality, .randomizeOrder 7]
    Definitions.Proper [] ∧ (∀ op ∈ ops, op.Proper) ∧ Goal.inBoth.Proper ∧ .refuse ∉ passes ∧
      ∃ ctx installed moves planned, Returns (Operation.runAll .checked ops) (some ctx) ∧
        Returns (ctx.set .planner passes) installed ∧
        (∃ after, Runs (Goal.inBoth.search ⟨[], 1⟩ 20 ctx) (.start 0 0) moves after) ∧
        (∃ finish, Runs (Goal.inBoth.search ⟨[], 1⟩ 20 installed) (.start 0 0) planned finish) ∧
        Exhausted moves ∧ Exhausted planned ∧ (handedOut moves).card = 1 ∧
        ∀ vs, Multiset.Rel Term.Variant (resolvedAnswers vs moves)
          (resolvedAnswers vs planned) := by
  intro ops passes
  have noDefinitions : Definitions.Proper [] := nofun
  have properOps : ∀ op ∈ ops, op.Proper :=
    List.forall_mem_singleton.mpr ⟨by decide, by decide⟩
  have proper : Goal.inBoth.Proper := by
    have free : ∀ t ∈ [Term.var (.numbered 1)], t.WildcardFree :=
      List.forall_mem_singleton.mpr (by decide)
    refine ⟨⟨⟨⟨_, 1, [[.int 1], [.int 2]], rfl, rfl⟩, free⟩,
      ⟨⟨_, 1, [[.int 2], [.int 3]], rfl, rfl⟩, free⟩, trivial⟩, nofun⟩
  have lets : .refuse ∉ passes := by decide
  have steps : ∃ ctx, Returns (Operation.runAll .checked ops) (some ctx) ∧
      Engine.endsAfter (Goal.inBoth.search ⟨[], 1⟩ 20 ctx) (.start 0 0) 1 = true ∧
      ∃ installed, Returns (ctx.set .planner passes) installed ∧
        Engine.endsAfter (Goal.inBoth.search ⟨[], 1⟩ 20 installed) (.start 0 0) 1 = true :=
    ⟨_, ⟨.start 0 0, _, rfl⟩, by decide +kernel, _, ⟨.start 0 0, _, rfl⟩, by decide +kernel⟩
  rcases steps with ⟨ctx, reached, ends, installed, installs, endsPlanned⟩
  rcases Engine.exists_exhausted ends with ⟨moves, after, ran, exhausted, one⟩
  rcases Engine.exists_exhausted endsPlanned with
    ⟨planned, finish, ranPlanned, exhaustedPlanned, _⟩
  refine ⟨noDefinitions, properOps, proper, lets, ctx, installed, moves, planned, reached, installs,
    ⟨after, ran⟩, ⟨finish, ranPlanned⟩, exhausted, exhaustedPlanned, one, ?_⟩
  exact Goal.search_planning_keeps_answers noDefinitions properOps proper reached lets installs ran
    exhausted ranPlanned exhaustedPlanned

end RelationalSolver
