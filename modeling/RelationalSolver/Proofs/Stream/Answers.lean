import RelationalSolver.Proofs.Context.Survival
import RelationalSolver.Proofs.Planning.Pipeline
import RelationalSolver.Proofs.Stream.Derivations

/-!
# The answers of pending work

Pending work on proper goals has answers before anything of it is done: what remains,
in its context, of the ways through its goals.  Expanding a task hands these answers
on to the new tasks, also where a planner rearranges goals.  A call may be unfolded
once more on the way.
-/

namespace RelationalSolver

open Engine Constraint

variable {ctx next : Context} {goals : List Goal} {definitions : Definitions}

/-- An orderly context in which planning does not refuse. -/
structure Context.Tidy (ctx : Context) : Prop where
  orderly : ctx.Orderly Guarded
  lets : .refuse ∉ ctx.get .planner

theorem Context.Tidy.passes {result : Option Context} (tidy : ctx.Tidy)
    (passes : ctx.Passes result) (found : result = some next) (orderly : next.Orderly Guarded) :
    next.Tidy where
  orderly := orderly
  lets := by
    rw [(passes next found).get_eq]
    exact tidy.lets

/-- Some row that is still to be tried is taken for the arguments. -/
def RowScan.leaves (scan : RowScan) : Multiset Leaf :=
  match scan.rows with
  | .listed rows => Leaf.ofRows scan.args rows
  | .endless _ _ => 0

namespace Pending

/-- The context that there is something to be done for. -/
def context : Pending → Context
  | .goals ctx _ => ctx
  | .scan tried _ => tried.context
  | .foreign => .empty

/-- The goals that are still to be gone through. -/
def goalsLeft : Pending → List Goal
  | .goals _ rest => rest
  | .scan _ rest => rest
  | .foreign => []

/-- The ways through what is still to be done. -/
def leaves (called : String → List Term → Multiset Leaf) : Pending → Multiset Leaf
  | .goals _ rest => Goal.leavesOfAll called rest
  | .scan tried rest => Leaf.combine tried.leaves (Goal.leavesOfAll called rest)
  | .foreign => 0

/-- Rows that are tried are those of a table. -/
def Tabular : Pending → Prop
  | .scan tried _ => (∀ t ∈ tried.args, t.WildcardFree) ∧
      ∃ rows, tried.rows = .listed rows ∧ ∀ row ∈ rows, ∀ t ∈ row, t.isGround = true
  | _ => True

/-- The goals are proper or guards, and no guard cuts off what they come to. -/
structure Sane (definitions : Definitions) (p : Pending) : Prop where
  tidy : p.context.Tidy
  guarded : ∀ g ∈ p.goalsLeft, g.Guarded
  tabular : p.Tabular
  honours : ∀ depth, ∀ ℓ ∈ p.leaves (Goal.callLeaves definitions depth), p.context.Honours ℓ

/-- What there is still to be found, if calls are unfolded down to a depth. -/
noncomputable def answers (definitions : Definitions) (depth : Nat) (p : Pending) :
    Multiset (Set Assignment) :=
  p.context.answers (p.leaves (Goal.callLeaves definitions depth))

/-- What there is still to be found altogether. -/
noncomputable def allAnswers (definitions : Definitions) (depth : Nat) (ps : List Pending) :
    Multiset (Set Assignment) :=
  (ps : Multiset Pending).bind (answers definitions depth)

variable {ps qs rs others : List Pending} {depth : Nat} {p : Pending}

@[simp] theorem allAnswers_nil : allAnswers definitions depth [] = 0 := Multiset.zero_bind _

@[simp] theorem allAnswers_cons : allAnswers definitions depth (p :: ps) =
    p.answers definitions depth + allAnswers definitions depth ps := by
  rw [allAnswers, ← Multiset.cons_coe]
  exact Multiset.cons_bind ..

@[simp] theorem allAnswers_append : allAnswers definitions depth (ps ++ qs) =
    allAnswers definitions depth ps + allAnswers definitions depth qs := by
  rw [allAnswers, ← Multiset.coe_add]
  exact Multiset.add_bind ..

theorem allAnswers_perm (same : ps.Perm qs) :
    allAnswers definitions depth ps = allAnswers definitions depth qs := by
  rw [allAnswers, Multiset.coe_eq_coe.mpr same]
  rfl

theorem leaves_le_succ (definitions : Definitions) (depth : Nat) (p : Pending) :
    p.leaves (Goal.callLeaves definitions depth) ≤
      p.leaves (Goal.callLeaves definitions (depth + 1)) := by
  have fewer := Goal.callLeaves_le_succ definitions depth
  cases p with
  | goals ctx rest => exact Goal.leavesOfAll_le fewer rest
  | scan tried rest => exact Leaf.combine_le le_rfl (Goal.leavesOfAll_le fewer rest)
  | foreign => exact le_rfl

theorem answers_le_add (more : Nat) :
    p.answers definitions depth ≤ p.answers definitions (depth + more) := by
  induction more with
  | zero => exact le_rfl
  | succ more ih =>
      exact ih.trans (Context.answers_le (leaves_le_succ definitions (depth + more) p))

theorem allAnswers_le_add (more : Nat) :
    allAnswers definitions depth ps ≤ allAnswers definitions (depth + more) ps := by
  induction ps with
  | nil => simp
  | cons p ps ih =>
      rw [allAnswers_cons, allAnswers_cons]
      exact add_le_add (answers_le_add more) ih

/-! ## Handing answers on -/

/-- The later work is sane and has the answers of the earlier one, if calls may be
unfolded a bounded number of times more. -/
structure HandedOn (definitions : Definitions) (ps qs : List Pending) : Prop where
  sane : ∀ q ∈ qs, q.Sane definitions
  kept : ∀ depth, allAnswers definitions depth ps ≤ allAnswers definitions depth qs
  bounded : ∃ more, ∀ depth,
    allAnswers definitions depth qs ≤ allAnswers definitions (depth + more) ps

namespace HandedOn

theorem of_eq (sane : ∀ q ∈ qs, q.Sane definitions)
    (same : ∀ depth, allAnswers definitions depth qs = allAnswers definitions depth ps) :
    HandedOn definitions ps qs where
  sane := sane
  kept depth := (same depth).ge
  bounded := ⟨0, fun depth => (same depth).le⟩

theorem of_perm (sane : ∀ p ∈ ps, p.Sane definitions) (same : ps.Perm qs) :
    HandedOn definitions ps qs :=
  .of_eq (fun q member => sane q (same.mem_iff.mpr member)) fun _ => allAnswers_perm same.symm

theorem trans (first : HandedOn definitions ps qs) (second : HandedOn definitions qs rs) :
    HandedOn definitions ps rs where
  sane := second.sane
  kept depth := (first.kept depth).trans (second.kept depth)
  bounded := by
    rcases first.bounded with ⟨more, fewer⟩
    rcases second.bounded with ⟨yetMore, fewerYet⟩
    refine ⟨yetMore + more, ?_⟩
    intro depth
    rw [← Nat.add_assoc]
    exact (fewerYet depth).trans (fewer (depth + yetMore))

/-- Other work stands by. -/
theorem append_right (handed : HandedOn definitions ps qs)
    (sane : ∀ p ∈ others, p.Sane definitions) :
    HandedOn definitions (ps ++ others) (qs ++ others) where
  sane := List.forall_mem_append.mpr ⟨handed.sane, sane⟩
  kept depth := by
    rw [allAnswers_append, allAnswers_append]
    exact add_le_add (handed.kept depth) le_rfl
  bounded := by
    rcases handed.bounded with ⟨more, fewer⟩
    refine ⟨more, ?_⟩
    intro depth
    rw [allAnswers_append, allAnswers_append]
    exact add_le_add (fewer depth) (allAnswers_le_add more)

end HandedOn

end Pending

end RelationalSolver
