import Mathlib.Data.Multiset.Bind
import RelationalSolver.Proofs.Goal.Proper
import RelationalSolver.Proofs.Unification.Lawful

/-!
# What proper goals come to

A proper goal can be gone through in a number of ways, which differ in the branches
and rows that are chosen.  Each way asks that some equations hold and that some
constraints permit what they leave.  The goals of a conjunction are gone through
together, in whatever order they stand.
-/

namespace RelationalSolver

/-- What one way to go through goals asks for. -/
@[ext]
structure Leaf where
  /-- The assignments that its equations and rows leave. -/
  solutions : Set Assignment
  /-- The sets that its constraints permit. -/
  permitted : Set (Set Assignment)
  /-- The sets that its guards permit. -/
  promised : Set (Set Assignment)

namespace Leaf

variable {A B C : Multiset Leaf} {ℓ : Leaf}

/-- Nothing is asked for. -/
def all : Leaf := ⟨Set.univ, Set.univ, Set.univ⟩

/-- Both are asked for. -/
def and (ℓ m : Leaf) : Leaf :=
  ⟨ℓ.solutions ∩ m.solutions, ℓ.permitted ∩ m.permitted, ℓ.promised ∩ m.promised⟩

/-- Only equations and rows are asked for. -/
def ofSolutions (new : Set Assignment) : Leaf := ⟨new, Set.univ, Set.univ⟩

/-- The constraint is asked for. -/
def ofConstraint (c : Constraint) : Leaf :=
  ⟨Set.univ, {Θ | c.isGuard = false → c.Permits Θ}, {Θ | c.isGuard = true → c.Permits Θ}⟩

/-- Several constraints are asked for. -/
def ofConstraints (constraints : List Constraint) : Leaf :=
  constraints.foldr (fun c ℓ => (ofConstraint c).and ℓ) all

theorem and_comm (ℓ m : Leaf) : ℓ.and m = m.and ℓ :=
  Leaf.ext (Set.inter_comm ..) (Set.inter_comm ..) (Set.inter_comm ..)

theorem and_assoc (ℓ m k : Leaf) : (ℓ.and m).and k = ℓ.and (m.and k) :=
  Leaf.ext (Set.inter_assoc ..) (Set.inter_assoc ..) (Set.inter_assoc ..)

@[simp] theorem all_and (ℓ : Leaf) : all.and ℓ = ℓ :=
  Leaf.ext (Set.univ_inter _) (Set.univ_inter _) (Set.univ_inter _)

/-- One way out of each of two collections. -/
def combine (A B : Multiset Leaf) : Multiset Leaf := A.bind fun ℓ => B.map ℓ.and

@[simp] theorem zero_combine (B : Multiset Leaf) : combine 0 B = 0 := Multiset.zero_bind _

@[simp] theorem singleton_combine (ℓ : Leaf) (B : Multiset Leaf) : combine {ℓ} B = B.map ℓ.and :=
  Multiset.singleton_bind ..

theorem add_combine (A B C : Multiset Leaf) : combine (A + B) C = combine A C + combine B C :=
  Multiset.add_bind ..

theorem combine_add (A B C : Multiset Leaf) : combine A (B + C) = combine A B + combine A C := by
  simp only [combine, Multiset.map_add]
  exact Multiset.bind_add ..

theorem combine_comm (A B : Multiset Leaf) : combine A B = combine B A := by
  rw [combine, Multiset.bind_map_comm]
  simp only [combine, and_comm]

theorem map_and_combine (ℓ : Leaf) (A B : Multiset Leaf) :
    combine (A.map ℓ.and) B = (combine A B).map ℓ.and := by
  rw [combine, Multiset.bind_map, combine, Multiset.map_bind]
  apply Multiset.bind_congr
  intro m _
  rw [Multiset.map_map]
  exact Multiset.map_congr rfl fun k _ => and_assoc ℓ m k

theorem combine_assoc (A B C : Multiset Leaf) :
    combine (combine A B) C = combine A (combine B C) := by
  rw [combine, combine, Multiset.bind_assoc]
  apply Multiset.bind_congr
  exact fun ℓ _ => map_and_combine ℓ B C

theorem combine_left_comm (A B C : Multiset Leaf) :
    combine A (combine B C) = combine B (combine A C) := by
  rw [← combine_assoc, combine_comm A B, combine_assoc]

@[simp] theorem all_combine (B : Multiset Leaf) : combine {all} B = B := by
  rw [singleton_combine]
  exact (Multiset.map_congr rfl fun ℓ _ => all_and ℓ).trans (Multiset.map_id B)

theorem combine_le {A' B' : Multiset Leaf} (left : A ≤ A') (right : B ≤ B') :
    combine A B ≤ combine A' B' := by
  rcases Multiset.le_iff_exists_add.mp left with ⟨C, rfl⟩
  rcases Multiset.le_iff_exists_add.mp right with ⟨D, rfl⟩
  rw [add_combine, combine_add A B D, add_assoc]
  exact Multiset.le_add_right _ _

theorem mem_combine : ℓ ∈ combine A B ↔ ∃ m ∈ A, ∃ k ∈ B, m.and k = ℓ := by
  simp only [combine, Multiset.mem_bind, Multiset.mem_map]

end Leaf

/-! ## The ways through a goal -/

/-- Some row of a table is taken for the arguments. -/
def Leaf.ofRows (args : List Term) (rows : List Row) : Multiset Leaf :=
  (rows : Multiset Row).map fun row => .ofSolutions (pairUnifiers args row)

theorem Leaf.ofRows_cons (args : List Term) (row : Row) (rows : List Row) :
    ofRows args (row :: rows) = {ofSolutions (pairUnifiers args row)} + ofRows args rows := by
  rw [ofRows, ← Multiset.cons_coe, Multiset.map_cons, ← Multiset.singleton_add]
  rfl

theorem Leaf.ofRows_append (args : List Term) (rows others : List Row) :
    ofRows args (rows ++ others) = ofRows args rows + ofRows args others := by
  rw [ofRows, ← Multiset.coe_add, Multiset.map_add]
  rfl

theorem Leaf.ofRows_perm (args : List Term) {rows others : List Row} (same : rows.Perm others) :
    ofRows args rows = ofRows args others := by
  rw [ofRows, Multiset.coe_eq_coe.mpr same]
  rfl

/-- Some row is taken of those that the source lists. -/
def Application.leaves (a : Application) : Multiset Leaf :=
  match a.relation.source.listing with
  | some rows => Leaf.ofRows a.args rows
  | none => 0

theorem Application.leaves_eq {a : Application} {facts : FactTable}
    (source : a.relation.source = .table facts) :
    a.leaves = Leaf.ofRows a.args facts.rows.toList := by
  rw [leaves, source, FactSource.listing_table]

namespace Goal

mutual

/-- The ways through a goal, if those through a call are known.  New variables and
faults are left out. -/
def leaves (called : String → List Term → Multiset Leaf) : Goal → Multiset Leaf
  | .succeed => {.all}
  | .fail => 0
  | .equal a b => {.ofSolutions (unifiers a b)}
  | .constrain c => {.ofConstraint c}
  | .conj goals constraints =>
      (leavesOfAll called goals).map (Leaf.ofConstraints constraints).and
  | .disj goals constraints =>
      (leavesOfSome called goals).map (Leaf.ofConstraints constraints).and
  | .delay body => body.leaves called
  | .call name args => called name args
  | .relation a => a.leaves
  | .fresh _ _ => 0
  | .abort _ => 0
  | .yieldThenAbort _ => 0

/-- The ways through all goals of a list. -/
def leavesOfAll (called : String → List Term → Multiset Leaf) : List Goal → Multiset Leaf
  | [] => {.all}
  | g :: gs => Leaf.combine (g.leaves called) (leavesOfAll called gs)

/-- The ways through one goal of a list. -/
def leavesOfSome (called : String → List Term → Multiset Leaf) : List Goal → Multiset Leaf
  | [] => 0
  | g :: gs => g.leaves called + leavesOfSome called gs

end

variable {called more : String → List Term → Multiset Leaf} {goals others : List Goal}
variable {ℓ : Leaf} {θ : Assignment}

@[simp] theorem leavesOfAll_singleton (called : String → List Term → Multiset Leaf) (g : Goal) :
    leavesOfAll called [g] = g.leaves called := by
  rw [leavesOfAll, leavesOfAll, Leaf.combine_comm, Leaf.all_combine]

theorem leavesOfAll_append (called : String → List Term → Multiset Leaf)
    (goals others : List Goal) :
    leavesOfAll called (goals ++ others) =
      Leaf.combine (leavesOfAll called goals) (leavesOfAll called others) := by
  induction goals with
  | nil => rw [leavesOfAll, Leaf.all_combine, List.nil_append]
  | cons g goals ih => rw [List.cons_append, leavesOfAll, leavesOfAll, ih, Leaf.combine_assoc]

/-- The order of goals makes no difference. -/
theorem leavesOfAll_perm (called : String → List Term → Multiset Leaf)
    (same : goals.Perm others) : leavesOfAll called goals = leavesOfAll called others := by
  induction same with
  | nil => rfl
  | cons g _ ih => rw [leavesOfAll, leavesOfAll, ih]
  | swap g h goals =>
      simp only [leavesOfAll]
      exact Leaf.combine_left_comm _ _ _
  | trans _ _ first second => exact first.trans second

mutual

/-- More ways through calls are more ways through a goal. -/
theorem leaves_le (fewer : ∀ name args, called name args ≤ more name args) :
    ∀ g : Goal, g.leaves called ≤ g.leaves more
  | .succeed => le_rfl
  | .fail => le_rfl
  | .equal _ _ => le_rfl
  | .constrain _ => le_rfl
  | .conj goals _ => Multiset.map_le_map (leavesOfAll_le fewer goals)
  | .disj goals _ => Multiset.map_le_map (leavesOfSome_le fewer goals)
  | .delay body => leaves_le fewer body
  | .call name args => fewer name args
  | .relation _ => le_rfl
  | .fresh _ _ => le_rfl
  | .abort _ => le_rfl
  | .yieldThenAbort _ => le_rfl

theorem leavesOfAll_le (fewer : ∀ name args, called name args ≤ more name args) :
    ∀ goals : List Goal, leavesOfAll called goals ≤ leavesOfAll more goals
  | [] => le_rfl
  | g :: goals => Leaf.combine_le (leaves_le fewer g) (leavesOfAll_le fewer goals)

theorem leavesOfSome_le (fewer : ∀ name args, called name args ≤ more name args) :
    ∀ goals : List Goal, leavesOfSome called goals ≤ leavesOfSome more goals
  | [] => le_rfl
  | g :: goals => add_le_add (leaves_le fewer g) (leavesOfSome_le fewer goals)

end

theorem admits_of_mem_applicationLeaves {a : Application} (proper : a.Proper)
    (member : ℓ ∈ a.leaves) (solves : θ ∈ ℓ.solutions) : a.Admits θ := by
  rcases proper.1 with ⟨facts, arity, rows, source, made⟩
  have wellFormed := FactTable.wellFormed_of_ofRows made
  simp only [Application.leaves_eq source, Leaf.ofRows, Multiset.mem_map, Multiset.mem_coe]
    at member
  rw [Application.admits_iff source]
  rcases member with ⟨row, inside, rfl⟩
  have equal : a.args.map (·.mapVars θ) = row.map (·.mapVars θ) := solves
  have same : row.map (·.mapVars θ) = row := by
    conv_rhs => rw [← List.map_id row]
    exact List.map_congr_left fun t member =>
      Term.mapVars_of_isGround θ (wellFormed.ground row inside t member)
  rw [equal, same]
  exact inside

mutual

/-- No equation or table of the goal excludes what a way through it leaves. -/
theorem admits_of_mem_leaves : ∀ (g : Goal) (ℓ : Leaf), g.Proper → ℓ ∈ g.leaves called →
    θ ∈ ℓ.solutions → g.Admits θ
  | .succeed, _, _, _, _ => trivial
  | .fail, _, _, member, _ => absurd member (Multiset.notMem_zero _)
  | .equal _ _, _, _, member, solves => by
      cases Multiset.mem_singleton.mp member
      exact solves
  | .constrain _, _, _, _, _ => trivial
  | .conj goals _, _, proper, member, solves => by
      rcases Multiset.mem_map.mp member with ⟨m, inside, rfl⟩
      exact allAdmit_of_mem_leaves goals m proper.1 inside solves.2
  | .disj goals _, _, proper, member, solves => by
      rcases Multiset.mem_map.mp member with ⟨m, inside, rfl⟩
      exact someAdmits_of_mem_leaves goals m proper.1 inside solves.2
  | .delay _, _, _, _, _ => trivial
  | .call _ _, _, _, _, _ => trivial
  | .relation _, _, proper, member, solves =>
      admits_of_mem_applicationLeaves proper member solves
  | .fresh _ _, _, _, _, _ => trivial
  | .abort _, _, _, _, _ => trivial
  | .yieldThenAbort _, _, _, _, _ => trivial

theorem allAdmit_of_mem_leaves : ∀ (goals : List Goal) (ℓ : Leaf), AllProper goals →
    ℓ ∈ leavesOfAll called goals → θ ∈ ℓ.solutions → AllAdmit θ goals
  | [], _, _, _, _ => trivial
  | g :: goals, _, proper, member, solves => by
      rcases Leaf.mem_combine.mp member with ⟨m, here, k, there, rfl⟩
      exact ⟨admits_of_mem_leaves g m proper.1 here solves.1,
        allAdmit_of_mem_leaves goals k proper.2 there solves.2⟩

theorem someAdmits_of_mem_leaves : ∀ (goals : List Goal) (ℓ : Leaf), AllProper goals →
    ℓ ∈ leavesOfSome called goals → θ ∈ ℓ.solutions → SomeAdmits θ goals
  | [], _, _, member, _ => absurd member (Multiset.notMem_zero _)
  | g :: goals, ℓ, proper, member, solves => by
      rcases Multiset.mem_add.mp member with here | there
      · exact .inl (admits_of_mem_leaves g ℓ proper.1 here solves)
      · exact .inr (someAdmits_of_mem_leaves goals ℓ proper.2 there solves)

end

/-! ## Calls -/

/-- The ways through the calls of definitions that are nested less deep than a given
depth. -/
def callLeaves (definitions : Definitions) : Nat → String → List Term → Multiset Leaf
  | 0, _, _ => 0
  | depth + 1, name, args =>
      match definitions.lookup name with
      | some definition => (definition.apply args).leaves (callLeaves definitions depth)
      | none => 0

theorem callLeaves_le_succ (definitions : Definitions) (depth : Nat) (name : String)
    (args : List Term) :
    callLeaves definitions depth name args ≤ callLeaves definitions (depth + 1) name args := by
  induction depth generalizing name args with
  | zero => exact Multiset.zero_le _
  | succ depth ih =>
      rw [callLeaves, callLeaves]
      split
      · exact leaves_le ih _
      · exact le_rfl

/-! ## Ways without guards -/

theorem promised_ofConstraints {constraints : List Constraint}
    (proper : ∀ c ∈ constraints, c.Proper) :
    (Leaf.ofConstraints constraints).promised = Set.univ := by
  induction constraints with
  | nil => rfl
  | cons c constraints ih =>
      rcases List.forall_mem_cons.mp proper with ⟨here, there⟩
      have none : (Leaf.ofConstraint c).promised = Set.univ := by
        apply Set.eq_univ_of_forall
        intro Θ guard
        rw [here.isGuard_eq] at guard
        cases guard
      change (Leaf.ofConstraint c).promised ∩ (Leaf.ofConstraints constraints).promised = _
      rw [none, ih there, Set.univ_inter]

theorem promised_and {m : Leaf} (left : ℓ.promised = Set.univ) (right : m.promised = Set.univ) :
    (ℓ.and m).promised = Set.univ := by
  rw [Leaf.and, left, right, Set.univ_inter]

/-- The ways through calls with wildcard-free arguments hold no guards. -/
def Unguarded (called : String → List Term → Multiset Leaf) : Prop :=
  ∀ name args, (∀ t ∈ args, t.WildcardFree) → ∀ ℓ ∈ called name args, ℓ.promised = Set.univ

mutual

/-- The ways through a proper goal hold no guards. -/
theorem promised_of_mem_leaves (unguarded : Unguarded called) : ∀ (g : Goal) (ℓ : Leaf),
    g.Proper → ℓ ∈ g.leaves called → ℓ.promised = Set.univ
  | .succeed, _, _, member => by
      cases Multiset.mem_singleton.mp member
      rfl
  | .fail, _, _, member => absurd member (Multiset.notMem_zero _)
  | .equal _ _, _, _, member => by
      cases Multiset.mem_singleton.mp member
      rfl
  | .constrain c, _, proper, member => by
      cases Multiset.mem_singleton.mp member
      have single := promised_ofConstraints (List.forall_mem_singleton.mpr proper)
      rwa [Leaf.ofConstraints, List.foldr_cons, List.foldr_nil, Leaf.and_comm,
        Leaf.all_and] at single
  | .conj goals _, _, proper, member => by
      rcases Multiset.mem_map.mp member with ⟨m, inside, rfl⟩
      exact promised_and (promised_ofConstraints proper.2)
        (promised_of_mem_leavesOfAll unguarded goals m proper.1 inside)
  | .disj goals _, _, proper, member => by
      rcases Multiset.mem_map.mp member with ⟨m, inside, rfl⟩
      exact promised_and (promised_ofConstraints proper.2)
        (promised_of_mem_leavesOfSome unguarded goals m proper.1 inside)
  | .delay body, ℓ, proper, member => promised_of_mem_leaves unguarded body ℓ proper member
  | .call name args, ℓ, proper, member => unguarded name args proper ℓ member
  | .relation a, _, proper, member => by
      rcases proper.1 with ⟨facts, _, _, source, _⟩
      rw [leaves, Application.leaves_eq source] at member
      rcases Multiset.mem_map.mp member with ⟨row, _, rfl⟩
      rfl
  | .fresh _ _, _, proper, _ => proper.elim
  | .abort _, _, proper, _ => proper.elim
  | .yieldThenAbort _, _, proper, _ => proper.elim

theorem promised_of_mem_leavesOfAll (unguarded : Unguarded called) :
    ∀ (goals : List Goal) (ℓ : Leaf), AllProper goals → ℓ ∈ leavesOfAll called goals →
      ℓ.promised = Set.univ
  | [], _, _, member => by
      cases Multiset.mem_singleton.mp member
      rfl
  | g :: goals, _, proper, member => by
      rcases Leaf.mem_combine.mp member with ⟨m, here, k, there, rfl⟩
      exact promised_and (promised_of_mem_leaves unguarded g m proper.1 here)
        (promised_of_mem_leavesOfAll unguarded goals k proper.2 there)

theorem promised_of_mem_leavesOfSome (unguarded : Unguarded called) :
    ∀ (goals : List Goal) (ℓ : Leaf), AllProper goals → ℓ ∈ leavesOfSome called goals →
      ℓ.promised = Set.univ
  | [], _, _, member => absurd member (Multiset.notMem_zero _)
  | g :: goals, ℓ, proper, member => by
      rcases Multiset.mem_add.mp member with here | there
      · exact promised_of_mem_leaves unguarded g ℓ proper.1 here
      · exact promised_of_mem_leavesOfSome unguarded goals ℓ proper.2 there

end

/-- Proper definitions bring no guards in. -/
theorem unguarded_callLeaves {definitions : Definitions} (proper : definitions.Proper)
    (depth : Nat) : Unguarded (callLeaves definitions depth) := by
  induction depth with
  | zero => exact fun _ _ _ ℓ member => absurd member (Multiset.notMem_zero ℓ)
  | succ depth ih =>
      intro name args free ℓ member
      rw [callLeaves] at member
      split at member
      · rename_i definition defined
        exact promised_of_mem_leaves ih _ ℓ
          (proper_apply (proper name definition defined) free) member
      · exact absurd member (Multiset.notMem_zero ℓ)

end Goal

end RelationalSolver
