import RelationalSolver.Proofs.Planning.Staging

/-!
# The order of chaining

Whatever the ranks of goals are, and in whatever way they are compared, every goal is placed
once.  If they are compared by a total preorder, each goal of the chain is the right one to
place behind those before it: the one of least rank among those that share a variable with
them, or among all that are left if none does.
-/

namespace RelationalSolver.Planning

open scoped List

variable {ρ : Type} (le : ρ → ρ → Bool)

/-! ## Every goal is placed once -/

theorem chainOrder_perm (goals : List (Ranked ρ)) : (chainOrder le goals).Perm goals := by
  have sorted := List.mergeSort_perm goals fun a b => le a.1 b.1
  rw [chainOrder_eq_greedyOrder, greedyOrder]
  split
  · rename_i none
    rwa [none] at sorted
  · rename_i first rest found
    rw [found] at sorted
    exact (List.Perm.cons first (arrange_perm le _ _ rest)).trans sorted

theorem chainOrder_map_perm (rank : PlannedGoal → ρ) (goals : List PlannedGoal) :
    ((chainOrder le (goals.map fun p => (rank p, p))).map (·.2)).Perm goals := by
  have placed := (chainOrder_perm le (goals.map fun p => (rank p, p))).map (·.2)
  rw [List.map_map] at placed
  exact placed.trans (.of_eq (List.map_id goals))

/-- The goals that report variables and are sized in the greedy order, ranked and compared
in any way, before the others. -/
def chainBy (rank : List PlannedGoal → PlannedGoal → ρ) (goals : List PlannedGoal) :
    List PlannedGoal :=
  let (ranked, others) := goals.partition (·.isRanked)
  let order := chainOrder le (ranked.map fun p => (rank ranked p, p))
  order.map (·.2) ++ others

theorem chainSharedVars_eq : chainSharedVars = chainBy rankLE entangledRank := rfl

/-- The goals that are ranked come first, the others keep their order. -/
theorem chainBy_eq_append (rank : List PlannedGoal → PlannedGoal → ρ)
    (goals : List PlannedGoal) : ∃ order, order.Perm (goals.filter (·.isRanked)) ∧
      chainBy le rank goals = order ++ goals.filter (!·.isRanked) := by
  rw [chainBy, List.partition_eq_filter_filter]
  exact ⟨_, chainOrder_map_perm le _ _, rfl⟩

/-- Chaining loses no goal and repeats none. -/
theorem chainSharedVars_perm (goals : List PlannedGoal) : (chainSharedVars goals).Perm goals := by
  rcases chainBy_eq_append rankLE entangledRank goals with ⟨order, perm, parts⟩
  rw [chainSharedVars_eq, parts]
  exact (perm.append_right _).trans (List.filter_append_perm _ goals)

/-! ## Each goal is the right one to place next -/

variable {le : ρ → ρ → Bool} {rank : PlannedGoal → ρ} {p : PlannedGoal}
  {placed left order : List PlannedGoal} {remaining : List (Ranked ρ)}

/-- A goal is the right one to place next, with so many placed and so many left. -/
structure IsNext (le : ρ → ρ → Bool) (rank : PlannedGoal → ρ) (placed : List PlannedGoal)
    (p : PlannedGoal) (left : List PlannedGoal) : Prop where
  /-- If any goal shares a variable with the placed ones, it is the least of those. -/
  sharing : (∃ q ∈ p :: left, q.SharesWith placed) →
    p.SharesWith placed ∧ ∀ q ∈ left, q.SharesWith placed → le (rank p) (rank q) = true
  /-- If none does, it is the least of all. -/
  apart : (∀ q ∈ p :: left, ¬q.SharesWith placed) → ∀ q ∈ left, le (rank p) (rank q) = true

theorem IsNext.perm {other : List PlannedGoal} (next : IsNext le rank placed p left)
    (perm : left.Perm other) : IsNext le rank placed p other := by
  constructor
  · intro sharing
    simp only [← (perm.cons p).mem_iff, ← perm.mem_iff] at sharing ⊢
    exact next.sharing sharing
  · intro none
    simp only [← (perm.cons p).mem_iff, ← perm.mem_iff] at none ⊢
    exact next.apart none

/-- Behind the placed goals, every goal is the right one to place next. -/
def Greedy (le : ρ → ρ → Bool) (rank : PlannedGoal → ρ) (placed order : List PlannedGoal) :
    Prop :=
  ∀ before p after, order = before ++ p :: after → IsNext le rank (placed ++ before) p after

theorem Greedy.nil : Greedy le rank placed [] := by
  intro before p after parts
  simp at parts

theorem Greedy.cons (next : IsNext le rank placed p order)
    (greedy : Greedy le rank (placed ++ [p]) order) : Greedy le rank placed (p :: order) := by
  intro before q after parts
  cases before with
  | nil =>
      cases parts
      rwa [List.append_nil]
  | cons first before =>
      cases parts
      rw [List.append_cons]
      exact greedy before q after rfl

/-! ### One choice -/

theorem bringForward_eq_cons {α : Type} {position : Nat} {items : List α} {chosen : α}
    (there : items[position]? = some chosen) :
    ∃ rest, bringForward position items = chosen :: rest := by
  cases position with
  | zero =>
      cases items with
      | nil => contradiction
      | cons first rest =>
          cases there
          exact ⟨rest, rfl⟩
  | succ position =>
      cases items with
      | nil => contradiction
      | cons first rest =>
          rw [List.getElem?_cons_succ] at there
          rcases List.getElem?_eq_some_iff.mp there with ⟨inRange, rfl⟩
          rw [bringForward, List.drop_eq_getElem_cons inRange]
          exact ⟨_, rfl⟩

theorem exists_mayFollow (vars : List Var) (some : remaining ≠ []) :
    ∃ x ∈ remaining, mayFollow vars remaining x.2 = true := by
  cases any : remaining.any (fun x => x.2.shares vars) with
  | true =>
      rcases List.any_eq_true.mp any with ⟨x, member, shares⟩
      exact ⟨x, member, by rw [mayFollow, shares, Bool.or_true]⟩
  | false =>
      rcases List.exists_mem_of_ne_nil remaining some with ⟨x, member⟩
      exact ⟨x, member, by rw [mayFollow, any, Bool.not_false, Bool.true_or]⟩

section Choice

variable (total : ∀ a b, le a b = true ∨ le b a = true)
  (trans : ∀ a b c, le a b = true → le b c = true → le a c = true)

include total trans

/-- The goal that comes to the front is least among those that may be chosen. -/
theorem chooseNext_eq_cons (vars : List Var) (some : remaining ≠ []) :
    ∃ x rest, chooseNext le vars remaining = x :: rest ∧ mayFollow vars remaining x.2 = true ∧
      ∀ y ∈ remaining, mayFollow vars remaining y.2 = true → le x.1 y.1 = true := by
  rw [chooseNext]
  dsimp only
  split
  · rename_i x position found
    have candidate := List.mem_filter.mp (mem_of_firstLeast found)
    obtain ⟨rest, front⟩ :=
      bringForward_eq_cons (List.mem_zipIdx_iff_getElem?.mp candidate.1)
    refine ⟨x, rest, front, candidate.2, fun y member may => ?_⟩
    obtain ⟨i, there⟩ := List.mem_iff_getElem?.mp member
    exact firstLeast_le (fun a b => total a.1.1 b.1.1) (fun a b c => trans a.1.1 b.1.1 c.1.1) found
      (y, i) (List.mem_filter.mpr ⟨List.mem_zipIdx_iff_getElem?.mpr there, may⟩)
  · rename_i exhausted
    obtain ⟨x, member, may⟩ := exists_mayFollow vars some
    obtain ⟨i, there⟩ := List.mem_iff_getElem?.mp member
    have candidate : (x, i) ∈ remaining.zipIdx.filter fun e => mayFollow vars remaining e.1.2 :=
      List.mem_filter.mpr ⟨List.mem_zipIdx_iff_getElem?.mpr there, may⟩
    rw [firstLeast_eq_none_iff.mp exhausted] at candidate
    contradiction

variable {vars : List Var} (reach : PlannedGoal.Reach placed vars)
  (ranks : ∀ x ∈ remaining, x.1 = rank x.2)

include reach ranks

/-- The goal that comes to the front is the right one to place next. -/
theorem chooseNext_isNext (some : remaining ≠ []) :
    ∃ x rest, chooseNext le vars remaining = x :: rest ∧
      IsNext le rank placed x.2 (rest.map (·.2)) := by
  rcases chooseNext_eq_cons total trans vars some with ⟨x, rest, front, may, least⟩
  have members {y : Ranked ρ} : y ∈ x :: rest ↔ y ∈ remaining := by
    rw [← front]
    exact (chooseNext_perm le vars remaining).mem_iff
  have sharing_iff : (∃ q ∈ x.2 :: rest.map (·.2), q.SharesWith placed) ↔
      ∃ y ∈ remaining, y.2.SharesWith placed := by
    simp only [← members, ← List.map_cons, List.mem_map,
      exists_exists_and_eq_and]
  have below : ∀ y ∈ rest, mayFollow vars remaining y.2 = true →
      le (rank x.2) (rank y.2) = true := by
    intro y member mayToo
    have among := members.mp (List.mem_cons_of_mem x member)
    rw [← ranks x (members.mp List.mem_cons_self), ← ranks y among]
    exact least y among mayToo
  refine ⟨x, rest, front, ?_, ?_⟩
  · intro sharing
    refine ⟨(mayFollow_iff reach).mp may (sharing_iff.mp sharing), ?_⟩
    exact List.forall_mem_map.mpr fun y member sharesToo =>
      below y member ((mayFollow_iff reach).mpr fun _ => sharesToo)
  · intro none
    refine List.forall_mem_map.mpr fun y member => below y member ((mayFollow_iff reach).mpr ?_)
    intro sharing
    rcases sharing_iff.mpr sharing with ⟨q, memberToo, shares⟩
    exact absurd shares (none q memberToo)

end Choice

/-! ### The whole chain -/

section Chain

variable (total : ∀ a b, le a b = true ∨ le b a = true)
  (trans : ∀ a b c, le a b = true → le b c = true → le a c = true)

include total trans

/-- Placing all the goals that are left is greedy. -/
theorem arrange_greedy {count : Nat} {vars : List Var} (reach : PlannedGoal.Reach placed vars)
    (ranks : ∀ x ∈ remaining, x.1 = rank x.2) (enough : remaining.length ≤ count) :
    Greedy le rank placed ((arrange le count vars remaining).map (·.2)) := by
  induction count generalizing placed vars remaining with
  | zero =>
      cases List.eq_nil_of_length_eq_zero (Nat.le_zero.mp enough)
      exact .nil
  | succ count ih =>
      by_cases some : remaining = []
      · subst some
        exact .nil
      · rcases chooseNext_isNext total trans reach ranks some with ⟨x, rest, front, next⟩
        have perm : (x :: rest).Perm remaining := front ▸ chooseNext_perm le vars remaining
        rw [arrange, front]
        have arranged := arrange_perm le count (appendAllNew vars x.2.vars) rest
        refine .cons (next.perm (arranged.symm.map _)) (ih (reach.concat x.2) ?_ ?_)
        · exact fun y member => ranks y (perm.mem_iff.mp (List.mem_cons_of_mem x member))
        · have shorter := perm.length_eq
          rw [List.length_cons] at shorter
          omega

theorem chainOrder_greedy {goals : List (Ranked ρ)} (ranks : ∀ x ∈ goals, x.1 = rank x.2) :
    Greedy le rank [] ((chainOrder le goals).map (·.2)) := by
  have perm := List.mergeSort_perm goals fun a b => le a.1 b.1
  have sorted : (goals.mergeSort fun a b => le a.1 b.1).Pairwise fun a b => le a.1 b.1 = true :=
    List.pairwise_mergeSort (fun a b c => trans a.1 b.1 c.1)
      (fun a b => Bool.or_eq_true_iff.mpr (total a.1 b.1)) goals
  rw [chainOrder_eq_greedyOrder, greedyOrder]
  split
  · exact .nil
  · rename_i first rest front
    rw [front] at perm sorted
    have ranked : ∀ x ∈ first :: rest, x.1 = rank x.2 := fun x member =>
      ranks x (perm.mem_iff.mp member)
    have next : IsNext le rank [] first.2 (rest.map (·.2)) := by
      constructor
      · rintro ⟨q, _, shares⟩
        exact absurd shares PlannedGoal.not_sharesWith_nil
      · refine fun _ => List.forall_mem_map.mpr fun x member => ?_
        rw [← ranked first List.mem_cons_self, ← ranked x (List.mem_cons_of_mem _ member)]
        exact (List.pairwise_cons.mp sorted).1 x member
    have arranged := arrange_perm le rest.length first.2.vars rest
    exact .cons (next.perm (arranged.symm.map _))
      (arrange_greedy total trans PlannedGoal.reach_singleton
        (fun x member => ranked x (List.mem_cons_of_mem _ member)) (Nat.le_refl rest.length))

/-- Chaining places the goals that report variables and are sized first, in the greedy
order, for whatever ranks and whatever total preorder that compares them.  At every slot the
loop has staged exactly the goals still to be placed that share a variable with a placed one,
so it chooses what the rule chooses. -/
theorem chainSharedVars_greedy (rank : List PlannedGoal → PlannedGoal → ρ)
    (goals : List PlannedGoal) :
    (∀ (n : Nat) (sorted : Vector (Ranked ρ) n) (count : Nat) (within : count ≤ n - 2),
      Chaining.Staged sorted count
        (Chaining.settle le sorted (indexByVar sorted) count within)) ∧
    (∀ ranked : List (Ranked ρ), chainOrder le ranked = greedyOrder le ranked) ∧
    chainSharedVars = chainBy rankLE entangledRank ∧
      ∃ order, chainBy le rank goals = order ++ goals.filter (!·.isRanked) ∧
        order.Perm (goals.filter (·.isRanked)) ∧
        Greedy le (rank (goals.filter (·.isRanked))) [] order := by
  refine ⟨fun _ => Chaining.staged_settle le, chainOrder_eq_greedyOrder le, chainSharedVars_eq, ?_⟩
  rw [chainBy, List.partition_eq_filter_filter]
  dsimp only
  generalize goals.filter (·.isRanked) = ranked
  have ranks : ∀ x ∈ ranked.map fun p => (rank ranked p, p), x.1 = rank ranked x.2 :=
    List.forall_mem_map.mpr fun p _ => rfl
  exact ⟨_, rfl, chainOrder_map_perm le _ _, chainOrder_greedy total trans ranks⟩

end Chain

/-- Goals are chained by their numbers of variables, except that the one with four shares a
variable with the first; the one that reports none stands behind. -/
theorem chainSharedVars_greedy_by_count :
    let pair : PlannedGoal := ⟨.succeed, some [.numbered 0, .numbered 1], some (.exact 1)⟩
    let three : PlannedGoal :=
      ⟨.succeed, some [.numbered 5, .numbered 6, .numbered 7], some (.exact 1)⟩
    let linked : PlannedGoal :=
      ⟨.succeed, some [.numbered 1, .numbered 2, .numbered 3, .numbered 4], some (.exact 1)⟩
    (∀ a b, Nat.ble a b = true ∨ Nat.ble b a = true) ∧
      (∀ a b c, Nat.ble a b = true → Nat.ble b c = true → Nat.ble a c = true) ∧
      Chaining.Staged #v[(2, pair), (3, three), (4, linked)] 1 (Chaining.settle Nat.ble
        #v[(2, pair), (3, three), (4, linked)]
        (indexByVar #v[(2, pair), (3, three), (4, linked)]) 1 (by decide)) ∧
      ∃ order, chainBy Nat.ble (fun _ p => p.vars.length)
          [linked, ⟨.fail, none, none⟩, three, pair] = order ++ [⟨.fail, none, none⟩] ∧
        order.Perm [linked, three, pair] ∧ Greedy Nat.ble (fun p => p.vars.length) [] order := by
  intro pair three linked
  have total : ∀ a b, Nat.ble a b = true ∨ Nat.ble b a = true := by simp [Nat.le_total]
  have trans : ∀ a b c, Nat.ble a b = true → Nat.ble b c = true → Nat.ble a c = true := by
    simp only [Nat.ble_eq]
    exact fun a b c => Nat.le_trans
  obtain ⟨staged, -, -, greedy⟩ := chainSharedVars_greedy total trans (fun _ p => p.vars.length)
    [linked, ⟨.fail, none, none⟩, three, pair]
  exact ⟨total, trans, staged 3 _ 1 (by decide), greedy⟩

end RelationalSolver.Planning
