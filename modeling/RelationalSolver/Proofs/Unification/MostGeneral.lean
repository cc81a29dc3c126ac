import RelationalSolver.Proofs.Unification.Lawful

/-!
# Most general unifiers

One round of unification settles two terms if the function for the next rounds settles the
arguments.  Rounds nest no deeper than there are nodes, since every round passes a node that
the rounds around it have not passed, whatever was bound on the way.

With the occurrence test, unification in an acyclic substitution therefore always ends.  It
succeeds exactly when some assignment makes the bindings hold and the two terms
equal, and then its bindings have just these assignments as their solutions.
-/

namespace RelationalSolver.Bindings

variable {m : Type → Type} {σ : Type} [Monad m] [LawfulMonad m] [Unbounded m]
variable {ops : Bindings m σ} {reading : Reading σ} {endless : Prop}
variable {nodes : Finset Term} {state : σ}

theorem unifiers_inter_walk {s : Substitution} (a b : Term) :
    s.solutions ∩ unifiers (s.walk a) (s.walk b) = s.solutions ∩ unifiers a b := by
  ext θ
  constructor
  · rintro ⟨solves, equal⟩
    refine ⟨solves, ?_⟩
    change _ = _ at equal
    rwa [Substitution.mapVars_walk solves, Substitution.mapVars_walk solves] at equal
  · rintro ⟨solves, equal⟩
    refine ⟨solves, ?_⟩
    change _ = _
    rwa [Substitution.mapVars_walk solves, Substitution.mapVars_walk solves]

/-- A round over two walked terms. -/
theorem Lawful.round_outcome_of_walked (lawful : ops.Lawful reading endless) (plain : Plain nodes)
    {unify : σ → Term → Term → m (Option σ)} (valid : reading.Valid state)
    (stays : (reading.substitution state).StaysIn nodes) {a b : Term} (left : a ∈ nodes)
    (right : b ∈ nodes) (walkedLeft : (reading.substitution state).walk a = a)
    (walkedRight : (reading.substitution state).walk b = b)
    (below : ∀ f as g bs, a = .compound f as → b = .compound g bs →
      SettlesBelow endless reading nodes state unify as bs) :
    Settles endless (ops.unifyRound unify state a b)
      (Outcome reading nodes state (unifiers a b)) := by
  have acyclic := lawful.acyclic valid
  have unboundLeft := Substitution.walked_walk acyclic a
  have unboundRight := Substitution.walked_walk acyclic b
  rw [walkedLeft] at unboundLeft
  rw [walkedRight] at unboundRight
  rw [unifyRound]
  simp only [lawful.walk valid, walkedLeft, walkedRight]
  split
  · rename_i same
    subst same
    rw [unifiers_self]
    exact .pure (Outcome.refl valid stays)
  · rename_i different
    split
    · exact absurd (plain.free _ left) (by simp [Term.WildcardFree, Term.mentions])
    · exact absurd (plain.free _ right) (by simp [Term.WildcardFree, Term.mentions])
    · rename_i v named _
      apply lawful.bindVar_outcome plain valid stays (unboundLeft v rfl) _
        (Ne.symm different) right unboundRight
      rintro rfl
      exact named rfl
    · rename_i v named _ _
      rw [unifiers_comm]
      apply lawful.bindVar_outcome plain valid stays (unboundRight v rfl) _
        different left unboundLeft
      rintro rfl
      exact named rfl
    · rename_i f as g bs
      split
      · rename_i shape
        rw [unifiers_compound]
        simp only [shape.2, true_and]
        exact unifyPairs_outcome valid stays shape.1 (below f as g bs rfl rfl)
      · rename_i shape
        apply Settles.pure
        apply lawful.outcome_none
        rw [unifiers_compound]
        apply Set.eq_empty_of_forall_notMem
        rintro θ ⟨_, sameFunctor, equal⟩
        apply shape
        refine ⟨?_, sameFunctor⟩
        by_contra lengths
        rw [pairUnifiers_of_length_ne lengths] at equal
        exact equal
    · rename_i _ notVar _ notVarRight notCompounds
      apply Settles.pure
      apply lawful.outcome_none
      apply Set.eq_empty_of_forall_notMem
      rintro θ ⟨_, equal⟩
      cases a with
      | var v => exact notVar v rfl
      | atom x =>
          cases b with
          | var v => exact notVarRight v rfl
          | atom y => exact different equal
          | compound g bs => exact Term.noConfusion (equal.trans (Term.mapVars_compound ..))
      | compound f as =>
          cases b with
          | var v => exact notVarRight v rfl
          | atom y => exact Term.noConfusion ((Term.mapVars_compound ..).symm.trans equal)
          | compound g bs => exact notCompounds f as g bs rfl rfl

/-- A round settles two terms if the arguments below them are settled. -/
theorem Lawful.round_outcome (lawful : ops.Lawful reading endless) (plain : Plain nodes)
    {unify : σ → Term → Term → m (Option σ)} (valid : reading.Valid state)
    (stays : (reading.substitution state).StaysIn nodes) {a b : Term} (left : a ∈ nodes)
    (right : b ∈ nodes)
    (below : ∀ f as g bs, (reading.substitution state).walk a = .compound f as →
      (reading.substitution state).walk b = .compound g bs →
      SettlesBelow endless reading nodes state unify as bs) :
    Settles endless (ops.unifyRound unify state a b)
      (Outcome reading nodes state (unifiers a b)) := by
  have acyclic := lawful.acyclic valid
  have walkTwice : ∀ t, (reading.substitution state).walk ((reading.substitution state).walk t) =
      (reading.substitution state).walk t :=
    fun t => Substitution.walk_of_walked (Substitution.walked_walk acyclic t)
  have sameRound : ops.unifyRound unify state a b = ops.unifyRound unify state
      ((reading.substitution state).walk a) ((reading.substitution state).walk b) := by
    simp only [unifyRound, lawful.walk valid, walkTwice]
  rw [sameRound]
  apply (lawful.round_outcome_of_walked plain valid stays
    (Substitution.walk_mem_nodes stays left) (Substitution.walk_mem_nodes stays right)
    (walkTwice a) (walkTwice b) below).mono
  exact fun result => lawful.outcome_congr (unifiers_inter_walk a b)

section Depth

variable {stores : Nat → Bindings m σ} {unify : Nat → σ → Term → Term → m (Option σ)}

/-- Unification that may nest as many rounds as there are nodes, less those that
were passed already, settles every two nodes. -/
theorem unify_outcome_of_depth (lawful : ∀ depth, (stores depth).Lawful reading endless)
    (rounds : ∀ depth, unify (depth + 1) = (stores depth).unifyRound (unify depth))
    (plain : Plain nodes) : ∀ {depth : Nat} {state : σ} {a b : Term}, reading.Valid state →
      (reading.substitution state).StaysIn nodes → a ∈ nodes → b ∈ nodes →
      nodes.card < depth + ((reading.substitution state).ancestors nodes a).card →
      Settles endless (unify depth state a b)
        (Outcome reading nodes state (unifiers a b)) := by
  intro depth
  induction depth with
  | zero =>
      intro state a b valid stays left right enough
      have := (reading.substitution state).card_ancestors_le nodes a
      omega
  | succ depth ih =>
      intro state a b valid stays left right enough
      rw [rounds]
      apply (lawful depth).round_outcome plain valid stays left right
      intro f as g bs walkedLeft walkedRight later validLater staysLater extended c inLeft d inRight
      have acyclic := (lawful depth).acyclic valid
      have down : (reading.substitution state).Descends a c := ⟨f, as, walkedLeft, inLeft⟩
      have downRight : (reading.substitution state).Descends b d := ⟨g, bs, walkedRight, inRight⟩
      exact ih validLater staysLater
        (Substitution.mem_nodes_of_descends plain.closed stays left down)
        (Substitution.mem_nodes_of_descends plain.closed stays right downRight)
        (Substitution.lt_depth_of_descends acyclic ((lawful depth).acyclic validLater) extended
          left down enough)

/-- More rounds than nodes settle every two nodes. -/
theorem unify_outcome (lawful : ∀ depth, (stores depth).Lawful reading endless)
    (rounds : ∀ depth, unify (depth + 1) = (stores depth).unifyRound (unify depth))
    (plain : Plain nodes) {depth : Nat} (valid : reading.Valid state)
    (stays : (reading.substitution state).StaysIn nodes) {a b : Term} (left : a ∈ nodes)
    (right : b ∈ nodes) (enough : nodes.card < depth) :
    Settles endless (unify depth state a b)
      (Outcome reading nodes state (unifiers a b)) :=
  unify_outcome_of_depth lawful rounds plain valid stays left right (by omega)

/-- More rounds than nodes settle every two lists of nodes. -/
theorem unifyLists_outcome (lawful : ∀ depth, (stores depth).Lawful reading endless)
    (rounds : ∀ depth, unify (depth + 1) = (stores depth).unifyRound (unify depth))
    (plain : Plain nodes) {depth : Nat} (valid : reading.Valid state)
    (stays : (reading.substitution state).StaysIn nodes) {as bs : List Term}
    (left : ∀ a ∈ as, a ∈ nodes) (right : ∀ b ∈ bs, b ∈ nodes) (enough : nodes.card < depth) :
    Settles endless (unifyLists (unify depth) state as bs)
      (Outcome reading nodes state (pairUnifiers as bs)) := by
  unfold unifyLists
  split
  · rename_i lengths
    apply unifyPairs_outcome valid stays lengths
    intro later validLater staysLater _ a inLeft b inRight
    exact unify_outcome lawful rounds plain validLater staysLater (left a inLeft)
      (right b inRight) enough
  · rename_i lengths
    apply Settles.pure
    apply (lawful 0).outcome_none
    rw [pairUnifiers_of_length_ne lengths, Set.inter_empty]

end Depth

end RelationalSolver.Bindings

namespace RelationalSolver.Substitution

variable {s next : Substitution} {a b : Term}

/-- A bare substitution has nothing pending: it rules out a set only if its
bindings do. -/
def reading : Bindings.Reading Substitution where
  substitution s := s
  Valid s := s.Acyclic ∧ s.WildcardFree
  Admits s Θ := Θ ⊆ s.solutions
  Spares s Θ := Θ.Nonempty ∧ Θ ⊆ s.solutions

theorem lawful_store : (store .enabled).Lawful reading False where
  acyclic valid := valid.1
  nonempty spared := spared.1
  solves spared := spared.2
  walk _ _ := rfl
  forbids valid v t := occurs_eq_mentions valid.1 v t
  bind {s v t} valid unbound named different free walked apart := by
    change s.lookup v = none at unbound
    refine .inl ⟨some (s.insert v t), ⟨?_, rfl, ?_, ?_⟩,
      congrArg pure (extend_of_walked named walked different)⟩
    · exact ⟨acyclic_insert valid.1 apart, wildcardFree_insert valid.2 named free⟩
    · intro Θ within spared
      refine ⟨spared.1, ?_⟩
      rw [solutions_insert unbound]
      exact Set.subset_inter spared.2 within
    · intro Θ admitted
      exact admitted.trans (solutions_subset_of_extends (extends_insert t unbound))

theorem unifyWithin_succ (check : OccursCheck) (depth : Nat) :
    unifyWithin check (depth + 1) = (store check).unifyRound (unifyWithin check depth) := rfl

/-- The nodes in sight of wildcard-free terms are free of wildcards. -/
theorem plain_sight (plain : s.WildcardFree) {ts : List Term} (free : ∀ t ∈ ts, t.WildcardFree) :
    Bindings.Plain (s.sight ts) where
  closed := s.closedUnderArgs_sight ts
  free u member := by
    rw [sight, List.mem_toFinset, Term.mem_allSubterms] at member
    obtain ⟨t, among, inside⟩ := member
    have whole : t.WildcardFree := by
      rw [List.mem_append, List.mem_map] at among
      rcases among with ⟨⟨v, t⟩, entry, rfl⟩ | among
      · exact (plain v t (Std.TreeMap.mem_toList_iff_getElem?_eq_some.mp entry)).2
      · exact free t among
    exact Term.wildcardFree_of_mem_subterms whole inside

theorem lt_rounds (nodes : Nat) : nodes < rounds nodes := by
  have positive : 0 < (nodes + 1) * (nodes + 1) := Nat.mul_pos (by omega) (by omega)
  exact Nat.lt_of_lt_of_le (Nat.lt_succ_self nodes) (Nat.le_mul_of_pos_left _ positive)

theorem unify_outcome (acyclic : s.Acyclic) (plain : s.WildcardFree) (left : a.WildcardFree)
    (right : b.WildcardFree) :
    ∃ result, Bindings.Outcome reading (s.sight [a, b]) s (unifiers a b) result ∧
      s.unify .enabled a b = .ok result := by
  rw [unify_eq]
  have small := s.card_sight_le [a, b]
  have enough := lt_rounds (s.nodes + a.size + b.size)
  simp only [Term.sizes] at small
  exact (Bindings.unify_outcome (fun _ => lawful_store) (unifyWithin_succ .enabled)
    (plain_sight plain (by simp [left, right])) (show reading.Valid s from ⟨acyclic, plain⟩)
    (s.staysIn_sight _) (mem_sight (by simp)) (mem_sight (by simp)) (by omega)).exists

theorem unifyAll_outcome (acyclic : s.Acyclic) (plain : s.WildcardFree) {as bs : List Term}
    (left : ∀ a ∈ as, a.WildcardFree) (right : ∀ b ∈ bs, b.WildcardFree) :
    ∃ result, Bindings.Outcome reading (s.sight (as ++ bs)) s (pairUnifiers as bs) result ∧
      s.unifyAll .enabled as bs = .ok result := by
  have free : ∀ t ∈ as ++ bs, t.WildcardFree := by
    intro t member
    rcases List.mem_append.mp member with inLeft | inRight
    · exact left t inLeft
    · exact right t inRight
  have small := s.card_sight_le (as ++ bs)
  have enough := lt_rounds (s.nodes + Term.sizes as + Term.sizes bs)
  rw [Term.sizes_append] at small
  rw [unifyAll_eq]
  exact (Bindings.unifyLists_outcome (fun _ => lawful_store) (unifyWithin_succ .enabled)
    (plain_sight plain free) (show reading.Valid s from ⟨acyclic, plain⟩) (s.staysIn_sight _)
    (fun a member => mem_sight (List.mem_append_left bs member))
    (fun b member => mem_sight (List.mem_append_right as member)) (by omega)).exists

/-- Unification with the occurrence test is sound, complete and most general.  It
ends; if it succeeds, the bindings are kept, stay acyclic, make the terms equal
and hold under every assignment that makes the former bindings hold and the terms
equal; and if it fails, there is no such assignment. -/
theorem unify_checked_mostGeneral (acyclic : s.Acyclic) (plain : s.WildcardFree)
    (left : a.WildcardFree) (right : b.WildcardFree) :
    ∃ result, s.unify .enabled a b = .ok result ∧
      (∀ next, result = some next →
        next.Extends s ∧ next.Acyclic ∧ next.resolve a = next.resolve b ∧
        ∀ θ ∈ s.solutions, a.mapVars θ = b.mapVars θ → θ ∈ next.solutions) ∧
      (result = none → ∀ θ ∈ s.solutions, a.mapVars θ ≠ b.mapVars θ) := by
  obtain ⟨result, outcome, returned⟩ := unify_outcome acyclic plain left right
  refine ⟨result, returned, ?_, ?_⟩
  · rintro next rfl
    obtain ⟨valid, extended, _, solved, _⟩ := outcome
    change next.solutions = s.solutions ∩ unifiers a b at solved
    have general := resolution_mem valid.1
    change next.resolution ∈ next.solutions at general
    rw [solved] at general
    refine ⟨extended, valid.1, general.2, ?_⟩
    intro θ solves equal
    rw [solved]
    exact ⟨solves, equal⟩
  · rintro rfl θ solves equal
    apply outcome {θ}
    · exact Set.singleton_subset_iff.mpr equal
    · exact ⟨Set.singleton_nonempty θ, Set.singleton_subset_iff.mpr solves⟩

/-- A variable is not unified with a compound that leads back to it through a
binding. -/
theorem unify_indirect_cycle :
    let x := Var.numbered 1
    let y := Var.numbered 2
    let s := empty.insert x (.tuple [.var y])
    s.Acyclic ∧ s.WildcardFree ∧ (Term.var y).WildcardFree ∧ (Term.tuple [.var x]).WildcardFree ∧
      s.unify .enabled (.var y) (.tuple [.var x]) = .ok none := by
  intro x y s
  have apart : ¬ empty.Reaches (.tuple [.var y]) x := by
    rintro ⟨v, inside, path⟩
    rcases Relation.ReflTransGen.cases_head path with rfl | ⟨_, ⟨_, bound, _⟩, _⟩
    · simp [x, y] at inside
    · simp at bound
  have acyclic : s.Acyclic := acyclic_insert acyclic_empty apart
  have plain : s.WildcardFree := wildcardFree_insert wildcardFree_empty (by decide) (by decide)
  refine ⟨acyclic, plain, by decide, by decide, ?_⟩
  obtain ⟨result, returned, success, _⟩ := unify_checked_mostGeneral acyclic plain
    (a := .var y) (b := .tuple [.var x]) (by decide) (by decide)
  cases result with
  | none => exact returned
  | some next =>
      obtain ⟨extended, acyclicNext, equal, _⟩ := success next rfl
      have inner := resolve_of_bound acyclicNext
        (extended x (.tuple [.var y]) (by simp [s, lookup_insert]))
      have sizes := congrArg Term.size equal
      simp only [resolve_compound, List.map_cons, List.map_nil, inner, Term.size,
        Term.sizes] at sizes
      omega

end RelationalSolver.Substitution
