import Mathlib.Data.Finset.Union
import RelationalSolver.Proofs.Substitution.Solutions

/-!
# Descent through bindings

The occurrence test and unification go from a term to the arguments of the
compound that it walks to.  In an acyclic substitution no path of such steps
returns to a term that it has passed, so it is not longer than the number of
nodes in sight.  The number of terms passed on the way to a node only grows with
further bindings, which lets unification bind while it descends.
-/

namespace RelationalSolver

namespace Term

mutual

/-- The nodes of a term, as terms. -/
def subterms : Term → List Term
  | .var v => [.var v]
  | .atom a => [.atom a]
  | .compound f args => .compound f args :: allSubterms args

/-- The nodes of an argument list. -/
def allSubterms : List Term → List Term
  | [] => []
  | t :: ts => t.subterms ++ allSubterms ts

end

@[simp] theorem mem_allSubterms {u : Term} {ts : List Term} :
    u ∈ allSubterms ts ↔ ∃ t ∈ ts, u ∈ t.subterms := by
  induction ts with
  | nil => simp [allSubterms]
  | cons t ts ih => simp [allSubterms, ih]

theorem mem_subterms_self (t : Term) : t ∈ t.subterms := by
  cases t <;> simp [subterms]

mutual

theorem length_subterms : ∀ t : Term, t.subterms.length = t.size
  | .var _ => rfl
  | .atom _ => rfl
  | .compound f args => by
      rw [subterms, size, List.length_cons, length_allSubterms args, Nat.add_comm]

theorem length_allSubterms : ∀ ts : List Term, (allSubterms ts).length = sizes ts
  | [] => rfl
  | t :: ts => by
      rw [allSubterms, sizes, List.length_append, length_subterms t, length_allSubterms ts]

end

/-- The arguments of a node are nodes. -/
theorem mem_subterms_of_arg {f : String} {args : List Term} {u : Term} (member : u ∈ args) :
    ∀ {t : Term}, compound f args ∈ t.subterms → u ∈ t.subterms := by
  intro t
  induction t using rec_args with
  | var v => simp [subterms]
  | atom a => simp [subterms]
  | compound g others ih =>
      intro inside
      rw [subterms, List.mem_cons, mem_allSubterms] at inside ⊢
      right
      rcases inside with same | ⟨t, among, inside⟩
      · cases same
        exact ⟨u, member, mem_subterms_self u⟩
      · exact ⟨t, among, ih t among inside⟩

theorem wildcardFree_of_mem_subterms {t u : Term} (free : t.WildcardFree)
    (member : u ∈ t.subterms) : u.WildcardFree := by
  induction t using rec_args with
  | var v =>
      rw [subterms, List.mem_singleton] at member
      exact member ▸ free
  | atom a =>
      rw [subterms, List.mem_singleton] at member
      exact member ▸ free
  | compound f args ih =>
      rw [subterms, List.mem_cons, mem_allSubterms] at member
      rcases member with same | ⟨t, among, inside⟩
      · exact same ▸ free
      · exact ih t among (free.arg among) inside

/-- With a compound the set holds its arguments. -/
def ClosedUnderArgs (nodes : Finset Term) : Prop :=
  ∀ f args, compound f args ∈ nodes → ∀ t ∈ args, t ∈ nodes

end Term

namespace Substitution

variable {s next : Substitution} {v w : Var} {t u : Term} {nodes : Finset Term}

/-- Every bound term is among the nodes. -/
def StaysIn (s : Substitution) (nodes : Finset Term) : Prop :=
  ∀ v t, s.lookup v = some t → t ∈ nodes

/-- The second term is an argument of the compound that the first walks to. -/
def Descends (s : Substitution) (t u : Term) : Prop :=
  ∃ f args, s.walk t = .compound f args ∧ u ∈ args

theorem size_lt_of_descends (acyclic : s.Acyclic) (down : s.Descends t u) :
    (s.resolve u).size < (s.resolve t).size := by
  obtain ⟨f, args, walked, member⟩ := down
  rw [← resolve_walk acyclic t, walked, resolve_compound]
  exact Term.size_lt_of_mem (List.mem_map_of_mem member)

theorem not_descends_self (acyclic : s.Acyclic) (t : Term) :
    ¬ Relation.TransGen s.Descends t t := by
  have smaller : ∀ {t u}, Relation.TransGen s.Descends t u →
      (s.resolve u).size < (s.resolve t).size := by
    intro t u path
    induction path with
    | single down => exact size_lt_of_descends acyclic down
    | tail _ down ih => exact Nat.lt_trans (size_lt_of_descends acyclic down) ih
  intro path
  exact Nat.lt_irrefl _ (smaller path)

theorem descends_of_extends (acyclic : next.Acyclic) (extended : next.Extends s)
    (down : s.Descends t u) : next.Descends t u := by
  obtain ⟨f, args, walked, member⟩ := down
  refine ⟨f, args, ?_, member⟩
  rw [← walk_walk_of_extends acyclic extended, walked, walk_compound]

open Classical in
/-- The nodes from which a term is reached by descending. -/
noncomputable def ancestors (s : Substitution) (nodes : Finset Term) (u : Term) : Finset Term :=
  nodes.filter fun t => Relation.TransGen s.Descends t u

theorem card_ancestors_le (s : Substitution) (nodes : Finset Term) (u : Term) :
    (s.ancestors nodes u).card ≤ nodes.card := by
  classical
  exact Finset.card_filter_le _ _

theorem card_ancestors_lt (acyclic : s.Acyclic) (member : t ∈ nodes) (down : s.Descends t u) :
    (s.ancestors nodes t).card < (s.ancestors nodes u).card := by
  classical
  apply Finset.card_lt_card
  rw [Finset.ssubset_iff_of_subset]
  · refine ⟨t, ?_, ?_⟩
    · exact Finset.mem_filter.mpr ⟨member, .single down⟩
    · intro passed
      exact not_descends_self acyclic t (Finset.mem_filter.mp passed).2
  · intro x passed
    rw [ancestors, Finset.mem_filter] at passed ⊢
    exact ⟨passed.1, passed.2.tail down⟩

theorem card_ancestors_mono (nodes : Finset Term) (acyclic : next.Acyclic)
    (extended : next.Extends s) (u : Term) :
    (s.ancestors nodes u).card ≤ (next.ancestors nodes u).card := by
  classical
  apply Finset.card_le_card
  intro x passed
  rw [ancestors, Finset.mem_filter] at passed ⊢
  have kept : s.Descends ≤ next.Descends :=
    fun _ _ down => descends_of_extends acyclic extended down
  exact ⟨passed.1, Relation.TransGen.mono kept x u passed.2⟩

/-- A level further down, after more bindings, one round less is enough. -/
theorem lt_depth_of_descends {depth : Nat} (acyclic : s.Acyclic) (acyclicNext : next.Acyclic)
    (extended : next.Extends s) (member : t ∈ nodes) (down : s.Descends t u)
    (enough : nodes.card < depth + 1 + (s.ancestors nodes t).card) :
    nodes.card < depth + (next.ancestors nodes u).card := by
  have passed := card_ancestors_lt acyclic member down
  have kept := card_ancestors_mono nodes acyclicNext extended u
  omega

theorem walk_mem_nodes (stays : s.StaysIn nodes) (member : t ∈ nodes) : s.walk t ∈ nodes :=
  walk_mem (· ∈ nodes) stays member

theorem mem_nodes_of_descends (closed : Term.ClosedUnderArgs nodes) (stays : s.StaysIn nodes)
    (member : t ∈ nodes) (down : s.Descends t u) : u ∈ nodes := by
  obtain ⟨f, args, walked, inside⟩ := down
  exact closed f args (walked ▸ walk_mem_nodes stays member) u inside

/-! ## Nodes in sight -/

/-- The nodes of some terms and of all bound terms. -/
def sight (s : Substitution) (ts : List Term) : Finset Term :=
  (Term.allSubterms (s.toList.map (·.2) ++ ts)).toFinset

theorem nodes_eq_sizes (s : Substitution) : s.nodes = Term.sizes (s.toList.map (·.2)) := by
  have total : ∀ (entries : List (Var × Term)) (start : Nat),
      entries.foldl (fun total entry => total + entry.2.size) start =
        start + Term.sizes (entries.map (·.2)) := by
    intro entries
    induction entries with
    | nil => simp [Term.sizes]
    | cons entry entries ih =>
        intro start
        rw [List.foldl_cons, ih, List.map_cons, Term.sizes, Nat.add_assoc]
  rw [nodes, Std.TreeMap.foldl_eq_foldl_toList, total, Nat.zero_add, toList]

theorem card_sight_le (s : Substitution) (ts : List Term) :
    (s.sight ts).card ≤ s.nodes + Term.sizes ts := by
  rw [nodes_eq_sizes, ← Term.sizes_append, ← Term.length_allSubterms]
  exact List.toFinset_card_le _

theorem closedUnderArgs_sight (s : Substitution) (ts : List Term) :
    Term.ClosedUnderArgs (s.sight ts) := by
  intro f args member t inside
  rw [sight, List.mem_toFinset, Term.mem_allSubterms] at member ⊢
  obtain ⟨u, among, member⟩ := member
  exact ⟨u, among, Term.mem_subterms_of_arg inside member⟩

theorem staysIn_sight (s : Substitution) (ts : List Term) : s.StaysIn (s.sight ts) := by
  intro v t bound
  rw [sight, List.mem_toFinset, Term.mem_allSubterms]
  refine ⟨t, ?_, Term.mem_subterms_self t⟩
  rw [List.mem_append, List.mem_map]
  exact .inl ⟨(v, t), Std.TreeMap.mem_toList_iff_getElem?_eq_some.mpr bound, rfl⟩

theorem mem_sight {ts : List Term} (member : t ∈ ts) : t ∈ s.sight ts := by
  rw [sight, List.mem_toFinset, Term.mem_allSubterms]
  exact ⟨t, List.mem_append_right _ member, Term.mem_subterms_self t⟩

/-! ## The occurrence test -/

theorem anyWithin_eq {test : Term → Except Unending Bool} {passes : Term → Bool} :
    ∀ {ts : List Term}, (∀ t ∈ ts, test t = .ok (passes t)) →
      anyWithin test ts = .ok (ts.any passes)
  | [], _ => rfl
  | t :: ts, tests => by
      have rest := anyWithin_eq fun u member => tests u (List.mem_cons_of_mem t member)
      rw [anyWithin, tests t (List.mem_cons_self ..)]
      change (if passes t = true then _ else _) = _
      rw [rest, List.any_cons]
      cases passes t <;> rfl

theorem occursWithin_eq (acyclic : s.Acyclic) (closed : Term.ClosedUnderArgs nodes)
    (stays : s.StaysIn nodes) : ∀ {depth : Nat} {t : Term}, t ∈ nodes →
      nodes.card < depth + (s.ancestors nodes t).card →
      s.occursWithin v depth t = .ok ((s.resolve t).mentions v) := by
  intro depth
  induction depth with
  | zero =>
      intro t member enough
      have := s.card_ancestors_le nodes t
      omega
  | succ depth ih =>
      intro t member enough
      rw [occursWithin, occursBy, ← resolve_walk acyclic t]
      cases walked : s.walk t with
      | var w =>
          have unbound := walked_walk acyclic t w walked
          rw [resolve_of_unbound unbound]
          rfl
      | atom a => rfl
      | compound f args =>
          have inside : ∀ u ∈ args,
              s.occursWithin v depth u = .ok ((s.resolve u).mentions v) := by
            intro u among
            have down : s.Descends t u := ⟨f, args, walked, among⟩
            have deeper := card_ancestors_lt acyclic member down
            exact ih (mem_nodes_of_descends closed stays member down) (by omega)
          have tested := anyWithin_eq inside
          change anyWithin (s.occursWithin v depth) args = _
          rw [tested, resolve_compound, Term.mentions]
          congr 1
          rw [Bool.eq_iff_iff]
          simp

/-- The occurrence test ends in an acyclic substitution, and says whether the
variable stands in the resolved term. -/
theorem occurs_eq_mentions (acyclic : s.Acyclic) (v : Var) (t : Term) :
    s.occurs v t = .ok ((s.resolve t).mentions v) := by
  rw [occurs_eq]
  apply occursWithin_eq acyclic (s.closedUnderArgs_sight [t]) (s.staysIn_sight [t])
    (mem_sight (List.mem_singleton_self t))
  have small := s.card_sight_le [t]
  simp only [Term.sizes] at small
  omega

end Substitution

end RelationalSolver
