import RelationalSolver.Proofs.Substitution.Descent
import RelationalSolver.Unification

/-!
# Unification over a lawful store of bindings

The algorithm asks a store of bindings three things.  A store is lawful if its
answers are those of the substitution that it holds, and if recording a binding
rules out only assignments that something pending excludes.  What an attempt to
make two terms equal ends in then follows for every lawful store at once.
-/

namespace RelationalSolver

/-! ## Computations that may have no end -/

/-- Monads in which a computation can turn out to have no end. -/
class Unbounded (m : Type → Type) [Monad m] where
  unending : {α : Type} → m α
  unending_bind : ∀ {α β : Type} (f : α → m β), unending >>= f = unending

instance : Unbounded (Except Unending) where
  unending := throw .unending
  unending_bind _ := rfl

section Settles

variable {m : Type → Type} [Monad m] [Unbounded m] {α β : Type}

/-- The computation does nothing but give a result that satisfies the condition;
it may have no end only where that is allowed. -/
def Settles (endless : Prop) (x : m α) (condition : α → Prop) : Prop :=
  (∃ a, condition a ∧ x = pure a) ∨ (endless ∧ x = Unbounded.unending)

variable {endless : Prop} {x : m α} {condition stronger : α → Prop}

theorem Settles.pure {a : α} (holds : condition a) :
    Settles endless (Pure.pure a : m α) condition := .inl ⟨a, holds, rfl⟩

theorem Settles.mono (settles : Settles endless x stronger)
    (weaker : ∀ a, stronger a → condition a) : Settles endless x condition := by
  rcases settles with ⟨a, holds, same⟩ | stuck
  · exact .inl ⟨a, weaker a holds, same⟩
  · exact .inr stuck

theorem Settles.bind [LawfulMonad m] {f : α → m β} {result : β → Prop}
    (first : Settles endless x condition)
    (second : ∀ a, condition a → Settles endless (f a) result) :
    Settles endless (x >>= f) result := by
  rcases first with ⟨a, holds, rfl⟩ | ⟨allowed, rfl⟩
  · rw [pure_bind]
    exact second a holds
  · exact .inr ⟨allowed, Unbounded.unending_bind f⟩

/-- Where computations must end, there is a result. -/
theorem Settles.exists (settles : Settles False x condition) : ∃ a, condition a ∧ x = Pure.pure a :=
  settles.elim id fun stuck => stuck.1.elim

end Settles

/-! ## Equations between lists -/

/-- The assignments that make two lists equal. -/
def pairUnifiers (as bs : List Term) : Set Assignment :=
  {θ | as.map (·.mapVars θ) = bs.map (·.mapVars θ)}

@[simp] theorem pairUnifiers_nil : pairUnifiers [] [] = Set.univ :=
  Set.eq_univ_of_forall fun _ => rfl

theorem pairUnifiers_cons (a b : Term) (as bs : List Term) :
    pairUnifiers (a :: as) (b :: bs) = unifiers a b ∩ pairUnifiers as bs := by
  ext θ
  simp [pairUnifiers, unifiers]

theorem pairUnifiers_of_length_ne {as bs : List Term} (different : as.length ≠ bs.length) :
    pairUnifiers as bs = ∅ := by
  apply Set.eq_empty_of_forall_notMem
  intro θ equal
  exact different (by simpa using congrArg List.length equal)

theorem unifiers_compound {f g : String} {as bs : List Term} :
    unifiers (.compound f as) (.compound g bs) = {θ | f = g ∧ θ ∈ pairUnifiers as bs} := by
  ext θ
  simp [unifiers, pairUnifiers]

namespace Bindings

variable {m : Type → Type} {σ : Type}

/-- What a store of bindings is about. -/
structure Reading (σ : Type) where
  /-- The substitution that it holds. -/
  substitution : σ → Substitution
  /-- The stores that the algorithm comes across. -/
  Valid : σ → Prop
  /-- Every assignment of the set makes the bindings hold, and whatever else is to
  be decided can still be met within the set. -/
  Admits : σ → Set Assignment → Prop
  /-- Nothing recorded rules out the set. -/
  Spares : σ → Set Assignment → Prop

variable {reading : Reading σ} {nodes : Finset Term} {state next : σ}
variable {new : Set Assignment}

/-- What an attempt to restrict the solutions to a set ends in.  Success records
exactly that set; failure means that no set within it was left to be spared. -/
def Outcome (reading : Reading σ) (nodes : Finset Term) (state : σ) (new : Set Assignment) :
    Option σ → Prop
  | some next =>
      reading.Valid next ∧ (reading.substitution next).Extends (reading.substitution state) ∧
      (reading.substitution next).StaysIn nodes ∧
      (reading.substitution next).solutions = (reading.substitution state).solutions ∩ new ∧
      (∀ Θ ⊆ new, reading.Spares state Θ → reading.Spares next Θ) ∧
      (∀ Θ, reading.Admits next Θ → reading.Admits state Θ)
  | none => ∀ Θ ⊆ new, ¬ reading.Spares state Θ

/-- Stores whose answers are those of their substitution. -/
structure Lawful [Monad m] [Unbounded m] (ops : Bindings m σ) (reading : Reading σ)
    (endless : Prop) : Prop where
  acyclic : ∀ {state}, reading.Valid state → (reading.substitution state).Acyclic
  nonempty : ∀ {state Θ}, reading.Spares state Θ → Θ.Nonempty
  solves : ∀ {state Θ}, reading.Spares state Θ → Θ ⊆ (reading.substitution state).solutions
  walk : ∀ {state}, reading.Valid state → ∀ t,
    ops.walk state t = (reading.substitution state).walk t
  forbids : ∀ {state}, reading.Valid state → ∀ v t,
    ops.forbids state v t = pure (((reading.substitution state).resolve t).mentions v)
  /-- An unbound variable is bound to a walked term that does not hold it. -/
  bind : ∀ {state v t}, reading.Valid state →
    (reading.substitution state).lookup v = none → v ≠ .wildcard → t ≠ .var v →
    t.WildcardFree → (reading.substitution state).Walked t →
    ¬ (reading.substitution state).Reaches t v →
    Settles endless (ops.bind state v t) fun
      | some next =>
          reading.Valid next ∧
          reading.substitution next = (reading.substitution state).insert v t ∧
          (∀ Θ ⊆ unifiers (.var v) t, reading.Spares state Θ → reading.Spares next Θ) ∧
          (∀ Θ, reading.Admits next Θ → reading.Admits state Θ)
      | none => ∀ Θ ⊆ unifiers (.var v) t, ¬ reading.Spares state Θ

/-! ## Outcomes -/

theorem Outcome.refl (valid : reading.Valid state)
    (stays : (reading.substitution state).StaysIn nodes) :
    Outcome reading nodes state Set.univ (some state) := by
  refine ⟨valid, .refl _, stays, ?_, ?_, ?_⟩
  · rw [Set.inter_univ]
  · exact fun Θ _ spared => spared
  · exact fun Θ admitted => admitted

theorem Outcome.trans {first second : Set Assignment} {result : Option σ}
    (earlier : Outcome reading nodes state first (some next))
    (later : Outcome reading nodes next second result) :
    Outcome reading nodes state (first ∩ second) result := by
  obtain ⟨_, extended, _, solved, spares, admits⟩ := earlier
  cases result with
  | none =>
      intro Θ within spared
      rw [Set.subset_inter_iff] at within
      exact later Θ within.2 (spares Θ within.1 spared)
  | some last =>
      obtain ⟨valid, extendedLater, stays, solvedLater, sparesLater, admitsLater⟩ := later
      refine ⟨valid, extendedLater.trans extended, stays, ?_, ?_, ?_⟩
      · rw [solvedLater, solved, Set.inter_assoc]
      · intro Θ within spared
        rw [Set.subset_inter_iff] at within
        exact sparesLater Θ within.2 (spares Θ within.1 spared)
      · exact fun Θ admitted => admits Θ (admitsLater Θ admitted)

/-- Failing on one set is failing on every smaller one. -/
theorem Outcome.none_of_subset {smaller : Set Assignment} (within : smaller ⊆ new)
    (failed : Outcome reading nodes state new none) :
    Outcome reading nodes state smaller none :=
  fun Θ inside => failed Θ (inside.trans within)

variable [Monad m] [Unbounded m] {ops : Bindings m σ} {endless : Prop}

/-- The outcome depends on the set only where the bindings hold. -/
theorem Lawful.outcome_congr (lawful : ops.Lawful reading endless) {other : Set Assignment}
    (agree : (reading.substitution state).solutions ∩ new =
      (reading.substitution state).solutions ∩ other) {result : Option σ}
    (outcome : Outcome reading nodes state new result) :
    Outcome reading nodes state other result := by
  have inside : ∀ Θ ⊆ other, reading.Spares state Θ → Θ ⊆ new := by
    intro Θ within spared θ member
    have both := Set.mem_inter (lawful.solves spared member) (within member)
    rw [← agree] at both
    exact both.2
  cases result with
  | none => exact fun Θ within spared => outcome Θ (inside Θ within spared) spared
  | some next =>
      obtain ⟨valid, extended, stays, solved, spares, admits⟩ := outcome
      refine ⟨valid, extended, stays, solved.trans agree, ?_, admits⟩
      exact fun Θ within spared => spares Θ (inside Θ within spared) spared

/-- Terms that no assignment makes equal rule out everything. -/
theorem Lawful.outcome_none (lawful : ops.Lawful reading endless)
    (clash : (reading.substitution state).solutions ∩ new = ∅) :
    Outcome reading nodes state new none := by
  intro Θ within spared
  obtain ⟨θ, member⟩ := lawful.nonempty spared
  have both := Set.mem_inter (lawful.solves spared member) (within member)
  rw [clash] at both
  exact both

/-- The nodes of wildcard-free terms. -/
structure Plain (nodes : Finset Term) : Prop where
  closed : Term.ClosedUnderArgs nodes
  free : ∀ t ∈ nodes, t.WildcardFree

variable [LawfulMonad m]

theorem Lawful.bindVar_outcome (lawful : ops.Lawful reading endless) (plain : Plain nodes)
    (valid : reading.Valid state) (stays : (reading.substitution state).StaysIn nodes)
    {v : Var} {t : Term} (unbound : (reading.substitution state).lookup v = none)
    (named : v ≠ .wildcard) (different : t ≠ .var v) (member : t ∈ nodes)
    (walked : (reading.substitution state).Walked t) :
    Settles endless (ops.bindVar state v t)
      (Outcome reading nodes state (unifiers (.var v) t)) := by
  have acyclic := lawful.acyclic valid
  have bound : ¬ (reading.substitution state).Reaches t v →
      Settles endless (ops.bind state v t)
        (Outcome reading nodes state (unifiers (.var v) t)) := by
    intro apart
    apply (lawful.bind valid unbound named different (plain.free t member) walked apart).mono
    intro result settled
    cases result with
    | none => exact settled
    | some next =>
        obtain ⟨validNext, same, spares, admits⟩ := settled
        refine ⟨validNext, ?_, ?_, ?_, spares, admits⟩
        · rw [same]
          exact Substitution.extends_insert t unbound
        · intro w u entry
          rw [same, Substitution.lookup_insert] at entry
          split at entry
          · cases entry
            exact member
          · exact stays w u entry
        · rw [same, Substitution.solutions_insert unbound]
  cases t with
  | var w =>
      apply bound
      rintro ⟨x, inside, path⟩
      rw [Term.mentions_var] at inside
      subst inside
      rcases Relation.ReflTransGen.cases_head path with rfl | ⟨y, ⟨u, entry, _⟩, _⟩
      · exact different rfl
      · rw [walked w rfl] at entry
        contradiction
  | atom a =>
      apply bound
      rintro ⟨x, inside, _⟩
      simp at inside
  | compound f args =>
      rw [bindVar, lawful.forbids valid, pure_bind]
      split
      · rename_i inside
        apply Settles.pure
        exact lawful.outcome_none (Substitution.disjoint_unifiers_of_mentions acyclic inside)
      · rename_i outside
        apply bound
        intro reached
        exact outside ((Substitution.mentions_resolve acyclic).mpr ⟨reached, unbound⟩)

/-- A function that settles every pair of nodes that is reached by descending
from two terms. -/
def SettlesBelow (endless : Prop) (reading : Reading σ) (nodes : Finset Term) (state : σ)
    (unify : σ → Term → Term → m (Option σ)) (as bs : List Term) : Prop :=
  ∀ later, reading.Valid later → (reading.substitution later).StaysIn nodes →
    (reading.substitution later).Extends (reading.substitution state) →
    ∀ a ∈ as, ∀ b ∈ bs,
      Settles endless (unify later a b) (Outcome reading nodes later (unifiers a b))

theorem unifyPairs_outcome {unify : σ → Term → Term → m (Option σ)} :
    ∀ {as bs : List Term} {state : σ}, reading.Valid state →
      (reading.substitution state).StaysIn nodes → as.length = bs.length →
      SettlesBelow endless reading nodes state unify as bs →
      Settles endless (unifyPairs unify state as bs)
        (Outcome reading nodes state (pairUnifiers as bs))
  | [], [], state, valid, stays, _, _ => by
      rw [unifyPairs, pairUnifiers_nil]
      · exact .pure (Outcome.refl valid stays)
      · simp
  | a :: as, b :: bs, state, valid, stays, lengths, below => by
      rw [unifyPairs, pairUnifiers_cons]
      apply (below state valid stays (.refl _) a (by simp) b (by simp)).bind
      intro result outcome
      cases result with
      | none => exact .pure (outcome.none_of_subset Set.inter_subset_left)
      | some next =>
          obtain ⟨validNext, extended, staysNext, _⟩ := id outcome
          apply (unifyPairs_outcome validNext staysNext (by simpa using lengths) _).mono
          · exact fun result rest => outcome.trans rest
          · intro later validLater staysLater extendedLater c inLeft d inRight
            exact below later validLater staysLater (extendedLater.trans extended) c
              (List.mem_cons_of_mem a inLeft) d (List.mem_cons_of_mem b inRight)

end Bindings

end RelationalSolver
