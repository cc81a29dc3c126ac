import RelationalSolver.Proofs.Substitution.Condensing
import RelationalSolver.Proofs.Unification.Coupling
import RelationalSolver.Proofs.Unification.Locality
import RelationalSolver.Proofs.Unification.MostGeneral

/-!
# Unification in lockstep

Two stores hold acyclic substitutions that walk alike.  Unification with the occurrence
test passes through the same rounds over both of them and ends in both, at whatever depths
it is cut off, as long as each is larger than the number of nodes in sight.  The terms may
hold wildcards.
-/

namespace RelationalSolver

namespace Substitution

variable {s next other last : Substitution} {v : Var} {t : Term} {nodes : Finset Term}

/-- Acyclic substitutions that walk alike. -/
structure Twins (s other : Substitution) : Prop where
  acyclic : s.Acyclic
  acyclicOther : other.Acyclic
  alike : s.Matches other

theorem Twins.refl (acyclic : s.Acyclic) : s.Twins s := ⟨acyclic, acyclic, .refl acyclic.walksEnd⟩

theorem Acyclic.insert_apart (acyclic : s.Acyclic) (apart : (s.resolve t).mentions v = false)
    (unbound : s.lookup v = none) : (s.insert v t).Acyclic := by
  apply acyclic_insert acyclic
  intro reaches
  rw [(mentions_resolve acyclic).mpr ⟨reaches, unbound⟩] at apart
  cases apart

theorem Twins.insert (twins : s.Twins other) (unbound : s.lookup v = none) (walked : s.Walked t)
    (different : t ≠ .var v) (apart : (s.resolve t).mentions v = false) :
    (s.insert v t).Twins (other.insert v t) where
  acyclic := twins.acyclic.insert_apart apart unbound
  acyclicOther := by
    apply twins.acyclicOther.insert_apart _ (twins.alike.lookup_eq_none_iff.mpr unbound)
    rwa [twins.alike.resolve twins.acyclic twins.acyclicOther]
  alike := twins.alike.insert unbound walked different

theorem StaysIn.insert (stays : s.StaysIn nodes) (member : t ∈ nodes) :
    (s.insert v t).StaysIn nodes := by
  intro w u entry
  rw [lookup_insert] at entry
  split at entry
  · cases entry
    exact member
  · exact stays w u entry

/-- Both substitutions grow within their nodes. -/
structure Grows (nodes nodesOther : Finset Term) (s other next nextOther : Substitution) :
    Prop where
  extended : next.Extends s
  extendedOther : nextOther.Extends other
  stays : next.StaysIn nodes
  staysOther : nextOther.StaysIn nodesOther

theorem Grows.refl {nodesOther : Finset Term} (stays : s.StaysIn nodes)
    (staysOther : other.StaysIn nodesOther) : Grows nodes nodesOther s other s other :=
  ⟨.refl s, .refl other, stays, staysOther⟩

theorem Grows.trans {nodesOther : Finset Term} {nextOther lastOther : Substitution}
    (later : Grows nodes nodesOther next nextOther last lastOther)
    (earlier : Grows nodes nodesOther s other next nextOther) :
    Grows nodes nodesOther s other last lastOther :=
  ⟨later.extended.trans earlier.extended, later.extendedOther.trans earlier.extendedOther,
    later.stays, later.staysOther⟩

end Substitution

open Substitution

namespace Coupling

variable {m : Type → Type} [Monad m] (c : Coupling m) {σ : Type}

/-- Stores that hold twins, answer from them and go on holding twins. -/
structure Paired (held : σ → Substitution) (R : σ → σ → Prop) (ops opsOther : Bindings m σ) :
    Prop where
  twins : ∀ {s other}, R s other → (held s).Twins (held other)
  walk : ∀ {s other}, R s other → ∀ t, ops.walk s t = (held s).walk t
  walkOther : ∀ {s other}, R s other → ∀ t, opsOther.walk other t = (held other).walk t
  forbids : ∀ {s other}, R s other → ∀ v t,
    c.Related (fun inside insideOther =>
      inside = insideOther ∧ inside = ((held s).resolve t).mentions v)
      (ops.forbids s v t) (opsOther.forbids other v t)
  bind : ∀ {s other}, R s other → ∀ v t, (held s).lookup v = none → v ≠ .wildcard →
    t ≠ .var v → (held s).Walked t → ((held s).resolve t).mentions v = false →
    c.Related (Option.Rel fun next nextOther => R next nextOther ∧
        held next = (held s).insert v t ∧ held nextOther = (held other).insert v t)
      (ops.bind s v t) (opsOther.bind other v t)

variable {held : σ → Substitution} {R : σ → σ → Prop} {ops opsOther : Bindings m σ}
variable {nodes nodesOther : Finset Term} {s other : σ} {a b t : Term} {v : Var}

/-- Both stores have come to related ones that hold more. -/
def Onward (held : σ → Substitution) (R : σ → σ → Prop) (nodes nodesOther : Finset Term)
    (s other next nextOther : σ) : Prop :=
  R next nextOther ∧
    Grows nodes nodesOther (held s) (held other) (held next) (held nextOther)

variable {c} [LawfulMonad m]

theorem Paired.bindVar (paired : c.Paired held R ops opsOther) (related : R s other)
    (stays : (held s).StaysIn nodes) (staysOther : (held other).StaysIn nodesOther)
    (unbound : (held s).lookup v = none) (named : v ≠ .wildcard) (different : t ≠ .var v)
    (walked : (held s).Walked t) (inside : t ∈ nodes) (insideOther : t ∈ nodesOther) :
    c.Related (Option.Rel (Onward held R nodes nodesOther s other))
      (ops.bindVar s v t) (opsOther.bindVar other v t) := by
  apply c.bindVar (((held s).resolve t).mentions v = false)
  · exact apart_of_walked walked different
  · rintro f args rfl
    apply c.mono (paired.forbids related v _)
    rintro found _ ⟨same, answer⟩
    exact ⟨same, fun absent => answer.symm.trans absent⟩
  · intro apart
    apply c.mono_rel (paired.bind related v t unbound named different walked apart)
    rintro next nextOther ⟨relatedNext, same, sameOther⟩
    have unboundOther := (paired.twins related).alike.lookup_eq_none_iff.mpr unbound
    refine ⟨relatedNext, ?_⟩
    rw [same, sameOther]
    exact ⟨extends_insert t unbound, extends_insert t unboundOther, stays.insert inside,
      staysOther.insert insideOther⟩

section Depth

variable {stores others : Nat → Bindings m σ}
variable {unify unifyOther : Nat → σ → Term → Term → m (Option σ)}

/-- Unification that may nest as many rounds as there are nodes, less those that were
passed already, goes the same way in both stores. -/
theorem Paired.unify_of_depth (paired : ∀ depth depthOther,
      c.Paired held R (stores depth) (others depthOther))
    (rounds : ∀ depth, unify (depth + 1) = (stores depth).unifyRound (unify depth))
    (roundsOther : ∀ depth,
      unifyOther (depth + 1) = (others depth).unifyRound (unifyOther depth))
    (closed : Term.ClosedUnderArgs nodes) (closedOther : Term.ClosedUnderArgs nodesOther) :
    ∀ {depth depthOther : Nat} {s other : σ} {a b : Term}, R s other →
      (held s).StaysIn nodes → (held other).StaysIn nodesOther →
      a ∈ nodes → b ∈ nodes → a ∈ nodesOther → b ∈ nodesOther →
      nodes.card < depth + ((held s).ancestors nodes a).card →
      nodesOther.card < depthOther + ((held other).ancestors nodesOther a).card →
      c.Related (Option.Rel (Onward held R nodes nodesOther s other))
        (unify depth s a b) (unifyOther depthOther other a b) := by
  intro depth
  induction depth with
  | zero =>
      intro _ s _ a _ _ _ _ _ _ _ _ enough _
      have := (held s).card_ancestors_le nodes a
      omega
  | succ depth ih =>
      intro depthOther s other a b related stays staysOther left right leftOther rightOther
        enough enoughOther
      cases depthOther with
      | zero =>
          have := (held other).card_ancestors_le nodesOther a
          omega
      | succ depthOther =>
          have twins := (paired depth depthOther).twins related
          have walks := (paired depth depthOther).walk related
          have walksOther := (paired depth depthOther).walkOther related
          have ended := walked_walk twins.acyclic
          have around := fun {t} member => walk_mem_nodes (t := t) stays member
          have aroundOther := fun {t} member => walk_mem_nodes (t := t) staysOther member
          simp only [twins.alike.walk] at aroundOther
          rw [rounds, roundsOther]
          apply c.unifyRound (R := Onward held R nodes nodesOther s other)
          · intro t
            rw [walks, walksOther, twins.alike.walk]
          · exact ⟨related, .refl stays staysOther⟩
          · rintro v t ⟨named, different, ends⟩
            simp only [walks] at ends
            rcases ends with ⟨atVar, rfl⟩ | ⟨atVar, rfl⟩
            · exact (paired depth depthOther).bindVar related stays staysOther
                (ended a v atVar) named different (ended b) (around right)
                (aroundOther rightOther)
            · exact (paired depth depthOther).bindVar related stays staysOther
                (ended b v atVar) named different (ended a) (around left)
                (aroundOther leftOther)
          · intro f as bs walkedLeft walkedRight
            rw [walks] at walkedLeft walkedRight
            apply c.unifyPairs ⟨related, .refl stays staysOther⟩
            rintro later laterOther ⟨relatedLater, grown⟩ x inLeft y inRight
            have down : (held s).Descends a x := ⟨f, as, walkedLeft, inLeft⟩
            have downRight : (held s).Descends b y := ⟨f, bs, walkedRight, inRight⟩
            have downOther : (held other).Descends a x :=
              ⟨f, as, (twins.alike.walk a).trans walkedLeft, inLeft⟩
            have downRightOther : (held other).Descends b y :=
              ⟨f, bs, (twins.alike.walk b).trans walkedRight, inRight⟩
            have later := (paired depth depthOther).twins relatedLater
            apply c.mono_rel (ih relatedLater grown.stays grown.staysOther
              (mem_nodes_of_descends closed stays left down)
              (mem_nodes_of_descends closed stays right downRight)
              (mem_nodes_of_descends closedOther staysOther leftOther downOther)
              (mem_nodes_of_descends closedOther staysOther rightOther downRightOther)
              (lt_depth_of_descends twins.acyclic later.acyclic grown.extended left down enough)
              (lt_depth_of_descends twins.acyclicOther later.acyclicOther grown.extendedOther
                leftOther downOther enoughOther))
            exact fun _ _ onward => ⟨onward.1, onward.2.trans grown⟩

end Depth

end Coupling

/-! ## Bare substitutions -/

namespace Substitution

variable {s other : Substitution} {a b : Term}

theorem paired_store :
    Coupling.ending.Paired id Twins (store .enabled) (store .enabled) where
  twins twins := twins
  walk _ _ := rfl
  walkOther _ _ := rfl
  forbids {s other} twins v t := by
    refine ⟨_, _, ⟨rfl, rfl⟩, occurs_eq_mentions twins.acyclic v t, ?_⟩
    change other.occurs v t = _
    rw [twins.alike.occurs twins.acyclic twins.acyclicOther]
    exact occurs_eq_mentions twins.acyclic v t
  bind {s other} twins v t unbound named different walked apart := by
    exact ⟨some _, some _, .some ⟨twins.insert unbound walked different apart, rfl, rfl⟩,
      congrArg pure (extend_of_walked named walked different),
      congrArg pure (extend_of_walked named (twins.alike.walked walked) different)⟩

/-- With the occurrence test, unification ends in twins, and what it adds keeps them
twins. -/
theorem unify_twins (twins : s.Twins other) (a b : Term) :
    Coupling.ending.Related (Option.Rel fun next nextOther =>
        next.Twins nextOther ∧ next.Extends s ∧ nextOther.Extends other)
      (s.unify .enabled a b) (other.unify .enabled a b) := by
  have small := s.card_sight_le [a, b]
  have smallOther := other.card_sight_le [a, b]
  have enough := lt_rounds (s.nodes + a.size + b.size)
  have enoughOther := lt_rounds (other.nodes + a.size + b.size)
  simp only [Term.sizes] at small smallOther
  rw [unify_eq, unify_eq]
  apply Coupling.ending.mono_rel (Coupling.Paired.unify_of_depth (fun _ _ => paired_store)
    (unifyWithin_succ .enabled) (unifyWithin_succ .enabled) (s.closedUnderArgs_sight [a, b])
    (other.closedUnderArgs_sight [a, b]) twins (s.staysIn_sight _) (other.staysIn_sight _)
    (mem_sight (by simp)) (mem_sight (by simp)) (mem_sight (by simp)) (mem_sight (by simp))
    (by omega) (by omega))
  exact fun _ _ onward => ⟨onward.1, onward.2.extended, onward.2.extendedOther⟩

/-- With the occurrence test, unification in an acyclic substitution ends, whatever
wildcards there are. -/
theorem unify_ends (acyclic : s.Acyclic) (a b : Term) :
    ∃ result, s.unify .enabled a b = .ok result ∧
      ∀ next, result = some next → next.Acyclic ∧ next.Extends s := by
  obtain ⟨result, _, holds, ended, _⟩ := unify_twins (.refl acyclic) a b
  refine ⟨result, ended, ?_⟩
  rintro next rfl
  cases holds with
  | some both => exact ⟨both.1.acyclic, both.2.1⟩

end Substitution

end RelationalSolver
