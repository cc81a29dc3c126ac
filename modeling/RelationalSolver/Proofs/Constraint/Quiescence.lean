import RelationalSolver.Proofs.Constraint.Settlement
import RelationalSolver.Proofs.Unification.Locality

/-!
# Constraints at rest

A constraint at rest evaluates to pending and waits for every variable that it
reaches.  A binding of another variable leaves it at rest, since evaluation looks
only at what the constraint reaches; and a verdict on it, after a binding of one
that it waits for, drops it or puts it or its simplification to rest again.
Wildcards may stand in the constraints and in the bindings.
-/

namespace RelationalSolver

open Substitution

namespace Constraint

variable {inside : Set Var} {s other : Substitution} {c next : Constraint} {check : OccursCheck}

/-- The constraint compares terms, or limits a variable to ground terms. -/
def Comparing : Constraint → Prop
  | .inDomain _ domain => ∀ t, domain.contains t = true → t.isGround = true
  | .cardinality _ => False
  | _ => True

theorem Proper.comparing (proper : c.Proper) : c.Comparing := by
  cases c with
  | inDomain v domain => exact proper.2
  | cardinality factors => exact proper.elim
  | _ => trivial

/-! ## Evaluation looks only at what the constraint reaches -/

section Comparisons

variable {test testOther : Term → Except Unending Equality}

theorem stillPossible_repeats : ∀ {ts : List Term}, (∀ t ∈ ts, Repeats (test t) (testOther t)) →
    Repeats (stillPossible test ts) (stillPossible testOther ts)
  | [], _ => .refl _
  | t :: ts, tests => by
      rw [List.forall_mem_cons] at tests
      have rest := stillPossible_repeats tests.2
      apply tests.1.bind
      intro found _
      cases found with
      | already => exact .refl _
      | possible => exact rest.bind fun _ _ => .refl _
      | never => exact rest

theorem candidates_repeats : ∀ {ts : List Term}, (∀ t ∈ ts, Repeats (test t) (testOther t)) →
    Repeats (candidates test ts) (candidates testOther ts)
  | [], _ => .refl _
  | t :: ts, tests => by
      rw [List.forall_mem_cons] at tests
      apply tests.1.bind
      intro found _
      exact (candidates_repeats tests.2).bind fun _ _ => .refl _

theorem pairsOpen_repeats {test testOther : Term → Term → Except Unending Equality} :
    ∀ {ts : List Term}, (∀ a ∈ ts, ∀ b ∈ ts, Repeats (test a b) (testOther a b)) →
      Repeats (pairsOpen test ts) (pairsOpen testOther ts)
  | [], _ => .refl _
  | t :: ts, tests => by
      have below : ∀ a ∈ ts, ∀ b ∈ ts, Repeats (test a b) (testOther a b) := fun a left b right =>
        tests a (List.mem_cons_of_mem t left) b (List.mem_cons_of_mem t right)
      have first : ∀ u ∈ ts, Repeats (test t u) (testOther t u) := fun u member =>
        tests t (List.mem_cons_self ..) u (List.mem_cons_of_mem t member)
      apply (stillPossible_repeats first).bind
      intro here _
      cases here with
      | none => exact .refl _
      | some here => exact (pairsOpen_repeats below).bind fun _ _ => .refl _

end Comparisons

theorem evaluate_repeats (comparing : c.Comparing) (alike : Alike inside s other)
    (larger : s.nodes ≤ other.nodes) (anonymous : .wildcard ∈ inside)
    (known : ∀ v ∈ c.vars, v ∈ inside) :
    Repeats (c.evaluate .enabled s) (c.evaluate .enabled other) := by
  cases c with
  | neq a b =>
      have within : ∀ t ∈ [a, b], t.Within inside := fun t => Term.within_of_varsOf known anonymous
      apply (equality_repeats alike larger (within a (by simp)) (within b (by simp))).bind
      exact fun _ _ => .refl _
  | distinct items =>
      have within : ∀ t ∈ items, t.Within inside := fun t => Term.within_of_varsOf known anonymous
      apply Repeats.bind
      · exact pairsOpen_repeats fun a left b right =>
          equality_repeats alike larger (within a left) (within b right)
      · exact fun _ _ => .refl _
  | notIn e =>
      have within : ∀ t ∈ e.subject :: e.members, t.Within inside :=
        fun t => Term.within_of_varsOf known anonymous
      rw [List.forall_mem_cons] at within
      apply Repeats.bind
      · exact stillPossible_repeats fun t member =>
          equality_repeats alike larger within.1 (within.2 t member)
      · exact fun _ _ => .refl _
  | inDomain v domain =>
      have within : (Term.var v).Within inside := by
        intro w mentioned
        cases Term.mentions_var.mp mentioned
        exact known v (by simp [vars, Goal.constraintVars])
      have value := alike.resolve_within within
      simp only [evaluate, alike.resolve within]
      split
      · exact .refl _
      · split
        · exact .refl _
        · apply Repeats.bind
          · apply candidates_repeats
            intro t member
            apply equality_repeats alike larger value
            intro w mentioned
            rw [Term.isGround_iff.mp (comparing t (TermSet.mem_toList.mp member)) w] at mentioned
            contradiction
          · exact fun _ _ => .refl _
  | cardinality factors => exact comparing.elim

/-! ## A simplification is at rest -/

/-- The terms that can still equal another are found again among themselves. -/
theorem stillPossible_kept {test : Term → Except Unending Equality} :
    ∀ {ts kept : List Term}, stillPossible test ts = .ok (some kept) →
      kept ⊆ ts ∧ stillPossible test kept = .ok (some kept)
  | [], kept, ended => by
      cases ended
      exact ⟨List.Subset.refl _, rfl⟩
  | t :: ts, kept, ended => by
      obtain ⟨found, first, ended⟩ := ok_of_bind ended
      cases found with
      | already => cases ended
      | never =>
          obtain ⟨among, again⟩ := stillPossible_kept ended
          exact ⟨List.subset_cons_of_subset t among, again⟩
      | possible =>
          obtain ⟨later, rest, ended⟩ := ok_of_bind ended
          cases later with
          | none => cases ended
          | some later =>
              cases ended
              obtain ⟨among, again⟩ := stillPossible_kept rest
              refine ⟨List.cons_subset_cons t among, ?_⟩
              rw [stillPossible, first]
              change (stillPossible test later >>= _) = _
              rw [again]
              rfl

theorem candidates_kept {test : Term → Except Unending Equality} :
    ∀ {ts fitting : List Term}, candidates test ts = .ok fitting →
      ∀ t ∈ fitting, t ∈ ts ∧ ∃ found, test t = .ok found ∧ found ≠ .never
  | [], fitting, ended, t, member => by
      cases ended
      cases member
  | u :: ts, fitting, ended, t, member => by
      obtain ⟨found, first, ended⟩ := ok_of_bind ended
      obtain ⟨later, rest, ended⟩ := ok_of_bind ended
      have kept : t ∈ later → t ∈ u :: ts ∧ ∃ found, test t = .ok found ∧ found ≠ .never := by
        intro inside
        obtain ⟨among, fits⟩ := candidates_kept rest t inside
        exact ⟨List.mem_cons_of_mem u among, fits⟩
      cases ended
      split at member
      · exact kept member
      · rename_i fits
        rcases List.mem_cons.mp member with rfl | inside
        · exact ⟨List.mem_cons_self .., found, first, fits⟩
        · exact kept inside

/-- Terms that all fit are all candidates. -/
theorem candidates_of_fitting {test : Term → Except Unending Equality} :
    ∀ {ts : List Term}, (∀ t ∈ ts, ∃ found, test t = .ok found ∧ found ≠ .never) →
      candidates test ts = .ok ts
  | [], _ => rfl
  | t :: ts, fits => by
      rw [List.forall_mem_cons] at fits
      obtain ⟨found, tested, fit⟩ := fits.1
      rw [candidates, tested, candidates_of_fitting fits.2]
      change Except.ok (if found = .never then ts else t :: ts) = _
      rw [if_neg fit]

/-- An exclusion whose members can all still equal the subject is pending. -/
theorem evaluate_notIn_possible {subject u : Term} {us : List Term}
    (possible : stillPossible (equality check s subject) (u :: us) = .ok (some (u :: us))) :
    (notIn ⟨subject, u :: us⟩).evaluate check s = .ok .pending := by
  simp only [evaluate, possible]
  change (if (u :: us).length < (u :: us).length then _ else _) = _
  rw [if_neg (lt_irrefl _)]
  rfl

/-- A domain with members, all of which fit the value of the variable, is pending, unless
the value is ground or a variable. -/
theorem evaluate_inDomain_fitting {v : Var} {fitting : List Term}
    (notGround : (s.resolve (.var v)).isGround ≠ true)
    (notVar : (s.resolve (.var v)).asVar?.isSome ≠ true) (nonempty : fitting ≠ [])
    (fits : ∀ t ∈ fitting, ∃ found,
      equality check s (s.resolve (.var v)) t = .ok found ∧ found ≠ .never) :
    (inDomain v (.ofList fitting)).evaluate check s = .ok .pending := by
  have again : candidates (equality check s (s.resolve (.var v))) (TermSet.ofList fitting).toList =
      .ok (TermSet.ofList fitting).toList := by
    apply candidates_of_fitting
    intro t member
    rw [TermSet.mem_toList, TermSet.contains_ofList] at member
    exact fits t member
  have inhabited : (TermSet.ofList fitting).toList.isEmpty ≠ true := by
    intro empty
    rw [List.isEmpty_iff] at empty
    obtain ⟨t, member⟩ := List.exists_mem_of_ne_nil fitting nonempty
    rw [← TermSet.contains_ofList, ← TermSet.mem_toList, empty] at member
    cases member
  simp only [evaluate, if_neg notGround, if_neg notVar, again]
  change (if _ then _ else if _ then _ else _) = _
  rw [if_neg inhabited, (TermSet.ofList fitting).length_toList, if_neg (lt_irrefl _)]
  rfl

/-- What takes the place of a constraint compares again, is about no further variables,
and would be evaluated to pending. -/
theorem evaluate_simplified (comparing : c.Comparing)
    (simplified : c.evaluate check s = .ok (.simplified next)) :
    next.Comparing ∧ next.vars ⊆ c.vars ∧ next.evaluate check s = .ok .pending := by
  cases c with
  | neq a b =>
      obtain ⟨found, _, ended⟩ := ok_of_bind simplified
      cases found <;> cases ended
  | distinct items =>
      obtain ⟨found, _, ended⟩ := ok_of_bind simplified
      match found, ended with
      | none, ended => cases ended
      | some true, ended => cases ended
      | some false, ended => cases ended
  | notIn e =>
      obtain ⟨found, tested, ended⟩ := ok_of_bind simplified
      match found, ended with
      | none, ended => cases ended
      | some [], ended => cases ended
      | some (t :: ts), ended =>
          obtain ⟨among, again⟩ := stillPossible_kept tested
          dsimp only at ended
          split at ended
          · cases ended
            refine ⟨trivial, ?_, evaluate_notIn_possible again⟩
            intro v member
            simp only [vars, Goal.constraintVars, mem_varsOf] at member ⊢
            obtain ⟨⟨u, inside, mentioned⟩, named⟩ := member
            exact ⟨⟨u, List.cons_subset_cons e.subject among inside, mentioned⟩, named⟩
          · cases ended
  | inDomain v domain =>
      simp only [evaluate] at simplified
      split at simplified
      · split at simplified <;> cases simplified
      · rename_i notGround
        split at simplified
        · split at simplified <;> cases simplified
        · rename_i notVar
          obtain ⟨fitting, tested, ended⟩ := ok_of_bind simplified
          have kept := candidates_kept tested
          split at ended
          · cases ended
          · rename_i nonempty
            split at ended
            · cases ended
              refine ⟨?_, List.Subset.refl _, ?_⟩
              · intro t member
                rw [TermSet.contains_ofList] at member
                exact comparing t (TermSet.mem_toList.mp (kept t member).1)
              · apply evaluate_inDomain_fitting notGround notVar
                · exact fun none => nonempty (List.isEmpty_iff.mpr none)
                · exact fun t member => (kept t member).2
            · cases ended
  | cardinality factors => exact comparing.elim

end Constraint

namespace ConstraintStore

open Constraint

variable {s before after : Substitution} {store next : ConstraintStore} {id other : Nat}
variable {c : Constraint} {v : Var} {t : Term} {follow : List Var} {verdict : Verdict}

/-- What is stored under the id compares terms, and waits for every variable but the
wildcard that its own reach. -/
def Watched (s : Substitution) (store : ConstraintStore) (id : Nat) : Prop :=
  ∀ c, store.get? id = some c → c.Comparing ∧
    ∀ v ∈ c.vars, ∀ w, w ≠ .wildcard → (s.resolve (.var v)).mentions w = true →
      id ∈ store.idsFor w

/-- What is stored under the id waits for what it reaches, and cannot be decided yet. -/
def Rests (s : Substitution) (store : ConstraintStore) (id : Nat) : Prop :=
  store.Watched s id ∧ ∀ c, store.get? id = some c → c.evaluate .enabled s = .ok .pending

/-- An operation leaves alone what is stored under an id, and does not take it from
where it waits. -/
structure Untouched (store next : ConstraintStore) (id : Nat) : Prop where
  kept : next.get? id = store.get? id
  waits : ∀ w, id ∈ store.idsFor w → id ∈ next.idsFor w

theorem Untouched.watched (untouched : Untouched store next id) (watched : store.Watched s id) :
    next.Watched s id := by
  intro c found
  rw [untouched.kept] at found
  obtain ⟨comparing, waits⟩ := watched c found
  exact ⟨comparing, fun v member w named reached =>
    untouched.waits w (waits v member w named reached)⟩

theorem Untouched.rests (untouched : Untouched store next id) (rests : store.Rests s id) :
    next.Rests s id := by
  refine ⟨untouched.watched rests.1, ?_⟩
  intro c found
  rw [untouched.kept] at found
  exact rests.2 c found

theorem untouched_insert {vars : List Var} (different : store.nextId ≠ id) :
    Untouched store (store.insert c vars).1 id where
  kept := by rw [get?_insert, if_neg different]
  waits w waits := mem_idsFor_insert.mpr (.inl waits)

/-- A verdict touches only the constraint that it is about. -/
theorem untouched_afterVerdict (different : id ≠ other)
    (kept : store.afterVerdict id follow verdict = some next) : Untouched store next other := by
  cases verdict with
  | violated => simp [afterVerdict] at kept
  | satisfied =>
      simp only [afterVerdict, Option.some.injEq] at kept
      subst kept
      exact ⟨by rw [get?_remove, if_neg different],
        fun w waits => (mem_idsFor_remove (Ne.symm different)).mpr waits⟩
  | simplified simpler =>
      simp only [afterVerdict, Option.some.injEq] at kept
      subst kept
      exact ⟨by rw [get?_replace, if_neg different],
        fun w waits => mem_idsFor_replace.mpr (.inl waits)⟩
  | pending =>
      simp only [afterVerdict, Option.some.injEq] at kept
      subst kept
      exact ⟨get?_indexUnder, fun w waits => mem_idsFor_indexUnder.mpr (.inl waits)⟩

/-- A variable other than the wildcard that is reached now was reached before, or it is
listed. -/
def Follows (before after : Substitution) (follow : List Var) : Prop :=
  ∀ v w, w ≠ .wildcard → (after.resolve (.var v)).mentions w = true →
    (before.resolve (.var v)).mentions w = true ∨ w ∈ follow

theorem Follows.refl (s : Substitution) (follow : List Var) : Follows s s follow :=
  fun _ _ _ reached => .inl reached

/-- A verdict puts the constraint to rest. -/
theorem rests_afterVerdict (watched : store.Watched before id)
    (follows : Follows before after follow) (found : store.get? id = some c)
    (evaluated : c.evaluate .enabled after = .ok verdict)
    (kept : store.afterVerdict id follow verdict = some next) : next.Rests after id := by
  obtain ⟨comparing, waits⟩ := watched c found
  cases verdict with
  | violated => simp [afterVerdict] at kept
  | satisfied =>
      simp only [afterVerdict, Option.some.injEq] at kept
      subst kept
      have gone : (store.remove id).get? id = none := by rw [get?_remove, if_pos rfl]
      constructor
      · intro d stored
        rw [gone] at stored
        contradiction
      · intro d stored
        rw [gone] at stored
        contradiction
  | simplified simpler =>
      simp only [afterVerdict, Option.some.injEq] at kept
      subst kept
      obtain ⟨comparingSimpler, fewer, pending⟩ := evaluate_simplified comparing evaluated
      have stored : (store.replace id simpler (simpler.vars ++ follow)).get? id = some simpler := by
        rw [get?_replace, if_pos rfl]
      constructor
      · intro d held
        rw [stored] at held
        cases held
        refine ⟨comparingSimpler, ?_⟩
        intro v member w named reached
        rw [mem_idsFor_replace]
        rcases follows v w named reached with old | listed
        · exact .inl (waits v (fewer member) w named old)
        · exact .inr ⟨rfl, List.mem_append_right _ listed, named⟩
      · intro d held
        rw [stored] at held
        cases held
        exact pending
  | pending =>
      simp only [afterVerdict, Option.some.injEq] at kept
      subst kept
      constructor
      · intro d held
        rw [get?_indexUnder, found] at held
        cases held
        refine ⟨comparing, ?_⟩
        intro v member w named reached
        rw [mem_idsFor_indexUnder]
        rcases follows v w named reached with old | listed
        · exact .inl (waits v member w named old)
        · exact .inr ⟨rfl, listed, named⟩
      · intro d held
        rw [get?_indexUnder, found] at held
        cases held
        exact evaluated

/-- Settling a watched constraint puts it to rest and touches no other. -/
theorem settleOne_rests (watched : store.Watched before id)
    (follows : Follows before after follow) :
    Settles True (settleOne after follow store id) fun result =>
      ∀ next, result = some next → next.Rests after id ∧
        ∀ other, id ≠ other → Untouched store next other := by
  cases found : store.get? id with
  | none =>
      rw [settleOne_absent found]
      apply Settles.pure
      rintro _ ⟨⟩
      refine ⟨?_, fun other _ => ⟨rfl, fun _ waits => waits⟩⟩
      constructor <;> intro c stored <;> rw [found] at stored <;> cases stored
  | some c =>
      rw [settleOne_found found]
      cases evaluated : c.evaluate .enabled after with
      | error e => exact .inr ⟨trivial, rfl⟩
      | ok verdict =>
          apply Settles.pure
          intro next kept
          exact ⟨rests_afterVerdict watched follows found evaluated kept,
            fun other different => untouched_afterVerdict different kept⟩

/-- Settling constraint after constraint puts them all to rest. -/
theorem settleEach_rests (follows : Follows before after follow) :
    ∀ {ids : List Nat} {store : ConstraintStore},
      (∀ id, store.Rests after id ∨ (id ∈ ids ∧ store.Watched before id)) →
      Settles True (settleEach after follow store ids) fun result =>
        ∀ next, result = some next → ∀ id, next.Rests after id
  | [], store, state => by
      apply Settles.pure
      rintro _ ⟨⟩ id
      exact (state id).resolve_right fun impossible => List.not_mem_nil impossible.1
  | first :: ids, store, state => by
      have settled : Settles True (settleOne after follow store first) fun result =>
          ∀ next, result = some next → next.Rests after first ∧
            ∀ other, first ≠ other → Untouched store next other := by
        rcases state first with rests | ⟨_, watched⟩
        · exact settleOne_rests rests.1 (.refl after follow)
        · exact settleOne_rests watched follows
      apply settled.bind
      intro result settled
      cases result with
      | none => exact Settles.pure nofun
      | some next =>
          obtain ⟨rests, untouched⟩ := settled next rfl
          apply settleEach_rests follows
          intro id
          by_cases same : first = id
          · exact .inl (same ▸ rests)
          · rcases state id with rests | ⟨member, watched⟩
            · exact .inl ((untouched id same).rests rests)
            · refine .inr ⟨?_, (untouched id same).watched watched⟩
              exact (List.mem_cons.mp member).resolve_left (Ne.symm same)

/-! ## One more binding -/

theorem follows_insert (acyclic : s.Acyclic) (acyclicNext : (s.insert v t).Acyclic)
    (unbound : s.lookup v = none) : Follows s (s.insert v t) ((s.insert v t).freeVars t) := by
  intro u w named reached
  rcases mentions_of_mentions_resolve_insert acyclic acyclicNext unbound reached with old | new
  · exact .inl old
  · exact .inr (Term.mem_vars.mpr ⟨new, named⟩)

/-- What the constraint reaches, and the wildcard. -/
def region (s : Substitution) (c : Constraint) : Set Var :=
  {w | w = .wildcard ∨ ∃ v ∈ c.vars, s.Reaches (.var v) w}

/-- A binding leaves at rest what does not wait for its variable. -/
theorem Rests.insert (rests : store.Rests s id) (acyclic : s.Acyclic)
    (acyclicNext : (s.insert v t).Acyclic) (anonymous : s.lookup .wildcard = none)
    (named : v ≠ .wildcard) (unbound : s.lookup v = none) (absent : id ∉ store.idsFor v) :
    store.Rests (s.insert v t) id := by
  have apart : ∀ c, store.get? id = some c → ∀ u ∈ c.vars,
      (s.resolve (.var u)).mentions v ≠ true := by
    intro c found u member reached
    exact absent ((rests.1 c found).2 u member v named reached)
  constructor
  · intro c found
    obtain ⟨comparing, waits⟩ := rests.1 c found
    refine ⟨comparing, ?_⟩
    intro u member w other reached
    rw [resolve_insert_of_not_mentions acyclic acyclicNext unbound (apart c found u member)]
      at reached
    exact waits u member w other reached
  · intro c found
    have alike : Alike (region s c) s (s.insert v t) := by
      refine ⟨acyclic, acyclicNext, ?_, ?_⟩
      · rintro w (rfl | ⟨u, member, x, start, path⟩) bound found y mentioned
        · rw [anonymous] at found
          contradiction
        · exact .inr ⟨u, member, x, start, path.tail ⟨bound, found, mentioned⟩⟩
      · intro w member
        rw [lookup_insert, if_neg]
        rintro rfl
        rcases member with same | ⟨u, member, reached⟩
        · exact named same
        · exact apart c found u member ((mentions_resolve acyclic).mpr ⟨reached, unbound⟩)
    apply evaluate_repeats (rests.1 c found).1 alike _ (.inl rfl) _ _ (rests.2 c found)
    · rw [nodes_insert unbound]
      exact Nat.le_add_left ..
    · intro u member
      exact .inr ⟨u, member, u, Term.mentions_var.mpr rfl, .refl⟩

end ConstraintStore

end RelationalSolver
