import RelationalSolver.Proofs.Substitution.Erasure
import RelationalSolver.Proofs.Unification.Covering

/-!
# The wildcard and variables of its own

The wildcard unifies with everything and nothing is remembered about it.  Putting a new
variable in the place of each wildcard asks for more: what stood in one place has to be
one term.  The two agree if no term with a wildcard is met more than once, which is so if
no variable that comes to stand for such a term occurs more than twice.
-/

namespace RelationalSolver

open Equation

namespace Substitution

variable {fresh : Finset Var} {full s next final : Substitution} {v : Var} {t : Term}
variable {es others rest : List Equation}

/-! ## Growing -/

/-- If the attempt succeeds, its result is acyclic, keeps every binding and does not bind
the wildcard. -/
def Growing (s : Substitution) (attempt : Except Unending (Option Substitution)) : Prop :=
  ∀ next, attempt = .ok (some next) →
    next.Acyclic ∧ next.Extends s ∧ (s.lookup .wildcard = none → next.lookup .wildcard = none)

theorem Growing.same (acyclic : s.Acyclic) : Growing s (.ok (some s)) := by
  rintro _ ⟨⟩
  exact ⟨acyclic, .refl s, id⟩

theorem bindVar_growing (acyclic : s.Acyclic) (named : v ≠ .wildcard)
    (unbound : s.lookup v = none) (walked : s.Walked t) (different : t ≠ .var v) :
    Growing s ((store .enabled).bindVar s v t) := by
  rw [bindVar_enabled acyclic named walked different]
  cases apart : (s.resolve t).mentions v with
  | true => rintro _ ⟨⟩
  | false =>
      rintro _ ⟨⟩
      refine ⟨acyclic.insert_apart apart unbound, extends_insert t unbound, fun anonymous => ?_⟩
      rw [lookup_insert, if_neg named, anonymous]

section Growth

variable {unify : Substitution → Term → Term → Except Unending (Option Substitution)}
variable {as bs : List Term} {a b : Term}
variable (growing : ∀ s a b, s.Acyclic → Growing s (unify s a b))
include growing

theorem unifyPairs_growing (acyclic : s.Acyclic) :
    Growing s (Bindings.unifyPairs unify s as bs) := by
  induction as generalizing s bs with
  | nil => cases bs <;> exact .same acyclic
  | cons a as ih =>
      cases bs with
      | nil => exact .same acyclic
      | cons b bs =>
          intro next ended
          obtain ⟨found, first, ended⟩ := ok_of_bind ended
          cases found with
          | none => cases ended
          | some mid =>
              obtain ⟨acyclicMid, extended, anonymous⟩ := growing s a b acyclic mid first
              obtain ⟨acyclicNext, extendedNext, anonymousNext⟩ := ih acyclicMid next ended
              exact ⟨acyclicNext, extendedNext.trans extended, anonymousNext ∘ anonymous⟩

theorem unifyRound_growing (acyclic : s.Acyclic) :
    Growing s ((store .enabled).unifyRound unify s a b) := by
  have ended := walked_walk acyclic
  apply Bindings.unifyRound_cases
  · exact fun _ => .same acyclic
  · exact fun _ => .same acyclic
  · rintro v t ⟨named, different, ⟨atVar, rfl⟩ | ⟨atVar, rfl⟩⟩
    · exact bindVar_growing acyclic named (ended a v atVar) (ended b) different
    · exact bindVar_growing acyclic named (ended b v atVar) (ended a) different
  · exact fun _ _ _ _ _ _ => unifyPairs_growing growing acyclic
  · rintro - _ ⟨⟩

end Growth

theorem unifyWithin_growing (depth : Nat) (s : Substitution) (a b : Term) (acyclic : s.Acyclic) :
    Growing s (unifyWithin .enabled depth s a b) := by
  induction depth generalizing s a b with
  | zero => rintro _ ⟨⟩
  | succ depth ih => exact unifyRound_growing ih acyclic

theorem unify_growing (s : Substitution) (a b : Term) (acyclic : s.Acyclic) :
    Growing s (s.unify .enabled a b) := by
  rw [unify_eq]
  exact unifyWithin_growing _ s a b acyclic

/-! ## One run after the other -/

/-- Resolve both sides of every equation. -/
def resolveEach (s : Substitution) (es : List Equation) : List Equation :=
  es.map fun e => (s.resolve e.1, s.resolve e.2)

@[simp] theorem resolveEach_cons {e : Equation} :
    s.resolveEach (e :: es) = (s.resolve e.1, s.resolve e.2) :: s.resolveEach es := rfl

@[simp] theorem resolveEach_append :
    s.resolveEach (es ++ others) = s.resolveEach es ++ s.resolveEach others := List.map_append

theorem resolveEach_zip {as bs : List Term} :
    s.resolveEach (as.zip bs) = (as.map s.resolve).zip (bs.map s.resolve) :=
  List.zip_map.symm

theorem resolveEach_insert (acyclic : s.Acyclic) (unbound : s.lookup v = none)
    (apart : (s.resolve t).mentions v = false) :
    (s.insert v t).resolveEach es =
      (s.resolveEach es).map (mapVars (Term.only v (s.resolve t))) := by
  simp only [resolveEach, List.map_map, resolve_insert acyclic unbound apart]
  rfl

/-- If an attempt over terms with wildcards succeeds, the same equations with new
variables are solvable, if those are that remain to be solved. -/
def Simulated (fresh : Finset Var) (final full : Substitution) (es : List Equation)
    (attempt : Except Unending (Option Substitution)) : Prop :=
  ∀ next rest, attempt = .ok (some next) → final.Extends next →
    Frugal fresh final (full.resolveEach (es ++ rest)) →
    ∃ later, Erases fresh later next ∧ Frugal fresh final (later.resolveEach rest) ∧
      (Solvable (later.resolveEach rest) → Solvable (full.resolveEach (es ++ rest)))

/-- Unification that only adds bindings and is simulated over new variables. -/
structure Simulating (fresh : Finset Var) (final : Substitution)
    (unify : Substitution → Term → Term → Except Unending (Option Substitution)) : Prop where
  growing : ∀ s a b, s.Acyclic → Growing s (unify s a b)
  simulated : ∀ {full s a b}, Erases fresh full s → a.WildcardFree → b.WildcardFree →
    Simulated fresh final full [(a, b)] (unify s (a.erase fresh) (b.erase fresh))

section Rounds

variable {unify : Substitution → Term → Term → Except Unending (Option Substitution)}
variable {as bs : List Term} {a b : Term}

namespace Simulating

theorem unifyPairs (simulating : Simulating fresh final unify) (erases : Erases fresh full s)
    (left : ∀ a ∈ as, a.WildcardFree) (right : ∀ b ∈ bs, b.WildcardFree) :
    Simulated fresh final full (as.zip bs)
      (Bindings.unifyPairs unify s (as.map (Term.erase fresh)) (bs.map (Term.erase fresh))) := by
  induction as generalizing full s bs with
  | nil =>
      rintro next rest ended - frugal
      have same : next = s := by
        cases bs <;> cases ended <;> rfl
      exact ⟨full, same ▸ erases, frugal, id⟩
  | cons a as ih =>
      cases bs with
      | nil =>
          rintro _ rest ⟨⟩ - frugal
          exact ⟨full, erases, frugal, id⟩
      | cons b bs =>
          intro next rest ended extended frugal
          rw [List.forall_mem_cons] at left right
          rw [List.map_cons, List.map_cons] at ended
          obtain ⟨found, first, ended⟩ := ok_of_bind ended
          cases found with
          | none => cases ended
          | some mid =>
              have acyclicMid := (simulating.growing _ _ _ erases.acyclic_erased mid first).1
              have onward := (unifyPairs_growing simulating.growing acyclicMid next ended).2.1
              obtain ⟨fullMid, erasesMid, frugalMid, solves⟩ :=
                simulating.simulated erases left.1 right.1 mid (as.zip bs ++ rest) first
                  (extended.trans onward) frugal
              obtain ⟨later, erasesLater, frugalLater, solvesLater⟩ :=
                ih erasesMid left.2 right.2 next rest ended extended frugalMid
              exact ⟨later, erasesLater, frugalLater, fun solvable => solves (solvesLater solvable)⟩

end Simulating

/-- Nothing is bound, and the equation is solvable whatever solves the others. -/
theorem Simulated.same (erases : Erases fresh full s)
    (solves : ∀ rest, Frugal fresh final (full.resolveEach ((a, b) :: rest)) →
      Solvable (full.resolveEach rest) → Solvable (full.resolveEach ((a, b) :: rest))) :
    Simulated fresh final full [(a, b)] (.ok (some s)) := by
  rintro _ rest ⟨⟩ - frugal
  exact ⟨full, erases, frugal.tail, solves rest frugal⟩

theorem Simulated.swap {attempt : Except Unending (Option Substitution)}
    (simulated : Simulated fresh final full [(a, b)] attempt) :
    Simulated fresh final full [(b, a)] attempt := by
  intro next rest ended extended frugal
  obtain ⟨later, erases, frugalLater, solves⟩ := simulated next rest ended extended frugal.swap
  exact ⟨later, erases, frugalLater, fun solvable => (solves solvable).swap⟩

/-- Terms may be replaced by what they walk to. -/
theorem Simulated.of_walk {attempt : Except Unending (Option Substitution)}
    (acyclic : full.Acyclic)
    (simulated : Simulated fresh final full [(full.walk a, full.walk b)] attempt) :
    Simulated fresh final full [(a, b)] attempt := by
  unfold Simulated at *
  simpa [resolve_walk acyclic] using simulated

theorem simulated_bindVar (acyclicFinal : final.Acyclic)
    (anonymousFinal : final.lookup .wildcard = none) (erases : Erases fresh full s)
    (named : v ≠ .wildcard) (absent : v ∉ fresh) (unbound : full.lookup v = none)
    (free : t.WildcardFree) (walked : full.Walked t) (different : t ≠ .var v) :
    Simulated fresh final full [(.var v, t)]
      ((store .enabled).bindVar s v (t.erase fresh)) := by
  have unboundErased : s.lookup v = none := by rw [erases.lookup, unbound]; rfl
  have walkedErased : s.Walked (t.erase fresh) := by
    have stays := erases.walk t
    rw [walk_of_walked walked] at stays
    exact stays ▸ walked_walk erases.acyclic_erased _
  have differentErased : t.erase fresh ≠ .var v :=
    fun same => different (Term.eq_of_erase_eq_var named same).1
  rw [bindVar_enabled erases.acyclic_erased named walkedErased differentErased, erases.resolve,
    Term.mentions_erase absent named]
  intro next rest ended extended frugal
  cases apart : (full.resolve t).mentions v with
  | true => simp [apart] at ended
  | false =>
      rw [apart] at ended
      cases ended
      simp only [List.cons_append, List.nil_append, resolveEach_cons,
        resolve_of_unbound unbound] at frugal ⊢
      have clean := erases.clean acyclicFinal anonymousFinal extended unboundErased
      refine ⟨full.insert v t, erases.insert unbound named absent free apart, ?_, ?_⟩
      · rw [resolveEach_insert erases.acyclic unbound apart]
        exact frugal.eliminate absent apart (clean named)
      · rw [resolveEach_insert erases.acyclic unbound apart]
        exact Solvable.eliminate apart

theorem Simulated.compound {f : String} {attempt : Except Unending (Option Substitution)}
    (lengths : as.length = bs.length)
    (simulated : Simulated fresh final full (as.zip bs) attempt) :
    Simulated fresh final full [(.compound f as, .compound f bs)] attempt := by
  have sameLengths : (as.map full.resolve).length = (bs.map full.resolve).length := by
    simpa using lengths
  intro next rest ended extended frugal
  simp only [List.cons_append, List.nil_append, resolveEach_cons, resolve_compound] at frugal ⊢
  obtain ⟨later, erases, frugalLater, solves⟩ := simulated next rest ended extended (by
    rw [resolveEach_append, resolveEach_zip]
    apply frugal.mono
    intro v _
    simp only [occurrencesIn_append, occurrencesIn_zip sameLengths, occurrencesIn_cons,
      Term.occurrences_compound, Nat.le_refl])
  rw [resolveEach_append, resolveEach_zip] at solves
  exact ⟨later, erases, frugalLater, fun solvable => (solves solvable).compound sameLengths⟩

/-- A variable of its own takes whatever stands on the other side. -/
theorem Simulated.skip (erases : Erases fresh full s) (member : v ∈ fresh) :
    Simulated fresh final full [(.var v, t)] (.ok (some s)) := by
  apply Simulated.same erases
  intro rest frugal solvable
  rw [resolveEach_cons, resolve_of_unbound (erases.unbound v member)] at frugal ⊢
  exact solvable.once (frugal.own v member)

theorem Simulating.unifyRound (simulating : Simulating fresh final unify)
    (acyclicFinal : final.Acyclic) (anonymousFinal : final.lookup .wildcard = none)
    (erases : Erases fresh full s) (left : a.WildcardFree) (right : b.WildcardFree) :
    Simulated fresh final full [(a, b)]
      ((store .enabled).unifyRound unify s (a.erase fresh) (b.erase fresh)) := by
  have walks : ∀ t, (store .enabled).walk s (t.erase fresh) = (full.walk t).erase fresh :=
    erases.walk
  have ended := walked_walk erases.acyclic
  have free : ∀ {t : Term}, t.WildcardFree → (full.walk t).WildcardFree :=
    fun plain => walk_mem Term.WildcardFree (fun v t bound => (erases.plain v t bound).2) plain
  apply Simulated.of_walk erases.acyclic
  apply Bindings.unifyRound_cases
  · intro same
    rw [walks, walks] at same
    apply Simulated.same erases
    intro rest frugal solvable
    apply solvable.of_erase_eq _ _ _ frugal.own
    · rw [← erases.resolve, ← erases.resolve, same]
    · exact erases.plain.resolve erases.acyclic (free left)
    · exact erases.plain.resolve erases.acyclic (free right)
  · rintro (atWildcard | atWildcard)
    · rw [walks] at atWildcard
      obtain ⟨n, member, same⟩ := Term.exists_of_erase_eq_wildcard (free left) atWildcard
      exact same ▸ Simulated.skip erases member
    · rw [walks] at atWildcard
      obtain ⟨n, member, same⟩ := Term.exists_of_erase_eq_wildcard (free right) atWildcard
      exact same ▸ (Simulated.skip erases member).swap
  · rintro v t ⟨named, different, ⟨atVar, rfl⟩ | ⟨atVar, rfl⟩⟩
    · rw [walks] at atVar different
      obtain ⟨same, absent⟩ := Term.eq_of_erase_eq_var named atVar
      rw [walks, same]
      refine simulated_bindVar acyclicFinal anonymousFinal erases named absent (ended a v same)
        (free right) (ended b) fun equal => different ?_
      rw [equal, Term.erase_of_notMem absent]
    · rw [walks] at atVar different
      obtain ⟨same, absent⟩ := Term.eq_of_erase_eq_var named atVar
      rw [walks, same]
      refine (simulated_bindVar acyclicFinal anonymousFinal erases named absent (ended b v same)
        (free left) (ended a) fun equal => different ?_).swap
      rw [equal, Term.erase_of_notMem absent]
  · intro f as bs atLeft atRight lengths
    rw [walks] at atLeft atRight
    obtain ⟨fullLeft, sameLeft, rfl⟩ := Term.exists_of_erase_eq_compound atLeft
    obtain ⟨fullRight, sameRight, rfl⟩ := Term.exists_of_erase_eq_compound atRight
    replace left := free left
    replace right := free right
    rw [sameLeft] at left ⊢
    rw [sameRight] at right ⊢
    apply Simulated.compound (by simpa using lengths)
    exact simulating.unifyPairs erases (fun _ => left.arg) (fun _ => right.arg)
  · rintro - _ _ ⟨⟩

end Rounds

theorem simulating_unifyWithin (acyclicFinal : final.Acyclic)
    (anonymousFinal : final.lookup .wildcard = none) (depth : Nat) :
    Simulating fresh final (unifyWithin .enabled depth) where
  growing := unifyWithin_growing depth
  simulated := by
    induction depth with
    | zero => rintro full s a b - - - _ _ ⟨⟩
    | succ depth ih =>
        intro full s a b
        exact Simulating.unifyRound ⟨unifyWithin_growing depth, ih⟩ acyclicFinal anonymousFinal

theorem simulating_unify (acyclicFinal : final.Acyclic)
    (anonymousFinal : final.lookup .wildcard = none) :
    Simulating fresh final (unify .enabled) where
  growing := unify_growing
  simulated {_ s a b} := by
    rw [unify_eq]
    exact (simulating_unifyWithin acyclicFinal anonymousFinal _).simulated

/-! ## Lists of equations -/

/-- Unify both sides of every equation, one after the other. -/
def unifyEach (check : OccursCheck) (s : Substitution) (es : List Equation) :
    Except Unending (Option Substitution) :=
  Bindings.unifyPairs (unify check) s (es.map (·.1)) (es.map (·.2))

theorem unifyEach_cons {a b : Term} : s.unifyEach .enabled ((a, b) :: es) = (do
    match ← s.unify .enabled a b with
    | some next => next.unifyEach .enabled es
    | none => pure none) := by
  rw [unifyEach, List.map_cons, List.map_cons, Bindings.unifyPairs]
  congr 1
  funext result
  cases result <;> rfl

/-- Unifying equations one after the other ends, wildcards or not. -/
theorem unifyEach_ends (acyclic : s.Acyclic) (es : List Equation) :
    ∃ outcome, s.unifyEach .enabled es = .ok outcome := by
  induction es generalizing s with
  | nil => exact ⟨some s, rfl⟩
  | cons e es ih =>
      obtain ⟨a, b⟩ := e
      obtain ⟨result, ended, grown⟩ := unify_ends acyclic a b
      rw [unifyEach_cons, ended]
      cases result with
      | none => exact ⟨none, rfl⟩
      | some next => exact ih (grown next rfl).1

/-- Equations without wildcards are unified exactly if some solution of the bindings
solves them. -/
theorem unifyEach_plain (acyclic : s.Acyclic) (plain : s.WildcardFree)
    (free : ∀ e ∈ es, e.1.WildcardFree ∧ e.2.WildcardFree) :
    ∃ outcome, s.unifyEach .enabled es = .ok outcome ∧
      (outcome.isSome = true ↔ ∃ θ ∈ s.solutions, Solves θ es) := by
  induction es generalizing s with
  | nil =>
      refine ⟨some s, rfl, iff_of_true rfl ⟨s.resolution, resolution_mem acyclic, ?_⟩⟩
      simp [Solves]
  | cons e es ih =>
      obtain ⟨a, b⟩ := e
      rw [List.forall_mem_cons] at free
      obtain ⟨result, outcome, ended⟩ := unify_outcome acyclic plain free.1.1 free.1.2
      rw [unifyEach_cons, ended]
      cases result with
      | none =>
          refine ⟨none, rfl, iff_of_false (by simp) ?_⟩
          rintro ⟨θ, solves, equal⟩
          exact outcome {θ} (Set.singleton_subset_iff.mpr (solves_cons.mp equal).1)
            ⟨Set.singleton_nonempty θ, Set.singleton_subset_iff.mpr solves⟩
      | some next =>
          obtain ⟨⟨acyclicNext, plainNext⟩, _, _, solved, _⟩ := outcome
          obtain ⟨last, endedLast, solvable⟩ := ih acyclicNext plainNext free.2
          refine ⟨last, endedLast, solvable.trans (exists_congr fun θ => ?_)⟩
          change next.solutions = s.solutions ∩ unifiers a b at solved
          rw [solved, solves_cons, Set.mem_inter_iff, and_assoc]
          rfl

/-- Equations whose sides cover common terms are unified. -/
theorem unifyEach_of_overlap {θ : Assignment} (fits : s.Fits θ)
    (overlap : ∀ e ∈ es, e.1.Overlap θ e.2) :
    ∃ next, s.unifyEach .enabled es = .ok (some next) := by
  induction es generalizing s with
  | nil => exact ⟨s, rfl⟩
  | cons e es ih =>
      obtain ⟨a, b⟩ := e
      rw [List.forall_mem_cons] at overlap
      obtain ⟨next, ended, fitsNext⟩ := unify_of_overlap fits overlap.1
      rw [unifyEach_cons, ended]
      exact ih fitsNext overlap.2

/-- The bindings of a run over wildcards are acyclic and leave the wildcard unbound. -/
theorem unifyEach_growing (es : List Equation) (acyclic : s.Acyclic) :
    Growing s (s.unifyEach .enabled es) :=
  unifyPairs_growing unify_growing acyclic

end Substitution

open Substitution

/-- A term with wildcards covers the one with new variables. -/
theorem Term.covers_erase (fresh : Finset Var) (θ : Assignment) (t : Term) :
    (t.erase fresh).Covers θ (t.mapVars θ) := by
  induction t using rec_args with
  | var v =>
      by_cases member : v ∈ fresh
      · rw [erase_of_mem member]
        exact .wildcard _
      · rw [erase_of_notMem member]
        exact .var v
  | atom a => exact .atom a
  | compound f args ih =>
      rw [erase_compound, mapVars_compound]
      apply Covers.compound
      rw [List.forall₂_map_left_iff, List.forall₂_map_right_iff, List.forall₂_same]
      exact ih

namespace Refreshes

variable {fresh : Finset Var} {es full : List Equation}

/-- Equations whose new variables have values are unified with wildcards too. -/
theorem unifyEach_of_solves (refreshes : Refreshes fresh es full) {θ : Assignment}
    (solves : Solves θ full) : ∃ next, empty.unifyEach .enabled es = .ok (some next) := by
  apply unifyEach_of_overlap (Fits.empty (θ := θ))
  rw [refreshes.erased, List.forall_mem_map]
  intro e member
  refine ⟨e.1.mapVars θ, e.1.covers_erase fresh θ, ?_⟩
  rw [solves e member]
  exact e.2.covers_erase fresh θ

/-- Other variables occur as often with wildcards as without. -/
theorem occurrencesIn_eq (refreshes : Refreshes fresh es full) {v : Var} (absent : v ∉ fresh)
    (named : v ≠ .wildcard) : occurrencesIn v full = occurrencesIn v es := by
  rw [refreshes.erased, occurrencesIn, occurrencesIn, List.map_map]
  congr 1
  apply List.map_congr_left
  intro e _
  simp only [Equation.occurrences, Function.comp_apply, Term.occurrences_erase absent named]

/-- A run over wildcards in which no term with a wildcard is met twice leaves the
equations with new variables solvable. -/
theorem solvable (refreshes : Refreshes fresh es full) {final : Substitution}
    (ended : empty.unifyEach .enabled es = .ok (some final))
    (twice : ∀ v, final.Tainted v → occurrencesIn v es ≤ 2) : Solvable full := by
  obtain ⟨acyclicFinal, _, anonymous⟩ := unifyEach_growing es acyclic_empty final ended
  have simulating : Simulating fresh final (unify .enabled) :=
    simulating_unify acyclicFinal (anonymous (by simp))
  have resolved : ∀ others, empty.resolveEach others = others := by
    intro others
    simp [resolveEach]
  have frugal : Frugal fresh final full := by
    intro v marked
    by_cases member : v ∈ fresh
    · rw [if_pos member]
      exact refreshes.own v member
    · have tainted := marked.resolve_left member
      rw [if_neg member, refreshes.occurrencesIn_eq member tainted.1]
      exact twice v tainted
  have zipped : (full.map (·.1)).zip (full.map (·.2)) = full := by
    rw [List.zip_map', List.map_id']
  have freeLeft : ∀ a ∈ full.map (·.1), a.WildcardFree :=
    List.forall_mem_map.mpr fun e member => (refreshes.plain e member).1
  have freeRight : ∀ b ∈ full.map (·.2), b.WildcardFree :=
    List.forall_mem_map.mpr fun e member => (refreshes.plain e member).2
  have simulated := simulating.unifyPairs Erases.empty freeLeft freeRight
  rw [zipped, List.map_map, List.map_map] at simulated
  rw [unifyEach, refreshes.erased, List.map_map, List.map_map] at ended
  obtain ⟨later, _, _, solves⟩ := simulated final [] ended (.refl final)
    (by rwa [List.append_nil, resolved])
  rw [List.append_nil, resolved] at solves
  exact solves solvable_nil

/-- The wildcard is anonymous as long as no term with a wildcard is met twice.  Both runs
end.  If the equations are unified with a new variable in the place of each wildcard, they
are unified with the wildcards.  If they are unified with the wildcards, and no variable
that comes to stand for a term with a wildcard occurs more than twice in them, they are
unified with the new variables. -/
theorem unifyEach_anonymous (refreshes : Refreshes fresh es full) :
    ∃ outcome outcomeFull, empty.unifyEach .enabled es = .ok outcome ∧
      empty.unifyEach .enabled full = .ok outcomeFull ∧
      (outcomeFull.isSome = true → outcome.isSome = true) ∧
      ∀ final, outcome = some final → (∀ v, final.Tainted v → occurrencesIn v es ≤ 2) →
        outcomeFull.isSome = true := by
  obtain ⟨outcome, ended⟩ := unifyEach_ends acyclic_empty es
  obtain ⟨outcomeFull, endedFull, solvable⟩ :=
    unifyEach_plain acyclic_empty wildcardFree_empty refreshes.plain
  refine ⟨outcome, outcomeFull, ended, endedFull, ?_, ?_⟩
  · intro succeeds
    obtain ⟨θ, _, solves⟩ := solvable.mp succeeds
    obtain ⟨next, succeeded⟩ := refreshes.unifyEach_of_solves solves
    rw [ended] at succeeded
    cases succeeded
    rfl
  · rintro final rfl twice
    obtain ⟨θ, solves⟩ := refreshes.solvable ended twice
    exact solvable.mpr ⟨θ, by simp, solves⟩

/-- A term with a wildcard that is met once: the variable bound to it occurs twice. -/
theorem unifyEach_anonymous_met_once :
    let x := Var.numbered 1
    let n := Var.numbered 2
    let pattern (t : Term) : Term := .compound "f" [t]
    let es : List Equation := [(.var x, pattern (.var .wildcard)), (.var x, pattern (.int 1))]
    let full : List Equation := [(.var x, pattern (.var n)), (.var x, pattern (.int 1))]
    let final := empty.insert x (pattern (.var .wildcard))
    Refreshes {n} es full ∧ final.Tainted x ∧ empty.unifyEach .enabled es = .ok (some final) ∧
      ∃ next, empty.unifyEach .enabled full = .ok (some next) := by
  intro x n pattern es full final
  have refreshes : Refreshes {n} es full :=
    ⟨by decide, by decide, by simp [full, n, x, pattern, Term.occurrences_var]⟩
  have unified : empty.unifyEach .enabled es = .ok (some final) := rfl
  obtain ⟨outcome, outcomeFull, ended, endedFull, _, back⟩ := unifyEach_anonymous refreshes
  rw [unified] at ended
  cases ended
  have succeeds : outcomeFull.isSome = true := by
    apply back final rfl
    rintro v ⟨named, tainted⟩
    by_cases same : v = x
    · subst same
      decide
    · have unbound : final.lookup v = none := by simp [final, lookup_insert, Ne.symm same]
      rw [resolve_of_unbound unbound, Term.mentions_var] at tainted
      exact absurd tainted named
  obtain ⟨next, rfl⟩ := Option.isSome_iff_exists.mp succeeds
  exact ⟨refreshes, ⟨by decide, by decide⟩, unified, next, endedFull⟩

/-- What stands in the place of a wildcard may differ from one meeting to the next. -/
theorem not_forall_unifyEach_iff : ¬ ∀ (fresh : Finset Var) (es full : List Equation),
    Refreshes fresh es full → ((∃ s, empty.unifyEach .enabled es = .ok (some s)) ↔
      ∃ s, empty.unifyEach .enabled full = .ok (some s)) := by
  intro claimed
  let x := Var.numbered 1
  let n := Var.numbered 2
  let pattern (t : Term) : Term := .compound "f" [t]
  let later : List Equation := [(.var x, pattern (.int 1)), (.var x, pattern (.int 2))]
  have refreshes : Refreshes {n} ((.var x, pattern (.var .wildcard)) :: later)
      ((.var x, pattern (.var n)) :: later) :=
    ⟨by decide, by decide, by simp [later, n, x, pattern, Term.occurrences_var]⟩
  obtain ⟨next, unified⟩ := (claimed {n} _ _ refreshes).mp
    ⟨empty.insert x (pattern (.var .wildcard)), rfl⟩
  have failed : empty.unifyEach .enabled ((.var x, pattern (.var n)) :: later) = .ok none := rfl
  rw [failed] at unified
  cases unified

end Refreshes

end RelationalSolver
