import RelationalSolver.Proofs.Context.Addition

/-!
# Distinct terms and excluded terms as disequalities

A constraint on terms can be taken out of a sequence of equations and constraints: the sequence
succeeds with it exactly if it succeeds without and the bindings in the end do not violate it.  So
constraints that hold under the same assignments can take each other's place, and terms are
kept distinct, or a term is kept from others, just as by disequalities one by one.  The other
constraints may be of any kind.
-/

namespace RelationalSolver

open Substitution Constraint Engine

namespace Constraint

variable {s : Substitution} {c : Constraint} {θ : Assignment}

/-- The constraint keeps terms apart. -/
def Separates : Constraint → Prop
  | .neq _ _ => True
  | .distinct _ => True
  | .notIn _ => True
  | _ => False

/-- Terms that some solution keeps apart are apart as far as they are resolved. -/
theorem Holds.resolution (holds : c.Holds θ) (separates : c.Separates) (acyclic : s.Acyclic)
    (solves : θ ∈ s.solutions) : c.Holds s.resolution := by
  have agrees : ∀ {a b : Term}, s.resolve a = s.resolve b → a.mapVars θ = b.mapVars θ :=
    fun same => mapVars_eq_of_resolve_eq acyclic same solves
  cases c with
  | neq a b => exact mt agrees holds
  | distinct items => exact List.pairwise_map.mpr ((List.pairwise_map.mp holds).imp (mt agrees))
  | notIn e => exact fun t member => mt agrees (holds t member)
  | inDomain v domain => exact separates.elim
  | cardinality factors => exact separates.elim

theorem evaluate_ne_violated (acyclic : s.Acyclic) (plain : s.WildcardFree) (proper : c.Proper)
    (separates : c.Separates) :
    c.evaluate .enabled s ≠ .ok .violated ↔ c.Holds s.resolution := by
  rw [ne_eq, evaluate_eq_violated acyclic plain proper]
  constructor
  · intro possible
    push Not at possible
    obtain ⟨θ, solves, holds⟩ := possible
    exact holds.resolution separates acyclic solves
  · exact fun holds never => never _ (resolution_mem acyclic) holds

/-- The disequalities between every two of the terms. -/
def disequalities : List Term → List Constraint
  | [] => []
  | t :: ts => ts.map (.neq t) ++ disequalities ts

theorem mem_disequalities {ts : List Term} : c ∈ disequalities ts ↔
    ∃ (i j : Nat) (_ : i < j) (_ : j < ts.length), c = .neq ts[i] ts[j] := by
  induction ts with
  | nil => simp [disequalities]
  | cons t ts ih =>
      rw [disequalities, List.mem_append, List.mem_map, ih]
      constructor
      · rintro (⟨u, member, rfl⟩ | ⟨i, j, before, bound, rfl⟩)
        · obtain ⟨j, bound, rfl⟩ := List.mem_iff_getElem.mp member
          exact ⟨0, j + 1, by omega, by simpa using bound, rfl⟩
        · exact ⟨i + 1, j + 1, by omega, by simpa using bound, rfl⟩
      · rintro ⟨i, j, before, bound, rfl⟩
        obtain ⟨j, rfl⟩ : ∃ later, j = later + 1 := ⟨j - 1, by omega⟩
        have bound : j < ts.length := by simpa using bound
        cases i with
        | zero => exact .inl ⟨ts[j], List.getElem_mem bound, rfl⟩
        | succ i => exact .inr ⟨i, j, by omega, bound, rfl⟩

/-- Terms are distinct exactly if each differs from each after it. -/
theorem holds_distinct {items : List Term} :
    (distinct items).Holds θ ↔ ∀ c ∈ disequalities items, c.Holds θ := by
  rw [Holds, List.Nodup, List.pairwise_map, List.pairwise_iff_getElem]
  simp only [mem_disequalities]
  constructor
  · rintro apart _ ⟨i, j, before, bound, rfl⟩
    exact apart i j (before.trans bound) bound before
  · exact fun apart i j _ bound before => apart _ ⟨i, j, before, bound, rfl⟩

theorem holds_notIn {e : Exclusion} :
    (notIn e).Holds θ ↔ ∀ c ∈ e.members.map (neq e.subject), c.Holds θ := by
  rw [List.forall_mem_map]
  rfl

end Constraint

namespace Operation

open Context

variable {start ctx other mid : Context} {ops others before after : List Operation}
variable {s : Substitution} {c : Constraint} {cs : List Constraint} {k : Nat}

/-- The operations succeed one after the other, and make the bindings. -/
def EndsIn (start : Context) (ops : List Operation) (s : Substitution) : Prop :=
  ∃ next, Returns (runAll start ops) (some next) ∧ next.substitution = s

theorem endsIn_append (regular : start.Regular) (free : ∀ op ∈ ops, op.WildcardFree)
    (freeOthers : ∀ op ∈ others, op.WildcardFree) : EndsIn start (ops ++ others) s ↔
      ∃ mid, Returns (runAll start ops) (some mid) ∧ EndsIn mid others s := by
  have runs : ∀ last, Returns (runAll start (ops ++ others)) (some last) ↔
      ∃ mid, Returns (runAll start ops) (some mid) ∧ Returns (runAll mid others) (some last) := by
    intro last
    have narrows : ∀ result, Leaves Narrows start result →
        Detached (result.elim (pure none) (runAll · others)) (Leaves Narrows start) := by
      intro result leaves
      cases result with
      | none => exact .pure leaves_none
      | some mid =>
          have first := leaves mid rfl
          exact (first.regular.runAll freeOthers).mono fun _ => .of_related first
    rw [runAll_append]
    refine ((regular.runAll free).returns_bind narrows).trans ⟨?_, ?_⟩
    · rintro ⟨result, first, rest⟩
      cases result with
      | none => exact absurd rest not_returns_pure_none
      | some mid => exact ⟨mid, first, rest⟩
    · rintro ⟨mid, first, rest⟩
      exact ⟨some mid, first, rest⟩
  simp only [EndsIn, runs]
  constructor
  · rintro ⟨last, ⟨mid, first, rest⟩, same⟩
    exact ⟨mid, first, last, rest, same⟩
  · rintro ⟨mid, first, last, rest, same⟩
    exact ⟨last, ⟨mid, first, rest⟩, same⟩

/-- The first of two runs side by side succeeds exactly if the second does and the additional
constraint is not violated in the end. -/
theorem endsIn_of_tracks (tracks : Tracks c k (runAll ctx ops) (runAll other others))
    (regular : other.Regular) (free : ∀ op ∈ others, op.WildcardFree) (proper : c.Proper) :
    EndsIn ctx ops s ↔ EndsIn other others s ∧ c.evaluate .enabled s ≠ .ok .violated := by
  rcases tracks with ⟨next, nextOther, abreast, given, givenOther⟩ | ⟨fails, loses⟩
  · rw [EndsIn, EndsIn, given, givenOther]
    have notViolated : c.evaluate .enabled next.substitution ≠ .ok .violated := by
      rw [ne_eq, evaluate_eq_violated abreast.acyclic abreast.plain proper]
      obtain ⟨θ, solves, holds⟩ := abreast.joined.exists_holds abreast.acyclic abreast.plain
      exact fun never => never θ solves holds
    have only : ∀ {a b : Context}, Returns (pure (some a)) (some b) → a = b := by
      rintro a b ⟨_, _, ran⟩
      exact Option.some.inj (runs_pure.mp ran).1
    constructor
    · rintro ⟨last, returned, rfl⟩
      cases only returned
      exact ⟨⟨nextOther, returns_pure _, abreast.same⟩, notViolated⟩
    · rintro ⟨⟨last, returned, rfl⟩, _⟩
      cases only returned
      exact ⟨next, returns_pure _, abreast.same.symm⟩
  · constructor
    · exact fun ⟨next, returned, _⟩ => absurd returned (fails next)
    · rintro ⟨⟨last, returned, rfl⟩, notViolated⟩
      have regularLast := ((regular.runAll free).of_returns returned last rfl).regular
      exact absurd ((evaluate_eq_violated regularLast.acyclic regularLast.plain proper).mpr
        (loses last returned)) notViolated

/-- A constraint on terms makes just those sequences fail that would end in bindings that
violate it. -/
theorem endsIn_constrain (indexed : start.Indexed) (regular : start.Regular)
    (free : ∀ op ∈ before, op.WildcardFree) (freeAfter : ∀ op ∈ after, op.WildcardFree)
    (proper : c.Proper) : EndsIn start (before ++ .constrain c :: after) s ↔
      EndsIn start (before ++ after) s ∧ c.evaluate .enabled s ≠ .ok .violated := by
  have freeAll : ∀ op ∈ Operation.constrain c :: after, op.WildcardFree :=
    List.forall_mem_cons.mpr ⟨trivial, freeAfter⟩
  rw [endsIn_append regular free freeAll, endsIn_append regular free freeAfter,
    exists_and_right.symm]
  apply exists_congr
  intro mid
  rw [and_assoc]
  apply and_congr_right
  intro reached
  have indexedMid := (indexed.runAll before).of_returns reached mid rfl indexed
  have regularMid := ((regular.runAll free).of_returns reached mid rfl).regular
  refine endsIn_of_tracks (k := mid.pending.nextId) ?_ regularMid freeAfter proper
  have added := indexedMid.constrain_tracks regularMid.acyclic regularMid.plain proper
  have rest : (pure (some mid) >>= fun result => result.elim (pure none) (runAll · after)) =
      runAll mid after := pure_bind _ _
  rw [← rest]
  apply added.bind (.pure (leaves_some (.refl regularMid)))
  · exact fun next regular => regular.runAll freeAfter
  · exact fun next nextOther abreast => abreast.runAll freeAfter
  · rfl
  · rfl

theorem endsIn_constrainAll (indexed : start.Indexed) (regular : start.Regular)
    (free : ∀ op ∈ before, op.WildcardFree) (freeAfter : ∀ op ∈ after, op.WildcardFree)
    (proper : ∀ c ∈ cs, c.Proper) : EndsIn start (before ++ cs.map .constrain ++ after) s ↔
      EndsIn start (before ++ after) s ∧ ∀ c ∈ cs, c.evaluate .enabled s ≠ .ok .violated := by
  induction cs with
  | nil => simp
  | cons c cs ih =>
      rw [List.forall_mem_cons] at proper
      have freeLater : ∀ op ∈ cs.map Operation.constrain ++ after, op.WildcardFree := by
        intro op member
        rcases List.mem_append.mp member with added | later
        · obtain ⟨d, _, rfl⟩ := List.mem_map.mp added
          trivial
        · exact freeAfter op later
      rw [List.map_cons, List.append_assoc, List.cons_append,
        endsIn_constrain indexed regular free freeLater proper.1, ← List.append_assoc, ih proper.2,
        and_assoc, List.forall_mem_cons, and_comm (a := ∀ c ∈ cs, _)]

/-- Constraints that keep the same terms apart take each other's place. -/
theorem endsIn_exchange (indexed : start.Indexed) (regular : start.Regular)
    (free : ∀ op ∈ before ++ after, op.WildcardFree) (proper : c.Proper)
    (separates : c.Separates) (all : ∀ d ∈ cs, d.Proper ∧ d.Separates)
    (same : ∀ θ, c.Holds θ ↔ ∀ d ∈ cs, d.Holds θ) :
    EndsIn start (before ++ .constrain c :: after) s ↔
      EndsIn start (before ++ cs.map .constrain ++ after) s := by
  obtain ⟨freeBefore, freeAfter⟩ := List.forall_mem_append.mp free
  rw [endsIn_constrain indexed regular freeBefore freeAfter proper,
    endsIn_constrainAll indexed regular freeBefore freeAfter fun d member => (all d member).1]
  apply and_congr_right
  rintro ⟨last, returned, rfl⟩
  have regularLast := ((regular.runAll free).of_returns returned last rfl).regular
  rw [evaluate_ne_violated regularLast.acyclic regularLast.plain proper separates, same]
  exact forall₂_congr fun d member => (evaluate_ne_violated regularLast.acyclic
    regularLast.plain (all d member).1 (all d member).2).symm

/-- Distinct terms, and terms that others are excluded from, make the same sequences succeed and
make the same bindings as the disequalities between them, added in their place in any order. -/
theorem endsIn_disequalities (blank : start.Blank)
    (free : ∀ op ∈ before ++ after, op.WildcardFree) :
    (∀ items : List Term, (∀ t ∈ items, t.WildcardFree) →
      ∀ cs : List Constraint, cs.Perm (disequalities items) → ∀ s,
        (EndsIn start (before ++ .constrain (.distinct items) :: after) s ↔
          EndsIn start (before ++ cs.map .constrain ++ after) s)) ∧
    ∀ e : Exclusion, e.subject.WildcardFree → (∀ t ∈ e.members, t.WildcardFree) →
      ∀ cs : List Constraint, cs.Perm (e.members.map (neq e.subject)) → ∀ s,
        (EndsIn start (before ++ .constrain (.notIn e) :: after) s ↔
          EndsIn start (before ++ cs.map .constrain ++ after) s) := by
  constructor
  · intro items freeItems cs permuted s
    have proper : (distinct items).Proper := freeItems
    apply endsIn_exchange blank.indexed blank.regular free proper trivial
    · intro d member
      obtain ⟨i, j, before, bound, rfl⟩ := mem_disequalities.mp (permuted.mem_iff.mp member)
      exact ⟨⟨freeItems _ (List.getElem_mem _), freeItems _ (List.getElem_mem _)⟩, trivial⟩
    · intro θ
      simp only [holds_distinct, permuted.mem_iff]
  · intro e freeSubject freeMembers cs permuted s
    have proper : (notIn e).Proper := ⟨freeSubject, freeMembers⟩
    apply endsIn_exchange blank.indexed blank.regular free proper trivial
    · intro d member
      obtain ⟨t, among, rfl⟩ := List.mem_map.mp (permuted.mem_iff.mp member)
      exact ⟨⟨freeSubject, freeMembers t among⟩, trivial⟩
    · intro θ
      simp only [holds_notIn, permuted.mem_iff]

/-- Three terms are kept distinct, one of them bound to a compound before.  Another one may be
unified with what the compound holds, and not with the compound itself; nor may it be if it is
only kept from the other two. -/
theorem endsIn_disequalities_nested :
    let x := Term.var (.numbered 1)
    let y := Term.var (.numbered 2)
    let z := Term.var (.numbered 3)
    let f (t : Term) := Term.compound "f" [t]
    let before : List Operation := [.unify y (f z)]
    let apart : List Operation := [.unify x z]
    let equal : List Operation := [.unify x (f z)]
    let cs : List Constraint := [.neq y (.int 1), .neq x y, .neq x (.int 1)]
    let e : Exclusion := ⟨x, [y, .int 1]⟩
    (∀ op ∈ before ++ apart, op.WildcardFree) ∧ (∀ op ∈ before ++ equal, op.WildcardFree) ∧
      cs.Perm (disequalities [x, y, .int 1]) ∧
      (∃ s, EndsIn .checked (before ++ cs.map .constrain ++ apart) s) ∧
      (∀ s, ¬ EndsIn .checked (before ++ cs.map .constrain ++ equal) s) ∧
      ∀ s, ¬ EndsIn .checked
        (before ++ (e.members.map (neq e.subject)).map .constrain ++ equal) s := by
  intro x y z f before apart equal cs e
  -- Runs are evaluated with the abbreviations put in.
  obtain ⟨⟨next, succeeds⟩, fails, excluded⟩ :
      (∃ next, runAll .checked (before ++ .constrain (.distinct [x, y, .int 1]) :: apart) =
        pure (some next)) ∧
      runAll .checked (before ++ .constrain (.distinct [x, y, .int 1]) :: equal) = pure none ∧
      runAll .checked (before ++ .constrain (.notIn e) :: equal) = pure none := by
    revert x y z f
    exact ⟨⟨_, rfl⟩, rfl, rfl⟩
  have freeApart : ∀ op ∈ before ++ apart, op.WildcardFree := by decide
  have freeEqual : ∀ op ∈ before ++ equal, op.WildcardFree := by decide
  have freeItems : ∀ t ∈ [x, y, .int 1], t.WildcardFree := by decide
  have permuted : cs.Perm (disequalities [x, y, .int 1]) :=
    show ([neq y (.int 1)] ++ [neq x y, neq x (.int 1)]).Perm _ from List.perm_append_comm
  have distinctApart := (endsIn_disequalities blank_checked freeApart).1 _ freeItems _ permuted
  obtain ⟨distinctEqual, notInEqual⟩ := endsIn_disequalities blank_checked freeEqual
  refine ⟨freeApart, freeEqual, permuted, ?_, ?_, ?_⟩
  · exact ⟨_, (distinctApart _).mp ⟨next, succeeds ▸ returns_pure _, rfl⟩⟩
  · intro s
    apply mt (distinctEqual _ freeItems _ permuted s).mpr
    rintro ⟨next, returned, _⟩
    exact not_returns_pure_none (fails ▸ returned)
  · intro s
    apply mt (notInEqual e (by decide) (by decide) _ (.refl _) s).mpr
    rintro ⟨next, returned, _⟩
    exact not_returns_pure_none (excluded ▸ returned)

end Operation

end RelationalSolver
