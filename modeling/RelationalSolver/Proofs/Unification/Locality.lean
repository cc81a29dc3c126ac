import RelationalSolver.Constraint.Evaluation
import RelationalSolver.Proofs.Substitution.Descent

/-!
# Unification looks only at what its terms reach

Two substitutions that bind alike a set of variables, out of which their bindings
do not lead, are not told apart by unification of terms over that set: it succeeds
on both or on neither, makes as many bindings in one as in the other, and leaves
them alike.  A result found within some depth is found within every greater one.
-/

namespace RelationalSolver

/-- Every variable of the term is in the set. -/
def Term.Within (t : Term) (inside : Set Var) : Prop := ∀ v, t.mentions v = true → v ∈ inside

theorem Term.Within.arg {inside : Set Var} {f : String} {args : List Term} {t : Term}
    (within : (compound f args).Within inside) (member : t ∈ args) : t.Within inside :=
  fun v mentioned => within v (mentions_compound.mpr ⟨t, member, mentioned⟩)

theorem Term.within_of_varsOf {inside : Set Var} {ts : List Term} {t : Term}
    (known : ∀ v ∈ varsOf ts, v ∈ inside) (anonymous : .wildcard ∈ inside) (member : t ∈ ts) :
    t.Within inside := by
  intro v mentioned
  by_cases named : v = .wildcard
  · exact named ▸ anonymous
  · exact known v (mem_varsOf.mpr ⟨⟨t, member, mentioned⟩, named⟩)

/-- Where the first computation ends, the second ends with the same result. -/
def Repeats {α : Type} (x y : Except Unending α) : Prop := ∀ a, x = .ok a → y = .ok a

theorem Repeats.refl {α : Type} (x : Except Unending α) : Repeats x x := fun _ ended => ended

/-- A sequence of computations that ends has ended in its first part. -/
theorem ok_of_bind {α β : Type} {x : Except Unending α} {f : α → Except Unending β} {b : β}
    (ended : x >>= f = .ok b) : ∃ a, x = .ok a ∧ f a = .ok b := by
  cases x with
  | error e => cases ended
  | ok a => exact ⟨a, rfl, ended⟩

theorem Repeats.bind {α β : Type} {x y : Except Unending α} {f g : α → Except Unending β}
    (first : Repeats x y) (second : ∀ a, x = .ok a → Repeats (f a) (g a)) :
    Repeats (x >>= f) (y >>= g) := by
  intro b ended
  obtain ⟨a, found, ended⟩ := ok_of_bind ended
  rw [first a found]
  exact second a found b ended

namespace Substitution

variable {inside : Set Var} {s other next nextOther : Substitution} {v : Var} {a b t : Term}

/-- Two acyclic substitutions bind alike the variables of a set, and do not lead out
of it. -/
structure Alike (inside : Set Var) (s other : Substitution) : Prop where
  acyclic : s.Acyclic
  acyclicOther : other.Acyclic
  closed : ∀ v ∈ inside, ∀ t, s.lookup v = some t → t.Within inside
  same : ∀ v ∈ inside, other.lookup v = s.lookup v

namespace Alike

theorem resolve (alike : Alike inside s other) (within : t.Within inside) :
    other.resolve t = s.resolve t := by
  have onVars : ∀ v, v ∈ inside → other.resolve (.var v) = s.resolve (.var v) := by
    intro v
    induction v using alike.acyclic.induction with
    | step v ih =>
        intro member
        have same := alike.same v member
        cases bound : s.lookup v with
        | none =>
            rw [bound] at same
            rw [resolve_of_unbound bound, resolve_of_unbound same]
        | some t =>
            rw [bound] at same
            rw [resolve_of_bound alike.acyclic bound, resolve_of_bound alike.acyclicOther same]
            apply Term.mapVars_congr
            intro w mentioned
            exact ih t bound w mentioned (alike.closed v member t bound w mentioned)
  exact Term.mapVars_congr fun v mentioned => onVars v (within v mentioned)

/-- Walking ends at the same term, which is over the set again. -/
theorem walk (alike : Alike inside s other) (within : t.Within inside) :
    other.walk t = s.walk t ∧ (s.walk t).Within inside := by
  cases t with
  | atom a => simpa using within
  | compound f args => simpa using within
  | var v =>
      induction v using alike.acyclic.induction with
      | step v ih =>
          have member : v ∈ inside := within v (Term.mentions_var.mpr rfl)
          have same := alike.same v member
          cases bound : s.lookup v with
          | none =>
              rw [bound] at same
              have walked : s.Walked (.var v) := by
                rintro w equal
                cases equal
                exact bound
              have walkedOther : other.Walked (.var v) := by
                rintro w equal
                cases equal
                exact same
              rw [walk_of_walked walked, walk_of_walked walkedOther]
              exact ⟨rfl, within⟩
          | some t =>
              rw [bound] at same
              rw [walk_of_bound alike.acyclic bound, walk_of_bound alike.acyclicOther same]
              have inner := alike.closed v member t bound
              cases t with
              | atom a => simpa using inner
              | compound f args => simpa using inner
              | var w => exact ih _ bound w (Term.mentions_var.mpr rfl) inner

theorem resolve_within (alike : Alike inside s other) (within : t.Within inside) :
    (s.resolve t).Within inside := by
  intro w mentioned
  obtain ⟨v, start, path⟩ := ((mentions_resolve alike.acyclic).mp mentioned).1
  clear mentioned
  induction path with
  | refl => exact within v start
  | tail _ binds member =>
      obtain ⟨u, bound, mentioned⟩ := binds
      exact alike.closed _ member u bound _ mentioned

theorem occurs (alike : Alike inside s other) (within : t.Within inside) (v : Var) :
    other.occurs v t = s.occurs v t := by
  rw [occurs_eq_mentions alike.acyclic, occurs_eq_mentions alike.acyclicOther,
    alike.resolve within]

theorem insert (alike : Alike inside s other) (member : v ∈ inside) (within : t.Within inside)
    (unbound : s.lookup v = none) (apart : (s.resolve t).mentions v = false) :
    Alike inside (s.insert v t) (other.insert v t) := by
  have unboundOther : other.lookup v = none := (alike.same v member).trans unbound
  constructor
  · apply acyclic_insert alike.acyclic
    intro reaches
    rw [(mentions_resolve alike.acyclic).mpr ⟨reaches, unbound⟩] at apart
    contradiction
  · apply acyclic_insert alike.acyclicOther
    intro reaches
    rw [← alike.resolve within,
      (mentions_resolve alike.acyclicOther).mpr ⟨reaches, unboundOther⟩] at apart
    contradiction
  · intro w among u bound
    rw [lookup_insert] at bound
    split at bound
    · cases bound
      exact within
    · exact alike.closed w among u bound
  · intro w among
    rw [lookup_insert, lookup_insert, alike.same w among]

end Alike

theorem size_insert (unbound : s.lookup v = none) : (s.insert v t).size = s.size + 1 := by
  have absent : s.bindings.contains v = false := by
    change s.isBound v = false
    rw [isBound_eq, unbound]
    rfl
  rw [size, Substitution.insert, Std.TreeMap.size_insert, absent]
  rfl

/-- A binding of an unbound variable adds the nodes of its term. -/
theorem nodes_insert (unbound : s.lookup v = none) : (s.insert v t).nodes = t.size + s.nodes := by
  have others : (s.toList.filter fun entry => decide ¬(v == entry.1) = true) = s.toList := by
    rw [List.filter_eq_self]
    rintro ⟨w, u⟩ entry
    have bound : s.lookup w = some u := Std.TreeMap.mem_toList_iff_getElem?_eq_some.mp entry
    have different : v ≠ w := by
      rintro rfl
      rw [unbound] at bound
      contradiction
    simpa using different
  have listed : (s.insert v t).toList.Perm ((v, t) :: s.toList) := by
    have entries := Std.TreeMap.toList_insert_perm (t := s.bindings) (k := v) (v := t)
    change (s.insert v t).toList.Perm ((v, t) :: s.toList.filter _) at entries
    rwa [others] at entries
  rw [nodes_eq_sizes, nodes_eq_sizes, Term.sizes_eq_sum, Term.sizes_eq_sum,
    ((listed.map _).map _).sum_nat]
  rfl

/-- A walked term does not reach a variable that the occurrence test lets pass. -/
theorem apart_of_walked (walked : s.Walked t) (different : t ≠ .var v)
    (simple : ∀ f args, t ≠ .compound f args) : (s.resolve t).mentions v = false := by
  cases t with
  | atom a => rfl
  | compound f args => exact absurd rfl (simple f args)
  | var w =>
      rw [resolve_of_unbound (walked w rfl), ← Bool.not_eq_true, Term.mentions_var]
      rintro rfl
      exact different rfl

/-! ## Attempts side by side -/

/-- Two results agree: both are failures, or the same number of bindings was made and
the substitutions are alike. -/
def Agrees (inside : Set Var) (s other : Substitution) :
    Option Substitution → Option Substitution → Prop
  | none, none => True
  | some next, some nextOther =>
      Alike inside next nextOther ∧ next.size + other.size = nextOther.size + s.size
  | _, _ => False

/-- If the first attempt ends, the second ends in a result that agrees with it. -/
def Follows (inside : Set Var) (s other : Substitution)
    (attempt attemptOther : Except Unending (Option Substitution)) : Prop :=
  ∀ result, attempt = .ok result →
    ∃ resultOther, attemptOther = .ok resultOther ∧ Agrees inside s other result resultOther

theorem Follows.same (alike : Alike inside s other) :
    Follows inside s other (.ok (some s)) (.ok (some other)) := by
  intro result ended
  cases ended
  exact ⟨some other, rfl, alike, Nat.add_comm _ _⟩

theorem Follows.failed : Follows inside s other (.ok none) (.ok none) := by
  intro result ended
  cases ended
  exact ⟨none, rfl, trivial⟩

/-- A variable is bound in both or in neither. -/
theorem bindVar_follows (alike : Alike inside s other) (member : v ∈ inside)
    (within : t.Within inside) (unbound : s.lookup v = none) (walked : s.Walked t)
    (different : t ≠ .var v) :
    Follows inside s other ((store .enabled).bindVar s v t)
      ((store .enabled).bindVar other v t) := by
  have walks := (alike.walk within).1
  rw [walk_of_walked walked] at walks
  -- What remains once the occurrence test has let the term pass.
  have extended : (s.resolve t).mentions v = false →
      Follows inside s other (.ok (s.extend v t)) (.ok (other.extend v t)) := by
    intro apart
    unfold extend
    rw [walk_of_walked walked, walks]
    split
    · exact .failed
    · intro result ended
      cases ended
      refine ⟨_, rfl, alike.insert member within unbound apart, ?_⟩
      rw [size_insert unbound, size_insert ((alike.same v member).trans unbound)]
      omega
  cases t with
  | var w => exact extended (apart_of_walked walked different (by simp))
  | atom a => exact extended rfl
  | compound f args =>
      have tested : (store .enabled).forbids s v (.compound f args) =
          .ok ((s.resolve (.compound f args)).mentions v) := occurs_eq_mentions alike.acyclic v _
      have testedOther : (store .enabled).forbids other v (.compound f args) =
          .ok ((s.resolve (.compound f args)).mentions v) := by
        change other.occurs v _ = _
        rw [alike.occurs within]
        exact occurs_eq_mentions alike.acyclic v _
      rw [Bindings.bindVar, Bindings.bindVar, tested, testedOther]
      cases found : (s.resolve (.compound f args)).mentions v with
      | true => exact .failed
      | false => exact extended found

section Rounds

variable {unify unifyOther : Substitution → Term → Term → Except Unending (Option Substitution)}

theorem unifyPairs_follows
    (follows : ∀ s other a b, Alike inside s other → a.Within inside → b.Within inside →
      Follows inside s other (unify s a b) (unifyOther other a b)) :
    ∀ (as bs : List Term) (s other : Substitution), Alike inside s other →
      (∀ a ∈ as, a.Within inside) → (∀ b ∈ bs, b.Within inside) →
      Follows inside s other (Bindings.unifyPairs unify s as bs)
        (Bindings.unifyPairs unifyOther other as bs)
  | [], _, s, other, alike, _, _ => .same alike
  | _ :: _, [], s, other, alike, _, _ => .same alike
  | a :: as, b :: bs, s, other, alike, left, right => by
      rw [List.forall_mem_cons] at left right
      intro result ended
      obtain ⟨found, first, ended⟩ := ok_of_bind ended
      obtain ⟨foundOther, firstOther, agrees⟩ :=
        follows s other a b alike left.1 right.1 found first
      rw [Bindings.unifyPairs, firstOther]
      cases found with
      | none =>
          cases ended
          cases foundOther with
          | none => exact ⟨none, rfl, trivial⟩
          | some nextOther => exact agrees.elim
      | some next =>
          cases foundOther with
          | none => exact agrees.elim
          | some nextOther =>
              obtain ⟨alikeNext, sizes⟩ := agrees
              obtain ⟨last, lastEnded, agreesLast⟩ := unifyPairs_follows follows as bs next
                nextOther alikeNext left.2 right.2 result ended
              refine ⟨last, lastEnded, ?_⟩
              cases result <;> cases last <;> simp only [Agrees] at agreesLast ⊢
              exact ⟨agreesLast.1, by have := agreesLast.2; omega⟩

theorem unifyRound_follows
    (follows : ∀ s other a b, Alike inside s other → a.Within inside → b.Within inside →
      Follows inside s other (unify s a b) (unifyOther other a b))
    (alike : Alike inside s other) (left : a.Within inside) (right : b.Within inside) :
    Follows inside s other ((store .enabled).unifyRound unify s a b)
      ((store .enabled).unifyRound unifyOther other a b) := by
  have walkedLeft := walked_walk alike.acyclic a
  have walkedRight := walked_walk alike.acyclic b
  have walks : ∀ r t, (store .enabled).walk r t = r.walk t := fun _ _ => rfl
  unfold Bindings.unifyRound
  simp only [walks, (alike.walk left).1, (alike.walk right).1]
  replace left := (alike.walk left).2
  replace right := (alike.walk right).2
  generalize s.walk a = a at *
  generalize s.walk b = b at *
  split
  · exact .same alike
  · rename_i different
    split
    · exact .same alike
    · exact .same alike
    · rename_i v _ _
      exact bindVar_follows alike (left v (Term.mentions_var.mpr rfl)) right (walkedLeft v rfl)
        walkedRight (Ne.symm different)
    · rename_i v _ _ _
      exact bindVar_follows alike (right v (Term.mentions_var.mpr rfl)) left (walkedRight v rfl)
        walkedLeft different
    · rename_i f as g bs
      split
      · exact unifyPairs_follows follows as bs s other alike (fun _ => left.arg)
          (fun _ => right.arg)
      · exact .failed
    · exact .failed

end Rounds

/-- Unification within a greater depth, in a substitution that is alike. -/
theorem unifyWithin_follows : ∀ {depth depthOther : Nat} (_ : depth ≤ depthOther)
    (s other : Substitution) (a b : Term), Alike inside s other → a.Within inside →
      b.Within inside → Follows inside s other (unifyWithin .enabled depth s a b)
        (unifyWithin .enabled depthOther other a b)
  | 0, _, _, s, other, a, b, _, _, _ => fun _ ended => by cases ended
  | depth + 1, 0, less, _, _, _, _, _, _, _ => absurd less (by omega)
  | depth + 1, depthOther + 1, less, s, other, a, b, alike, left, right =>
      unifyRound_follows (unifyWithin_follows (Nat.le_of_succ_le_succ less)) alike left right

theorem rounds_mono {few many : Nat} (less : few ≤ many) : rounds few ≤ rounds many := by
  have more : few + 1 ≤ many + 1 := Nat.succ_le_succ less
  exact Nat.mul_le_mul (Nat.mul_le_mul more more) more

theorem unify_follows (alike : Alike inside s other) (larger : s.nodes ≤ other.nodes)
    (left : a.Within inside) (right : b.Within inside) :
    Follows inside s other (s.unify .enabled a b) (other.unify .enabled a b) := by
  rw [unify_eq, unify_eq]
  apply unifyWithin_follows _ s other a b alike left right
  exact Nat.add_le_add_right (rounds_mono (by omega)) _

/-- What is found out about two terms is found out in every substitution that is alike. -/
theorem equality_repeats (alike : Alike inside s other) (larger : s.nodes ≤ other.nodes)
    (left : a.Within inside) (right : b.Within inside) :
    Repeats (equality .enabled s a b) (equality .enabled other a b) := by
  intro found ended
  obtain ⟨result, attempt, ended⟩ := ok_of_bind ended
  obtain ⟨resultOther, attemptOther, agrees⟩ :=
    unify_follows alike larger left right result attempt
  rw [equality, attemptOther, ← ended]
  cases result <;> cases resultOther
  · rfl
  · exact agrees.elim
  · exact agrees.elim
  · rename_i next nextOther
    have sizes : nextOther.size = other.size ↔ next.size = s.size := by
      have := agrees.2
      omega
    change Except.ok (if nextOther.size = other.size then _ else _) =
      Except.ok (if next.size = s.size then _ else _)
    simp only [sizes]

end Substitution

end RelationalSolver
