import RelationalSolver.Proofs.Substitution.Chains
import RelationalSolver.Proofs.Substitution.Descent

/-!
# Resolving ends and misses nothing

Resolving follows bindings into terms that may hold the very variable whose binding is
followed.  Every variable is expanded at most once on the way to a node, which makes the
number of calls finite; an unbound variable is reached on some way that passes no variable
twice, so it is still found.
-/

namespace RelationalSolver.Substitution

variable {s next : Substitution} {v w : Var} {t u : Term} {expanding : List Var} {calls : Nat}

/-- Made by binding unbound variables, one after the other. -/
inductive Built : Substitution → Prop
  | empty : Built .empty
  | extend {s next : Substitution} {v : Var} {t : Term} (built : Built s)
      (unbound : s.lookup v = none) (extended : s.extend v t = some next) : Built next

theorem Built.lookup_wildcard (built : s.Built) : s.lookup .wildcard = none := by
  induction built with
  | empty => exact lookup_empty _
  | @extend s next v t _ _ extended ih =>
      rw [Substitution.extend] at extended
      split at extended
      · cases extended
      · rename_i allowed
        cases extended
        rw [lookup_insert, if_neg fun same => allowed (.inl same), ih]

/-! ## The calls -/

mutual

/-- Resolving a term, while some variables are being expanded, takes so many calls and
gives the second term. -/
inductive Resolves (s : Substitution) : List Var → Term → Term → Nat → Prop
  | held {expanding : List Var} {v : Var} (member : v ∈ expanding) :
      Resolves s expanding (.var v) (.var v) 1
  | unbound {expanding : List Var} {v : Var} (absent : v ∉ expanding)
      (unbound : s.lookup v = none) : Resolves s expanding (.var v) (.var v) 1
  | bound {expanding : List Var} {v : Var} {t u : Term} {calls : Nat} (absent : v ∉ expanding)
      (bound : s.lookup v = some t) (rest : Resolves s (v :: expanding) t u calls) :
      Resolves s expanding (.var v) u (calls + 1)
  | atom {expanding : List Var} (a : Atom) : Resolves s expanding (.atom a) (.atom a) 1
  /-- Ground arguments are not looked into. -/
  | ground {expanding : List Var} {f : String} {args : List Term}
      (ground : Term.allGround args = true) :
      Resolves s expanding (.compound f args) (.compound f args) 1
  | compound {expanding : List Var} {f : String} {args resolved : List Term} {calls : Nat}
      (notGround : Term.allGround args = false)
      (rest : ResolvesAll s expanding args resolved calls) :
      Resolves s expanding (.compound f args) (.compound f resolved) (calls + 1)

/-- Resolving the arguments of a compound, from left to right. -/
inductive ResolvesAll (s : Substitution) : List Var → List Term → List Term → Nat → Prop
  | nil {expanding : List Var} : ResolvesAll s expanding [] [] 0
  | cons {expanding : List Var} {t u : Term} {ts us : List Term} {calls more : Nat}
      (first : Resolves s expanding t u calls) (rest : ResolvesAll s expanding ts us more) :
      ResolvesAll s expanding (t :: ts) (u :: us) (calls + more)

end

mutual

/-- The calls are determined by what they begin with. -/
theorem Resolves.unique : ∀ {expanding : List Var} {t u other : Term} {calls count : Nat},
    s.Resolves expanding t u calls → s.Resolves expanding t other count →
      u = other ∧ calls = count
  | _, _, _, _, _, _, .held _, .held _ => ⟨rfl, rfl⟩
  | _, _, _, _, _, _, .held _, .unbound _ _ => ⟨rfl, rfl⟩
  | _, _, _, _, _, _, .held member, .bound absent _ _ => absurd member absent
  | _, _, _, _, _, _, .unbound _ _, .held _ => ⟨rfl, rfl⟩
  | _, _, _, _, _, _, .unbound _ _, .unbound _ _ => ⟨rfl, rfl⟩
  | _, _, _, _, _, _, .unbound _ unbound, .bound _ bound _ => by
      rw [unbound] at bound
      cases bound
  | _, _, _, _, _, _, .bound absent _ _, .held member => absurd member absent
  | _, _, _, _, _, _, .bound _ bound _, .unbound _ unbound => by
      rw [unbound] at bound
      cases bound
  | _, _, _, _, _, _, .bound _ bound rest, .bound _ boundOther others => by
      rw [bound] at boundOther
      cases boundOther
      obtain ⟨same, sameCalls⟩ := rest.unique others
      exact ⟨same, congrArg (· + 1) sameCalls⟩
  | _, _, _, _, _, _, .atom _, .atom _ => ⟨rfl, rfl⟩
  | _, _, _, _, _, _, .ground _, .ground _ => ⟨rfl, rfl⟩
  | _, _, _, _, _, _, .ground ground, .compound notGround _ => by
      rw [ground] at notGround
      cases notGround
  | _, _, _, _, _, _, .compound notGround _, .ground ground => by
      rw [ground] at notGround
      cases notGround
  | _, _, _, _, _, _, .compound _ rest, .compound _ others => by
      obtain ⟨same, sameCalls⟩ := rest.unique others
      exact ⟨congrArg _ same, congrArg (· + 1) sameCalls⟩

theorem ResolvesAll.unique : ∀ {expanding : List Var} {ts us others : List Term}
    {calls count : Nat}, s.ResolvesAll expanding ts us calls →
      s.ResolvesAll expanding ts others count → us = others ∧ calls = count
  | _, _, _, _, _, _, .nil, .nil => ⟨rfl, rfl⟩
  | _, _, _, _, _, _, .cons first rest, .cons firstOther others => by
      obtain ⟨same, sameCalls⟩ := first.unique firstOther
      obtain ⟨sameRest, sameMore⟩ := rest.unique others
      exact ⟨by rw [same, sameRest], by rw [sameCalls, sameMore]⟩

end

/-- If resolving a variable takes few calls, resolving a term takes few for each node. -/
theorem exists_resolves {image : Var → Term} {few : Nat} (positive : 0 < few)
    (vars : ∀ v, ∃ calls ≤ few, s.Resolves expanding (.var v) (image v) calls) (t : Term) :
    ∃ calls ≤ t.size * few, s.Resolves expanding t (t.mapVars image) calls := by
  induction t using Term.rec_args with
  | var v => simpa [Term.size] using vars v
  | atom a => exact ⟨1, Nat.mul_pos (Term.size_pos _) positive, .atom a⟩
  | compound f args ih =>
      have all : ∃ calls ≤ Term.sizes args * few,
          s.ResolvesAll expanding args (args.map (·.mapVars image)) calls := by
        induction args with
        | nil => exact ⟨0, Nat.zero_le _, .nil⟩
        | cons t ts ihArgs =>
            rw [List.forall_mem_cons] at ih
            obtain ⟨calls, within, first⟩ := ih.1
            obtain ⟨more, withinRest, rest⟩ := ihArgs ih.2
            refine ⟨calls + more, ?_, .cons first rest⟩
            rw [Term.sizes, Nat.add_mul]
            exact Nat.add_le_add within withinRest
      cases ground : Term.allGround args with
      | true =>
          have same : (Term.compound f args).mapVars image = .compound f args :=
            Term.mapVars_of_isGround image ground
          refine ⟨1, ?_, same.symm ▸ .ground ground⟩
          exact Nat.mul_pos (Term.size_pos _) positive
      | false =>
          obtain ⟨calls, within, rest⟩ := all
          rw [Term.mapVars_compound]
          refine ⟨calls + 1, ?_, .compound ground rest⟩
          rw [Term.size, Nat.add_mul, Nat.one_mul]
          omega

/-- The bound variables that are not being expanded. -/
def unexpanded (s : Substitution) (expanding : List Var) : Finset Var :=
  s.boundVars.filter (· ∉ expanding)

theorem card_unexpanded_nil (s : Substitution) : (s.unexpanded []).card = s.size := by
  simp [unexpanded, card_boundVars]

theorem card_unexpanded_lt (absent : v ∉ expanding) (bound : s.lookup v = some t) :
    (s.unexpanded (v :: expanding)).card < (s.unexpanded expanding).card := by
  apply Finset.card_lt_card
  rw [Finset.ssubset_iff_of_subset]
  · exact ⟨v, by simp [unexpanded, absent, bound], by simp [unexpanded]⟩
  · intro w member
    simp only [unexpanded, Finset.mem_filter, List.mem_cons, not_or] at member ⊢
    exact ⟨member.1, member.2.2⟩

theorem size_le_nodes (bound : s.lookup v = some t) : t.size ≤ s.nodes := by
  rw [nodes_eq_sizes, Term.sizes_eq_sum]
  apply List.single_le_sum (by simp)
  apply List.mem_map_of_mem
  exact List.mem_map_of_mem (Std.TreeMap.mem_toList_iff_getElem?_eq_some.mpr bound)

/-- Expanding a variable takes finitely many calls: each nested expansion leaves one
variable less to expand. -/
theorem exists_resolves_var {budget : Nat} (enough : (s.unexpanded expanding).card ≤ budget)
    (v : Var) : ∃ calls ≤ (s.nodes + 1) ^ budget,
      s.Resolves expanding (.var v) (s.expand budget expanding v) calls := by
  have positive : ∀ budget, 0 < (s.nodes + 1) ^ budget := fun budget => Nat.pow_pos (by omega)
  induction budget generalizing expanding v with
  | zero =>
      rw [expand_zero]
      by_cases member : v ∈ expanding
      · exact ⟨1, Nat.le_refl _, .held member⟩
      · cases bound : s.lookup v with
        | none => exact ⟨1, Nat.le_refl _, .unbound member bound⟩
        | some t => exact absurd (card_unexpanded_lt member bound) (by omega)
  | succ budget ih =>
      by_cases member : v ∈ expanding
      · rw [expand_of_mem member]
        exact ⟨1, positive _, .held member⟩
      · cases bound : s.lookup v with
        | none =>
            rw [expand_of_unbound bound]
            exact ⟨1, positive _, .unbound member bound⟩
        | some t =>
            rw [expand_of_bound member bound]
            have fewer := card_unexpanded_lt member bound
            have inside : ∀ w, ∃ calls ≤ (s.nodes + 1) ^ budget,
                s.Resolves (v :: expanding) (.var w) (s.expand budget (v :: expanding) w) calls :=
              ih (by omega)
            obtain ⟨calls, within, rest⟩ := exists_resolves (positive budget) inside t
            refine ⟨calls + 1, ?_, .bound member bound rest⟩
            have small := Nat.mul_le_mul_right ((s.nodes + 1) ^ budget) (size_le_nodes bound)
            have one := positive budget
            rw [Nat.pow_succ, Nat.mul_comm, Nat.add_mul, Nat.one_mul]
            omega

/-- Resolving a term takes finitely many calls. -/
theorem exists_resolves_term (s : Substitution) (t : Term) :
    ∃ calls ≤ t.size * (s.nodes + 1) ^ s.size, s.Resolves [] t (s.resolve t) calls :=
  exists_resolves (Nat.pow_pos (Nat.succ_pos _))
    (exists_resolves_var (Nat.le_of_eq (card_unexpanded_nil s))) t

/-! ## Ways that pass no variable twice -/

/-- A binding of a variable that is not being expanded. -/
def BindsOutside (s : Substitution) (expanding : List Var) (v w : Var) : Prop :=
  v ∉ expanding ∧ s.Binds v w

/-- A way that comes through a variable can be taken from the last time it does. -/
theorem exists_last (x : Var) (path : Relation.ReflTransGen (s.BindsOutside expanding) v w) :
    Relation.ReflTransGen (s.BindsOutside (x :: expanding)) v w ∨
      ∃ y, s.Binds x y ∧ Relation.ReflTransGen (s.BindsOutside (x :: expanding)) y w := by
  induction path using Relation.ReflTransGen.head_induction_on with
  | refl => exact .inl .refl
  | @head v y step _ ih =>
      rcases ih with rest | later
      · by_cases same : v = x
        · exact .inr ⟨y, same ▸ step.2, rest⟩
        · have outside : s.BindsOutside (x :: expanding) v y := ⟨by simp [same, step.1], step.2⟩
          exact .inl (rest.head outside)
      · exact .inr later

/-- A way from a variable to another one does not have to come back to the first. -/
theorem exists_binds_of_path (different : v ≠ w)
    (path : Relation.ReflTransGen (s.BindsOutside expanding) v w) :
    v ∉ expanding ∧ ∃ t, s.lookup v = some t ∧ ∃ y, t.mentions y = true ∧
      Relation.ReflTransGen (s.BindsOutside (v :: expanding)) y w := by
  have leaves : v ∉ expanding := by
    rcases Relation.ReflTransGen.cases_head path with same | ⟨_, step, _⟩
    · exact absurd same different
    · exact step.1
  refine ⟨leaves, ?_⟩
  rcases exists_last v path with rest | ⟨y, ⟨t, bound, inside⟩, rest⟩
  · rcases Relation.ReflTransGen.cases_head rest with same | ⟨_, step, _⟩
    · exact absurd same different
    · exact absurd (List.mem_cons_self ..) step.1
  · exact ⟨t, bound, y, inside, rest⟩

/-- An unbound variable at the end of a way through variables that are not being expanded
is left by the expansion. -/
theorem mentions_expand {budget : Nat} (unbound : s.lookup w = none)
    (enough : (s.unexpanded expanding).card ≤ budget)
    (path : Relation.ReflTransGen (s.BindsOutside expanding) v w) :
    (s.expand budget expanding v).mentions w = true := by
  induction budget generalizing expanding v with
  | zero =>
      rw [expand_zero, Term.mentions_var]
      by_contra different
      obtain ⟨absent, t, bound, _⟩ := exists_binds_of_path different path
      have fewer := card_unexpanded_lt absent bound
      omega
  | succ budget ih =>
      by_cases same : v = w
      · rw [same, expand_of_unbound unbound, Term.mentions_var]
      · obtain ⟨absent, t, bound, y, inside, rest⟩ := exists_binds_of_path same path
        have fewer := card_unexpanded_lt absent bound
        rw [expand_of_bound absent bound, Term.mentions_mapVars]
        exact ⟨y, inside, ih (by omega) rest⟩

/-- No unbound variable is missed, even in a cyclic substitution. -/
theorem mem_freeVars (reached : s.Reaches t w) (unbound : s.lookup w = none)
    (named : w ≠ .wildcard) : w ∈ s.freeVars t := by
  obtain ⟨v, inside, path⟩ := reached
  rw [freeVars, Term.mem_vars, resolve, Term.mentions_mapVars]
  refine ⟨⟨v, inside, ?_⟩, named⟩
  apply mentions_expand unbound (Nat.le_of_eq (card_unexpanded_nil s))
  have outside : s.Binds ≤ s.BindsOutside [] := fun x y binds => ⟨List.not_mem_nil, binds⟩
  exact Relation.ReflTransGen.mono outside v w path

/-! ## Acyclic substitutions -/

theorem not_mentions_resolve_of_bound (acyclic : s.Acyclic) (bound : s.lookup w ≠ none) :
    (s.resolve t).mentions w = false := by
  rw [← Bool.not_eq_true, mentions_resolve acyclic]
  exact fun reached => bound reached.2

theorem resolve_resolve (acyclic : s.Acyclic) (t : Term) :
    s.resolve (s.resolve t) = s.resolve t :=
  mapVars_resolve acyclic (resolution_mem acyclic) t

theorem isGround_resolve_iff (acyclic : s.Acyclic) :
    (s.resolve t).isGround = true ↔ ∀ w, s.Reaches t w → s.lookup w ≠ none := by
  rw [Term.isGround_iff]
  constructor
  · intro ground w reached unbound
    have left := (mentions_resolve acyclic).mpr ⟨reached, unbound⟩
    rw [ground w] at left
    cases left
  · intro bound w
    by_cases reached : s.Reaches t w
    · exact not_mentions_resolve_of_bound acyclic (bound w reached)
    · rw [← Bool.not_eq_true, mentions_resolve acyclic]
      exact fun left => reached left.1

/-- Resolving takes finitely many calls and misses no unbound variable, cyclic bindings
included.  Where no variable is reachable from its own binding it leaves unbound variables
only, so that resolving again or walking before changes nothing, and leaves none exactly
where none is reachable. -/
theorem resolve_total_complete (built : s.Built) :
    (∀ t, (∃ calls ≤ t.size * (s.nodes + 1) ^ s.size, s.Resolves [] t (s.resolve t) calls) ∧
      ∀ u calls, s.Resolves [] t u calls → u = s.resolve t) ∧
    (∀ t w, s.Reaches t w → s.lookup w = none → w ≠ .wildcard → w ∈ s.freeVars t) ∧
    (s.Acyclic → ∀ t,
      (∀ w, s.lookup w ≠ none → (s.resolve t).mentions w = false) ∧
      s.resolve (s.resolve t) = s.resolve t ∧
      s.resolve t = s.resolve (s.walk t) ∧
      ((s.resolve t).isGround = true ↔
        ¬ ∃ w, s.Reaches t w ∧ (s.lookup w = none ∨ w = .wildcard))) := by
  refine ⟨fun t => ?_, fun t w => mem_freeVars, fun acyclic t => ⟨?_, ?_, ?_, ?_⟩⟩
  · obtain ⟨calls, within, resolves⟩ := s.exists_resolves_term t
    exact ⟨⟨calls, within, resolves⟩, fun u count others => (others.unique resolves).1⟩
  · exact fun w => not_mentions_resolve_of_bound acyclic
  · exact resolve_resolve acyclic t
  · exact (resolve_walk acyclic t).symm
  · rw [isGround_resolve_iff acyclic]
    constructor
    · rintro bound ⟨w, reached, unbound | rfl⟩
      · exact bound w reached unbound
      · exact bound _ reached built.lookup_wildcard
    · exact fun none w reached unbound => none ⟨w, reached, .inl unbound⟩

/-- A walked term can be bound to every other unbound variable but the wildcard. -/
theorem Built.insert (built : s.Built) (unbound : s.lookup v = none) (named : v ≠ .wildcard)
    (walked : s.Walked t) (different : t ≠ .var v) : (s.insert v t).Built :=
  built.extend unbound (extend_of_walked named walked different)

/-- A variable bound to a compound, whatever stands in it. -/
theorem built_single (f : String) (args : List Term) (named : v ≠ .wildcard) :
    (empty.insert v (.compound f args)).Built :=
  Built.empty.insert (lookup_empty v) named (by simp [Walked]) (by simp)

theorem reaches_single (inside : t.mentions w = true) :
    (empty.insert v t).Reaches (.var v) w :=
  ⟨v, by simp, .single ⟨t, by simp [lookup_insert], inside⟩⟩

theorem eq_of_path_empty (path : Relation.ReflTransGen empty.Binds v w) : v = w := by
  rcases Relation.ReflTransGen.cases_head path with same | ⟨_, ⟨t, bound, _⟩, _⟩
  · exact same
  · simp at bound

/-- A variable bound to a pair of itself and another one still leads to the other; bound to
a tuple of the other alone, it does not resolve to a ground term. -/
theorem resolve_total_complete_pair :
    .numbered 1 ∈ (empty.insert (.numbered 0)
      (.tuple [.var (.numbered 0), .var (.numbered 1)])).freeVars (.var (.numbered 0)) ∧
    ((empty.insert (.numbered 0) (.tuple [.var (.numbered 1)])).resolve
      (.var (.numbered 0))).isGround = false := by
  constructor
  · have cyclic := resolve_total_complete
      (built_single (v := .numbered 0) "" [.var (.numbered 0), .var (.numbered 1)] (by decide))
    exact cyclic.2.1 _ _ (reaches_single (by simp)) (by simp [lookup_insert]) (by decide)
  · have acyclic : (empty.insert (.numbered 0) (.tuple [.var (.numbered 1)])).Acyclic := by
      apply acyclic_insert acyclic_empty
      rintro ⟨w, inside, path⟩
      rw [eq_of_path_empty path] at inside
      simp at inside
    have ground := ((resolve_total_complete (built_single (v := .numbered 0) ""
      [.var (.numbered 1)] (by decide))).2.2 acyclic (.var (.numbered 0))).2.2.2
    rw [← Bool.not_eq_true, ground, not_not]
    exact ⟨.numbered 1, reaches_single (by simp), .inl (by simp [lookup_insert])⟩

end RelationalSolver.Substitution
