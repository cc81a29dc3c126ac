import RelationalSolver.Proofs.Context.Coupling
import RelationalSolver.Proofs.Context.Unification

/-!
# Unification with and without condensing

Condensing a chain that a walk has passed leads to a context that matches the one before and
is told to nobody but the observers of condensed chains.  So unification ends alike in
contexts that match, whichever walk hooks each of them carries.
-/

namespace RelationalSolver

open Engine Substitution

theorem Substitution.StaysIn.condense {s : Substitution} {nodes : Finset Term} {value : Term}
    (stays : s.StaysIn nodes) (member : value ∈ nodes) (chain : List Var) :
    (s.condense chain value).StaysIn nodes := by
  unfold Substitution.condense
  induction chain generalizing s with
  | nil => exact stays
  | cons v chain ih =>
      rw [List.foldl_cons]
      split_ifs
      · exact ih stays
      · exact ih (stays.insert member)

namespace Context

variable {ctx other next : Context} {nodes nodesOther : Finset Term} {a b t value : Term}
variable {v : Var} {chain : List Var}

/-! ## Walks -/

/-- The context after condensing matches, and its bindings stay within the nodes. -/
def CondensedWithin (nodes : Finset Term) (ctx next : Context) : Prop :=
  ctx.Matches next ∧ next.substitution.StaysIn nodes

theorem Observed.condense (observed : ctx.Observed) (stays : ctx.substitution.StaysIn nodes)
    (member : value ∈ nodes)
    (passed : ∀ v ∈ chain, ctx.substitution.lookup v ≠ none ∧ ctx.walk (.var v) = value) :
    Silent (ctx.condense value chain) (CondensedWithin nodes ctx) := by
  obtain ⟨alike, acyclic⟩ := condense_matches observed.acyclic passed
  have condensed :
      ctx.Matches (ctx.put .substitutions (ctx.substitution.condense chain value)) := by
    refine (Matches.refl observed).put_right (.inl rfl) ?_ ?_
    · rw [substitution_put]
      exact ⟨observed.acyclic, acyclic, alike⟩
    · exact fun _ _ => counter_put (by decide)
  have clear := condensed.observedOther.clear
  rw [Context.condense, observed.clear.set_eq rfl, pure_bind, clear.bump_eq, pure_bind, fire_eq]
  apply (Silent.fire _ _ _).bind
  intro _ _
  apply Silent.pure
  refine ⟨condensed.put_right (.inr rfl) ?_ ?_, ?_⟩
  · rw [substitution_put_counters]
    exact condensed.twins
  · intro name different
    rw [counter, get_put_self, Std.TreeMap.getElem?_insert]
    split
    · rename_i same
      exact absurd (Std.LawfulEqCmp.eq_of_compare same).symm different
    · exact condensed.counter name different
  · simpa using stays.condense member chain

theorem Observed.runWalkHooks (observed : ctx.Observed) (stays : ctx.substitution.StaysIn nodes)
    (member : value ∈ nodes)
    (passed : ∀ v ∈ chain, ctx.substitution.lookup v ≠ none ∧ ctx.walk (.var v) = value)
    (hooks : List WalkHook) :
    Silent (ctx.runWalkHooks value chain hooks) (CondensedWithin nodes ctx) := by
  induction hooks generalizing ctx with
  | nil => exact .pure ⟨.refl observed, stays⟩
  | cons hook hooks ih =>
      have later : ∀ next, CondensedWithin nodes ctx next →
          Silent (next.runWalkHooks value chain hooks) (CondensedWithin nodes ctx) := by
        rintro next ⟨matched, staysNext⟩
        apply (ih matched.observedOther staysNext ?_).mono
        · exact fun last ends => ⟨matched.trans ends.1, ends.2⟩
        · intro v inside
          rw [ne_eq, matched.alike.lookup_eq_none_iff, matched.walk]
          exact passed v inside
      rw [Context.runWalkHooks]
      split
      · exact (observed.condense stays member passed).bind later
      · exact (Silent.pure ⟨.refl observed, stays⟩).bind later

/-- Walking a term gives what it walks to, whatever is condensed on the way. -/
theorem Observed.walkCondensed (observed : ctx.Observed) (stays : ctx.substitution.StaysIn nodes)
    (member : t ∈ nodes) :
    Silent (ctx.walkCondensed t) fun result =>
      CondensedWithin nodes ctx result.1 ∧ result.2 = ctx.walk t := by
  have unchanged : CondensedWithin nodes ctx ctx := ⟨.refl observed, stays⟩
  unfold Context.walkCondensed
  split
  · exact .pure ⟨unchanged, rfl⟩
  · rename_i registry _
    have value := ctx.substitution.walkChain_fst t
    have passed := fun v => mem_walkChainWithin (v := v)
      (observed.acyclic.walksEnd t : ctx.substitution.Walked (ctx.substitution.walk t))
    dsimp only
    split
    · exact .pure ⟨unchanged, value⟩
    · rw [value]
      apply (observed.runWalkHooks stays (walk_mem_nodes stays member) passed _).bind
      exact fun next condensed => .pure ⟨condensed, rfl⟩

/-! ## Bindings -/

variable {deeper deeperOther : Context → Term → Term → Engine (Option Context)}

theorem BindsFreely.bindHooks_eq (free : ctx.BindsFreely) :
    (match ctx.hooks? with
      | none => pure (some ctx)
      | some registry => runBindHooks deeper v t ctx registry.bindHooks) = pure (some ctx) := by
  split
  · rfl
  · rename_i registry found
    rw [free registry found]
    rfl

/-- A binding is counted, reported and propagated alike. -/
theorem Matches.bindBy (alike : ctx.Matches other) (unbound : ctx.substitution.lookup v = none)
    (named : v ≠ .wildcard) (different : t ≠ .var v) (walked : ctx.substitution.Walked t)
    (apart : (ctx.resolve t).mentions v = false) :
    Agrees (Option.Rel Matches) (bindBy deeper ctx v t) (bindBy deeperOther other v t) := by
  have inserted := alike.put_substitutions (alike.twins.insert unbound walked different apart)
  unfold Context.bindBy
  rw [extend_of_walked named walked different,
    extend_of_walked named (alike.alike.walked walked) different]
  dsimp only
  rw [alike.observed.clear.trySet_eq rfl, alike.observedOther.clear.trySet_eq rfl]
  change Agrees _ (pure _ >>= _) (pure _ >>= _)
  rw [pure_bind, pure_bind]
  apply (inserted.bump (by decide)).bind
  intro counted countedOther matched
  apply (matched.fire _ _).bind
  intro _ _ _
  apply (matched.propagate v t).bind
  intro result resultOther holds
  cases holds with
  | none => exact .pure .none
  | some settled =>
      exact (congrArg₂ (Agrees (Option.Rel Matches)) settled.observed.free.bindHooks_eq
        settled.observedOther.free.bindHooks_eq).mpr (.pure (.some settled))

theorem Observed.forbids_eq (observed : ctx.Observed) :
    (store deeper).forbids ctx v t = pure ((ctx.resolve t).mentions v) := by
  simp only [store, observed.checked]
  rw [occurs_eq_mentions observed.acyclic]
  rfl

theorem paired_store : agreeing.Paired substitution Matches (store deeper) (store deeperOther) where
  twins := Matches.twins
  walk _ _ := rfl
  walkOther _ _ := rfl
  forbids {ctx other} alike v t := by
    rw [alike.observed.forbids_eq, alike.observedOther.forbids_eq, alike.resolve]
    exact .pure ⟨rfl, rfl⟩
  bind {ctx other} alike v t unbound named different walked apart := by
    apply (alike.bindBy unbound named different walked apart).returned.mono
    rintro result resultOther ⟨holds, returned, returnedOther⟩
    have writes := (bindBy_writes alike.observed.free v t).of_returns returned
    have writesOther := (bindBy_writes alike.observedOther.free v t).of_returns returnedOther
    cases holds with
    | none => exact .none
    | some matched => exact .some ⟨matched, (writes _ rfl).2, (writesOther _ rfl).2⟩

/-! ## Unification -/

/-- The rounds that a context allows are more than there are nodes in its sight. -/
theorem card_sight_lt_rounds (ctx : Context) (terms : List Term) :
    (ctx.substitution.sight terms).card <
      rounds (ctx.nodes + Term.sizes terms) + shallow := by
  have small := ctx.substitution.card_sight_le terms
  have enough := lt_rounds (ctx.nodes + Term.sizes terms)
  have counted : ctx.substitution.nodes ≤ ctx.nodes := Nat.le_add_right _ _
  omega

/-- Deep enough unification ends alike, and goes on within the nodes. -/
theorem Matches.unifyWithin (alike : ctx.Matches other) (closed : Term.ClosedUnderArgs nodes)
    (closedOther : Term.ClosedUnderArgs nodesOther) (stays : ctx.substitution.StaysIn nodes)
    (staysOther : other.substitution.StaysIn nodesOther) (left : a ∈ nodes) (right : b ∈ nodes)
    (leftOther : a ∈ nodesOther) (rightOther : b ∈ nodesOther) {depth depthOther : Nat}
    (enough : nodes.card < depth) (enoughOther : nodesOther.card < depthOther) :
    Agrees (Option.Rel (Coupling.Onward substitution Matches nodes nodesOther ctx other))
      (unifyWithin depth ctx a b) (unifyWithin depthOther other a b) :=
  Coupling.Paired.unify_of_depth (fun _ _ => paired_store) unifyWithin_succ unifyWithin_succ
    closed closedOther alike stays staysOther left right leftOther rightOther (by omega) (by omega)

/-- Unification ends alike in contexts that match. -/
theorem Matches.unify (alike : ctx.Matches other) (a b : Term) :
    Agrees (Option.Rel Matches) (ctx.unify a b) (other.unify a b) := by
  have enough := ctx.card_sight_lt_rounds [a, b]
  have enoughOther := other.card_sight_lt_rounds [a, b]
  have stays := ctx.substitution.staysIn_sight [a, b]
  have staysOther := other.substitution.staysIn_sight [a, b]
  have left : ∀ s : Substitution, a ∈ s.sight [a, b] := fun s => mem_sight (by simp)
  have right : ∀ s : Substitution, b ∈ s.sight [a, b] := fun s => mem_sight (by simp)
  simp only [Term.sizes, Nat.add_zero] at enough enoughOther
  rw [Context.unify, Context.unify, unifyOver_eq, unifyOver_eq, condenseThen, condenseThen]
  -- Each side condenses on its own, and what it comes to matches what it was.
  apply ((alike.observed.walkCondensed stays (left _)).agrees
    (alike.observedOther.walkCondensed staysOther (left _))).bind
  rintro ⟨next, _⟩ ⟨nextOther, _⟩ ⟨⟨⟨matched, staysNext⟩, rfl⟩, ⟨matchedOther, staysNextOther⟩, rfl⟩
  have alikeNext := (matched.symm.trans alike).trans matchedOther
  apply ((alikeNext.observed.walkCondensed staysNext (right _)).agrees
    (alikeNext.observedOther.walkCondensed staysNextOther (right _))).bind
  rintro ⟨last, _⟩ ⟨lastOther, _⟩ ⟨⟨⟨later, staysLast⟩, rfl⟩, ⟨laterOther, staysLastOther⟩, rfl⟩
  have alikeLast := (later.symm.trans alikeNext).trans laterOther
  dsimp only
  rw [alike.walk, alikeNext.walk]
  have walkLeft := walk_mem_nodes stays (left _)
  have walkRight := walk_mem_nodes staysNext (right _)
  have walkLeftOther := walk_mem_nodes staysOther (left _)
  have walkRightOther := walk_mem_nodes staysNextOther (right _)
  rw [alike.alike.walk] at walkLeftOther
  rw [alikeNext.alike.walk] at walkRightOther
  exact agreeing.mono_rel (alikeLast.unifyWithin (closedUnderArgs_sight _ _)
    (closedUnderArgs_sight _ _) staysLast staysLastOther walkLeft walkRight walkLeftOther
    walkRightOther enough enoughOther) fun _ _ onward => onward.1

/-- Unification of lists ends alike in contexts that match. -/
theorem Matches.unifyAll (alike : ctx.Matches other) (as bs : List Term) :
    Agrees (Option.Rel Matches) (ctx.unifyAll as bs) (other.unifyAll as bs) := by
  have enough := ctx.card_sight_lt_rounds (as ++ bs)
  have enoughOther := other.card_sight_lt_rounds (as ++ bs)
  rw [Term.sizes_append] at enough enoughOther
  rw [Context.unifyAll, Context.unifyAll, unifyOver_eq, unifyOver_eq]
  apply agreeing.mono_rel
    (agreeing.unifyLists (R := Coupling.Onward substitution Matches _ _ ctx other)
      ⟨alike, .refl (staysIn_sight _ (as ++ bs)) (staysIn_sight _ (as ++ bs))⟩ ?_)
  · exact fun _ _ onward => onward.1
  · rintro later laterOther ⟨matched, grown⟩ a inLeft b inRight
    apply agreeing.mono_rel (matched.unifyWithin (closedUnderArgs_sight _ _)
      (closedUnderArgs_sight _ _) grown.stays grown.staysOther
      (mem_sight (List.mem_append_left bs inLeft)) (mem_sight (List.mem_append_right as inRight))
      (mem_sight (List.mem_append_left bs inLeft)) (mem_sight (List.mem_append_right as inRight))
      enough enoughOther)
    exact fun _ _ onward => ⟨onward.1, onward.2.trans grown⟩

end Context

end RelationalSolver
