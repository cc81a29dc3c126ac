import RelationalSolver.Proofs.Context.Detached
import RelationalSolver.Proofs.Substitution.Chains

/-!
# Terms that are ground under the bindings

Unification binds variables that some term walks to.  No such variable is part of what a
ground term was resolved from, so a term that resolves to a ground term goes on to do so,
and it unifies with a ground term only if it resolves to that very term.  Substitutions
may be cyclic here.
-/

namespace RelationalSolver

namespace Substitution

variable {s next last : Substitution} {v : Var} {t u : Term}

/-- What resolves to a ground term goes on to resolve to it. -/
def KeepsGround (s next : Substitution) : Prop :=
  ∀ t, (s.resolve t).isGround = true → next.resolve t = s.resolve t

theorem KeepsGround.trans (earlier : s.KeepsGround next) (later : next.KeepsGround last) :
    s.KeepsGround last := by
  intro t ground
  have same := earlier t ground
  rw [later t (same ▸ ground), same]

theorem size_le_size_insert : s.size ≤ (s.insert v u).size :=
  Std.TreeMap.size_le_size_insert

/-- A variable that something walks to may be bound. -/
theorem keepsGround_insert (walks : s.walk t = .var v) (u : Term) :
    s.KeepsGround (s.insert v u) := by
  have keeps : ∀ w r, s.lookup w = some r →
      (∃ budget expanding, (s.expand budget expanding w).isGround = true) →
      (s.insert v u).lookup w = some r := by
    rintro w r bound ⟨budget, expanding, ground⟩
    rw [lookup_insert, if_neg, bound]
    rintro rfl
    rw [isGround_expand_of_walk_eq_var walks] at ground
    cases ground
  intro r ground
  apply Term.mapVars_congr
  intro w mentioned
  exact expand_eq_of_isGround keeps (Term.isGround_mapVars.mp ground w mentioned)
    size_le_size_insert (List.Subset.refl [])

theorem resolve_of_bound_of_isGround (bound : s.lookup v = some t)
    (ground : (s.resolve (.var v)).isGround = true) : s.resolve t = s.resolve (.var v) := by
  rw [resolve, Term.mapVars_var] at ground
  rw [resolve, resolve, Term.mapVars_var]
  cases size : s.size with
  | zero =>
      rw [size, expand_zero] at ground
      cases ground
  | succ budget =>
      rw [size, expand_of_bound (by simp) bound] at ground
      rw [expand_of_bound (by simp) bound]
      apply Term.mapVars_congr
      intro w mentioned
      exact expand_eq_of_isGround (fun _ _ bound _ => bound)
        (Term.isGround_mapVars.mp ground w mentioned) (Nat.le_succ budget) (List.nil_subset _)

/-- Walking does not change what resolves to a ground term. -/
theorem resolve_walk_of_isGround (ground : (s.resolve t).isGround = true) :
    s.resolve (s.walk t) = s.resolve t := by
  have steps : ∀ (steps : Nat) (t : Term), (s.resolve t).isGround = true →
      s.resolve (s.walkWithin steps t) = s.resolve t := by
    intro steps
    induction steps with
    | zero =>
        intro t _
        cases t <;> rfl
    | succ steps ih =>
        intro t ground
        cases t with
        | atom a => simp
        | compound f args => simp
        | var v =>
            rw [walkWithin]
            cases bound : s.lookup v with
            | none => rfl
            | some r =>
                have same := resolve_of_bound_of_isGround bound ground
                exact (ih r (same ▸ ground)).trans same
  exact steps s.size t ground

/-- What resolves to a ground term does not walk to a variable. -/
theorem walk_ne_var_of_isGround (ground : (s.resolve t).isGround = true) :
    s.walk t ≠ .var v := by
  intro walks
  rw [← resolve_walk_of_isGround ground, walks, resolve, Term.mapVars_var,
    isGround_expand_of_walk_eq_var walks] at ground
  cases ground

end Substitution

namespace Context

open Engine

variable {ctx next last : Context} {result : Option Context} {row args : List Term}
variable {unify : Context → Term → Term → Engine (Option Context)}

/-- No bind hook is registered in the context. -/
def BindsFreely (ctx : Context) : Prop :=
  ∀ registry, ctx.hooks? = some registry → registry.bindHooks = []

/-- If no bind hook is registered, the hooks are the same, and what resolves to a ground
term goes on to resolve to it. -/
def KeepsGround (ctx next : Context) : Prop :=
  ctx.BindsFreely →
    next.hooks? = ctx.hooks? ∧ ctx.substitution.KeepsGround next.substitution

theorem KeepsGround.bindsFreely (keeps : ctx.KeepsGround next) (free : ctx.BindsFreely) :
    next.BindsFreely := by
  intro registry found
  rw [(keeps free).1] at found
  exact free registry found

instance : Std.Refl KeepsGround := ⟨fun _ _ => ⟨rfl, fun _ _ => rfl⟩⟩

instance : IsTrans Context KeepsGround where
  trans _ _ _ earlier later free := by
    have first := earlier free
    have second := later (earlier.bindsFreely free)
    exact ⟨second.1.trans first.1, first.2.trans second.2⟩

/-- What a binding writes if no bind hook is registered. -/
theorem bindBy_bound (free : ctx.BindsFreely) (v : Var) (t : Term) :
    Detached (bindBy unify ctx v t) (Leaves (Bound v t) ctx) := by
  apply bindBy_of_bound leaves_none
  intro next bound
  split
  · exact .pure (leaves_some bound)
  · rename_i registry found
    have sameHooks : next.hooks? = ctx.hooks? := bound.aside .hooks trivial
    rw [sameHooks] at found
    rw [free registry found]
    exact .pure (leaves_some bound)

theorem bindBy_writes (free : ctx.BindsFreely) (v : Var) (t : Term) :
    Detached (bindBy unify ctx v t) fun result => ∀ next, result = some next →
      next.hooks? = ctx.hooks? ∧ next.substitution = ctx.substitution.insert v t := by
  apply (bindBy_bound free v t).mono
  intro result leaves next found
  have bound := leaves next found
  exact ⟨bound.aside .hooks trivial, bound.inserted⟩

theorem bindBy_keepsGround (unifies : Unifies SameFixed unify) {v : Var} {u : Term}
    (walks : ctx.walk u = .var v) (t : Term) :
    Detached (bindBy unify ctx v t) (Leaves KeepsGround ctx) := by
  by_cases free : ctx.BindsFreely
  · apply (bindBy_writes free v t).mono
    intro result writes next found _
    obtain ⟨sameHooks, holds⟩ := writes next found
    exact ⟨sameHooks, holds ▸ Substitution.keepsGround_insert walks t⟩
  · exact (bindBy_keeps unifies v t).mono fun _ _ _ _ given => absurd given free

theorem unifyWithin_keepsGround (depth : Nat) : Unifies KeepsGround (unifyWithin depth) := by
  induction depth with
  | zero => exact fun ctx a b => .throw _
  | succ depth ih =>
      apply unifyRound_leaves ih
      rintro ctx v t ⟨u, walks⟩
      exact bindBy_keepsGround (condenseThen_keeps (unifyWithin_keeps depth)) walks t

/-- Each term that resolves to a ground term resolves to its partner. -/
abbrev MatchesGround (ctx : Context) (args row : List Term) : Prop :=
  List.Forall₂ (fun arg value => (ctx.resolve arg).isGround = true → ctx.resolve arg = value)
    args row

theorem MatchesGround.map_eq (agree : ctx.MatchesGround args row)
    (ground : ∀ t ∈ args.map ctx.resolve, t.isGround = true) : args.map ctx.resolve = row := by
  induction agree with
  | nil => rfl
  | cons here _ ih =>
      rw [List.map_cons, List.forall_mem_cons] at ground
      rw [List.map_cons, here ground.1, ih ground.2]

theorem matchesGround_of_unifyPairs {depth : Nat}
    (equal : ∀ (ctx next : Context) (a b : Term), ctx.BindsFreely →
      (ctx.resolve a).isGround = true → b.isGround = true →
      Returns (unifyWithin depth ctx a b) (some next) → ctx.resolve a = b) :
    ∀ {args row : List Term} {ctx next : Context}, ctx.BindsFreely → args.length = row.length →
      (∀ value ∈ row, value.isGround = true) →
      Returns (Bindings.unifyPairs (unifyWithin depth) ctx args row) (some next) →
      ctx.MatchesGround args row
  | [], [], _, _, _, _, _, _ => .nil
  | arg :: args, value :: row, ctx, last, free, lengths, ground, ⟨before, after, ran⟩ => by
      rw [List.forall_mem_cons] at ground
      rw [Bindings.unifyPairs] at ran
      obtain ⟨result, between, first, rest⟩ := runs_bind.mp ran
      cases result with
      | none => cases (runs_pure.mp rest).1
      | some next =>
          have keeps := (unifyWithin_keepsGround depth ctx arg value).of_returns first.returns
            next rfl
          have later := matchesGround_of_unifyPairs equal (keeps.bindsFreely free)
            (by simpa using lengths) ground.2 rest.returns
          refine .cons (fun isGround => equal ctx next arg value free isGround ground.1
            first.returns) (later.imp ?_)
          intro arg value same isGround
          have kept : next.resolve arg = ctx.resolve arg := (keeps free).2 arg isGround
          rw [← kept] at isGround ⊢
          exact same isGround

/-- A term that resolves to a ground term unifies with a ground term only if it resolves
to that term. -/
theorem resolve_eq_of_unifyWithin {depth : Nat} : ∀ (ctx next : Context) (a b : Term),
    ctx.BindsFreely → (ctx.resolve a).isGround = true → b.isGround = true →
    Returns (unifyWithin depth ctx a b) (some next) → ctx.resolve a = b := by
  induction depth with
  | zero =>
      rintro ctx next a b _ _ _ ⟨before, after, ran⟩
      exact absurd ran not_runs_throw
  | succ depth ih =>
      rintro ctx next a b free ground groundRight ⟨before, after, ran⟩
      have walks : ∀ t, (store (condenseThen (unifyWithin depth))).walk ctx t = ctx.walk t :=
        fun _ => rfl
      have walked : ctx.resolve (ctx.walk a) = ctx.resolve a :=
        Substitution.resolve_walk_of_isGround ground
      have notVar : ∀ v, ctx.walk a ≠ .var v := fun _ =>
        Substitution.walk_ne_var_of_isGround ground
      have right : ctx.walk b = b := by
        cases b with
        | var v => cases groundRight
        | atom x => exact Substitution.walk_atom _ x
        | compound g bs => exact Substitution.walk_compound _ g bs
      have round : unifyWithin (depth + 1) ctx a b =
          (store (condenseThen (unifyWithin depth))).unifyRound (unifyWithin depth) ctx a b := rfl
      rw [round, Bindings.unifyRound] at ran
      simp only [walks, right] at ran
      rw [← walked] at ground ⊢
      generalize ctx.walk a = left at *
      split at ran
      · rename_i same
        rw [same]
        exact Term.mapVars_of_isGround _ groundRight
      · split at ran
        · exact (notVar _ rfl).elim
        · cases groundRight
        · exact (notVar _ rfl).elim
        · cases groundRight
        · rename_i f as g bs _
          split at ran
          · rename_i shape
            have below := matchesGround_of_unifyPairs ih free shape.1
              (Term.allGround_eq_true.mp groundRight) ran.returns
            have resolved : ctx.resolve (.compound f as) = .compound f (as.map ctx.resolve) :=
              Substitution.resolve_compound _ f as
            rw [resolved] at ground ⊢
            rw [shape.2, below.map_eq (Term.allGround_eq_true.mp ground)]
          · cases (runs_pure.mp ran).1
        · cases (runs_pure.mp ran).1

/-- The arguments that are ground under the bindings stand in the row that they unify
with. -/
theorem matchesGround_of_unifyAll (free : ctx.BindsFreely)
    (ground : ∀ value ∈ row, value.isGround = true)
    (returned : Returns (ctx.unifyAll args row) (some next)) : ctx.MatchesGround args row := by
  rw [unifyAll, unifyOver_eq, Bindings.unifyLists] at returned
  split at returned
  · rename_i lengths
    exact matchesGround_of_unifyPairs resolve_eq_of_unifyWithin free lengths ground returned
  · obtain ⟨before, after, ran⟩ := returned
    cases (runs_pure.mp ran).1

end Context

end RelationalSolver
