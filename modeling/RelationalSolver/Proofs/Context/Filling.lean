import RelationalSolver.Proofs.Context.Ground
import RelationalSolver.Proofs.Context.Restriction

/-!
# Rows fill in unbound variables

Arguments that are ground, or unbound variables of their own, unify with every row of values
that stands in their ground places.  The unbound variables among them are bound to values, and
nothing else that is ground or unbound changes.
-/

namespace RelationalSolver

namespace Substitution

variable {s next last : Substitution} {t u : Term} {v w : Var} {vs ws : List Var}
variable {args : List Term}

/-- The unbound variable that a term walks to, if it does. -/
def openVar? (s : Substitution) (t : Term) : Option Var :=
  match s.walk t with
  | .var v => some v
  | _ => none

/-- The unbound variables that the terms walk to. -/
def openVars (s : Substitution) (args : List Term) : List Var := args.filterMap s.openVar?

@[simp] theorem openVar?_eq_some : s.openVar? t = some v ↔ s.walk t = .var v := by
  rw [openVar?]
  split
  · rename_i w walks
    rw [walks, Option.some.injEq, Term.var.injEq]
  · rename_i notVar
    exact ⟨nofun, fun walks => absurd walks (notVar v)⟩

theorem openVar?_of_isGround (ground : (s.resolve t).isGround = true) : s.openVar? t = none := by
  rw [Option.eq_none_iff_forall_ne_some]
  intro v same
  exact walk_ne_var_of_isGround ground (openVar?_eq_some.mp same)

theorem not_isGround_of_openVar? (walks : s.openVar? t = some v) :
    ¬ (s.resolve t).isGround = true := by
  intro ground
  rw [openVar?_of_isGround ground] at walks
  cases walks

/-- The term is ground under the bindings or an unbound variable. -/
def Direct (s : Substitution) (t : Term) : Prop :=
  (s.resolve t).isGround = true ∨ (s.openVar? t).isSome = true

/-- Nothing that is ground or unbound changes, except for some of the unbound variables. -/
structure Frames (vs : List Var) (s next : Substitution) : Prop where
  keeps : s.KeepsGround next
  leaves : ∀ t v, s.openVar? t = some v → v ∉ vs → next.openVar? t = some v

namespace Frames

theorem refl (s : Substitution) : s.Frames [] s := ⟨fun _ _ => rfl, fun _ _ same _ => same⟩

theorem trans (earlier : s.Frames vs next) (later : next.Frames ws last) :
    s.Frames (vs ++ ws) last := by
  refine ⟨earlier.keeps.trans later.keeps, fun t v same outside => ?_⟩
  rw [List.mem_append, not_or] at outside
  exact later.leaves t v (earlier.leaves t v same outside.1) outside.2

/-- Binding an unbound variable to a value changes nothing about others. -/
theorem insert (acyclic : s.Acyclic) (unbound : s.lookup v = none) (ground : u.isGround = true) :
    s.Frames [v] (s.insert v u) := by
  have apart : ¬ s.Reaches u v := by
    rintro ⟨w, inside, _⟩
    rw [Term.isGround_iff.mp ground w] at inside
    cases inside
  have walks : s.walk (.var v) = .var v := by
    apply walk_of_walked
    rintro _ ⟨⟩
    exact unbound
  refine ⟨keepsGround_insert walks u, fun t w same outside => ?_⟩
  rw [openVar?_eq_some] at same ⊢
  have different : v ≠ w := fun equal => outside (equal ▸ List.mem_singleton_self v)
  have free : s.lookup w = none := walked_walk acyclic t w same
  rw [← walk_walk_of_extends (acyclic_insert acyclic apart) (extends_insert u unbound) t, same]
  apply walk_of_walked
  rintro _ ⟨⟩
  rw [lookup_insert, if_neg different, free]

/-- What a direct term is does not change if it is none of the variables. -/
theorem direct (frames : s.Frames vs next) (direct : s.Direct t)
    (apart : ∀ v, s.openVar? t = some v → v ∉ vs) :
    next.Direct t ∧ next.openVar? t = s.openVar? t ∧
      (next.resolve t).isGround = (s.resolve t).isGround := by
  rcases direct with ground | walks
  · have same := frames.keeps t ground
    have groundNext : (next.resolve t).isGround = true := same ▸ ground
    refine ⟨.inl groundNext, ?_, groundNext.trans ground.symm⟩
    rw [openVar?_of_isGround groundNext, openVar?_of_isGround ground]
  · obtain ⟨v, here⟩ := Option.isSome_iff_exists.mp walks
    have there := frames.leaves t v here (apart v here)
    refine ⟨.inr (there ▸ rfl), there.trans here.symm, ?_⟩
    rw [Bool.eq_false_iff.mpr (not_isGround_of_openVar? there),
      Bool.eq_false_iff.mpr (not_isGround_of_openVar? here)]

theorem openVars_eq (frames : s.Frames vs next) (direct : ∀ t ∈ args, s.Direct t)
    (apart : (s.openVars args).Disjoint vs) : next.openVars args = s.openVars args := by
  apply List.filterMap_congr
  intro t member
  refine (frames.direct (direct t member) fun v same => apart ?_).2.1
  exact List.mem_filterMap.mpr ⟨t, member, same⟩

end Frames

end Substitution

namespace Context

open Engine Substitution

variable {ctx next last : Context} {v : Var} {a value : Term} {args row : List Term}
variable {unify : Context → Term → Term → Engine (Option Context)}

/-- No stored constraint waits for the variable. -/
def Unwatched (ctx : Context) (v : Var) : Prop := (ctx.get .constraints).idsFor v = []

theorem Bare.unbound_of_openVar? (bare : ctx.Bare) (free : a.WildcardFree)
    (walks : ctx.substitution.openVar? a = some v) :
    ctx.substitution.lookup v = none ∧ v ≠ .wildcard := by
  rw [openVar?_eq_some] at walks
  refine ⟨walked_walk bare.acyclic a v walks, ?_⟩
  rintro rfl
  have freeWalked := bare.walk_wildcardFree free
  rw [Context.walk, walks] at freeWalked
  cases freeWalked

/-- An unbound variable that nothing waits for is bound, and no constraint is touched. -/
theorem Bare.bindBy_unwatched (bare : ctx.Bare) (unwatched : ctx.Unwatched v)
    (named : v ≠ .wildcard) (walked : ctx.substitution.Walked a) (different : a ≠ .var v) :
    Detached (Context.bindBy unify ctx v a) fun result => ∃ next, result = some next ∧
      next.substitution = ctx.substitution.insert v a ∧
        next.get .constraints = ctx.get .constraints := by
  let kept : FacetKey → Prop := fun key => key = .hooks ∨ key = .substitutions ∨ key = .constraints
  have uncounted : ¬ kept .counters := by simp [kept]
  rw [Context.bindBy, extend_of_walked named walked different]
  have stored : ∀ next, ctx.trySet .substitutions (ctx.substitution.insert v a) = .ok next →
      next.get? .hooks = ctx.get? .hooks ∧
        next.get? .substitutions = some (ctx.substitution.insert v a) ∧
        next.get? .constraints = ctx.get? .constraints := fun next success =>
    ⟨get?_of_trySet_of_ne success (by simp), get?_of_trySet success,
      get?_of_trySet_of_ne success (by simp)⟩
  apply (Detached.ofCollision stored).bind
  rintro bound ⟨hooks, inserted, constraints⟩
  apply (bump_keeps uncounted _).bind
  intro counted same
  have sameHooks : counted.hooks? = none :=
    ((same .hooks (.inl rfl)).trans hooks).trans bare.unhooked
  have sameConstraints : counted.get .constraints = ctx.get .constraints :=
    congrArg (Option.getD · _) ((same .constraints (.inr (.inr rfl))).trans constraints)
  have holds : counted.substitution = ctx.substitution.insert v a :=
    congrArg (Option.getD · _) ((same .substitutions (.inr (.inl rfl))).trans inserted)
  apply (fire_detached _ _).bind
  intro _ _
  have quiet : counted.propagate v a = pure (some counted) := by
    have none : (counted.get .constraints).idsFor v = [] := sameConstraints ▸ unwatched
    simp only [propagate, none]
  rw [quiet, pure_bind]
  simp only [sameHooks]
  exact .pure ⟨counted, rfl, holds, sameConstraints⟩

/-- Terms that resolve to values unify with them, and nothing changes. -/
theorem unifyPairs_values {depth : Nat}
    (equal : ∀ a, (ctx.resolve a).isGround = true →
      Detached (unifyWithin depth ctx a (ctx.resolve a)) (· = some ctx)) :
    ∀ args : List Term, (∀ a ∈ args, (ctx.resolve a).isGround = true) →
      Detached (Bindings.unifyPairs (unifyWithin depth) ctx args (args.map ctx.resolve))
        (· = some ctx)
  | [], _ => .pure rfl
  | a :: args, ground => by
      rw [List.forall_mem_cons] at ground
      rw [List.map_cons, Bindings.unifyPairs]
      apply (equal a ground.1).bind
      rintro _ rfl
      exact unifyPairs_values equal args ground.2

theorem unifyWithin_value (depth : Nat) : ∀ a, (ctx.resolve a).isGround = true →
    Detached (unifyWithin depth ctx a (ctx.resolve a)) (· = some ctx) := by
  induction depth with
  | zero => exact fun _ _ => .throw _
  | succ depth ih =>
      intro a ground
      have walks : ∀ t, (store (condenseThen (unifyWithin depth))).walk ctx t = ctx.walk t :=
        fun _ => rfl
      have resolved : ctx.resolve (ctx.walk a) = ctx.resolve a := resolve_walk_of_isGround ground
      change Detached ((store (condenseThen (unifyWithin depth))).unifyRound (unifyWithin depth) ctx
        a (ctx.resolve a)) _
      have value : ctx.walk (ctx.resolve a) = ctx.resolve a := by
        apply walk_of_walked
        intro v same
        rw [same] at ground
        cases ground
      rw [Bindings.unifyRound]
      simp only [walks, value]
      have notVar : ∀ v, ctx.walk a ≠ .var v := fun _ => walk_ne_var_of_isGround ground
      rw [← resolved] at ground ⊢
      generalize ctx.walk a = a at *
      split
      · exact .pure rfl
      · rename_i different
        cases a with
        | var v => exact absurd rfl (notVar v)
        | atom x => exact absurd rfl different
        | compound f args =>
            have arguments : ctx.resolve (.compound f args) = .compound f (args.map ctx.resolve) :=
              Substitution.resolve_compound _ f args
            rw [arguments] at ground ⊢
            have below := unifyPairs_values ih args fun a member =>
              Term.allGround_eq_true.mp ground _ (List.mem_map_of_mem member)
            simpa using below

/-- An unbound variable that nothing waits for is bound to the value it unifies with. -/
theorem Bare.unifyWithin_open (bare : ctx.Bare) (depth : Nat) (free : a.WildcardFree)
    (walks : ctx.substitution.openVar? a = some v) (unwatched : ctx.Unwatched v)
    (ground : value.isGround = true) :
    Detached (unifyWithin depth ctx a value) fun result => ∃ next, result = some next ∧
      next.substitution = ctx.substitution.insert v value ∧
        next.get .constraints = ctx.get .constraints := by
  obtain ⟨_, named⟩ := bare.unbound_of_openVar? free walks
  rw [openVar?_eq_some] at walks
  have notVar : ∀ w, value ≠ .var w := by
    rintro w rfl
    cases ground
  have walked : ctx.substitution.Walked value := fun w same => absurd same (notVar w)
  cases depth with
  | zero => exact .throw _
  | succ depth =>
      let outer := condenseThen (unifyWithin depth)
      have left : (store outer).walk ctx a = .var v := walks
      have right : (store outer).walk ctx value = value := walk_of_walked walked
      have binds : Detached (Context.bindBy outer ctx v value) _ :=
        bare.bindBy_unwatched unwatched named walked (notVar v)
      change Detached ((store outer).unifyRound (unifyWithin depth) ctx a value) _
      rw [Bindings.unifyRound]
      simp only [left, right, if_neg (notVar v).symm]
      cases value with
      | var w => exact absurd rfl (notVar w)
      | atom x =>
          cases v with
          | wildcard => exact absurd rfl named
          | _ => exact binds
      | compound f args =>
          have allowed : (store outer).forbids ctx v (.compound f args) = pure false := by
            have resolved : ctx.substitution.resolve (.compound f args) = .compound f args :=
              Term.mapVars_of_isGround _ ground
            rw [bare.forbids_eq, resolved, Term.isGround_iff.mp ground v]
          cases v with
          | wildcard => exact absurd rfl named
          | _ =>
              dsimp only
              rw [Bindings.bindVar, allowed, pure_bind]
              exact binds

/-- The terms are ground, or unbound variables of their own that nothing waits for. -/
structure Fillable (ctx : Context) (args : List Term) : Prop where
  direct : ∀ a ∈ args, ctx.substitution.Direct a
  different : (ctx.substitution.openVars args).Nodup
  unwatched : ∀ v ∈ ctx.substitution.openVars args, ctx.Unwatched v

/-- Some of the unbound variables got values, and nothing else of interest changed. -/
structure Fills (vs : List Var) (ctx next : Context) : Prop where
  bare : next.Bare
  frames : ctx.substitution.Frames vs next.substitution
  constraints : next.get .constraints = ctx.get .constraints

theorem MatchesGround.of_keepsGround (agree : ctx.MatchesGround args row)
    (keeps : ctx.substitution.KeepsGround next.substitution)
    (fewer : ∀ a ∈ args, (next.resolve a).isGround ≤ (ctx.resolve a).isGround) :
    next.MatchesGround args row := by
  induction agree with
  | nil => exact .nil
  | @cons a value _ _ here _ ih =>
      rw [List.forall_mem_cons] at fewer
      refine .cons (fun ground => ?_) (ih fewer.2)
      have before : (ctx.resolve a).isGround = true := fewer.1 ground
      exact (keeps a before).trans (here before)

namespace Fills

variable {vs ws : List Var}

theorem refl (bare : ctx.Bare) : Fills [] ctx ctx := ⟨bare, .refl _, rfl⟩

theorem trans (earlier : Fills vs ctx next) (later : Fills ws next last) :
    Fills (vs ++ ws) ctx last :=
  ⟨later.bare, earlier.frames.trans later.frames, later.constraints.trans earlier.constraints⟩

theorem unwatched (fills : Fills vs ctx next) (unwatched : ctx.Unwatched v) :
    next.Unwatched v := by
  rw [Unwatched, fills.constraints]
  exact unwatched

/-- Terms that can still be filled in, and agree with a row, go on to do so. -/
theorem fillable (fills : Fills vs ctx next) (fillable : ctx.Fillable args)
    (apart : (ctx.substitution.openVars args).Disjoint vs) (agree : ctx.MatchesGround args row) :
    next.Fillable args ∧ next.MatchesGround args row ∧
      next.substitution.openVars args = ctx.substitution.openVars args := by
  have same := fills.frames.openVars_eq fillable.direct apart
  have kept := fun a member => fills.frames.direct (fillable.direct a member) fun v walks =>
    apart (List.mem_filterMap.mpr ⟨a, member, walks⟩)
  refine ⟨⟨fun a member => (kept a member).1, same ▸ fillable.different, fun v inside => ?_⟩,
    MatchesGround.of_keepsGround agree fills.frames.keeps fun a member => (kept a member).2.2.le,
    same⟩
  exact fills.unwatched (fillable.unwatched v (same ▸ inside))

end Fills

/-- One argument after the other is compared with its value, or bound to it. -/
theorem unifyPairs_direct (depth : Nat) : ∀ (args row : List Term) (ctx : Context), ctx.Bare →
    (∀ a ∈ args, a.WildcardFree) → ctx.Fillable args → (∀ value ∈ row, value.isGround = true) →
    ctx.MatchesGround args row →
    Detached (Bindings.unifyPairs (unifyWithin depth) ctx args row) fun result =>
      ∃ next, result = some next ∧ Fills (ctx.substitution.openVars args) ctx next
  | [], [], ctx, bare, _, _, _, _ => .pure ⟨ctx, rfl, .refl bare⟩
  | a :: args, value :: row, ctx, bare, free, fillable, ground, .cons here agree => by
      rw [List.forall_mem_cons] at free ground
      obtain ⟨direct, different, unwatched⟩ := fillable
      rw [List.forall_mem_cons] at direct
      rw [Bindings.unifyPairs]
      rcases direct.1 with isGround | isOpen
      · have same : ctx.substitution.openVars (a :: args) = ctx.substitution.openVars args :=
          List.filterMap_cons_none (openVar?_of_isGround isGround)
        rw [same] at different unwatched ⊢
        rw [← here isGround]
        apply (unifyWithin_value depth a isGround).bind
        rintro _ rfl
        exact unifyPairs_direct depth args row ctx bare free.2 ⟨direct.2, different, unwatched⟩
          ground.2 agree
      · obtain ⟨v, walks⟩ := Option.isSome_iff_exists.mp isOpen
        have same : ctx.substitution.openVars (a :: args) = v :: ctx.substitution.openVars args :=
          List.filterMap_cons_some walks
        rw [same] at different unwatched ⊢
        rw [List.forall_mem_cons] at unwatched
        obtain ⟨outside, different⟩ := List.nodup_cons.mp different
        have unbound := (bare.unbound_of_openVar? free.1 walks).1
        have binds := bare.unifyWithin_open depth free.1 walks unwatched.1 ground.1
        have valueFree : value.WildcardFree := Term.isGround_iff.mp ground.1 .wildcard
        have restricts := equates_unifyWithin depth ctx a value bare free.1 valueFree
        apply (binds.and restricts).bind
        rintro _ ⟨⟨next, rfl, inserted, constraints⟩, leaves⟩
        have fills : Fills [v] ctx next :=
          ⟨(leaves next rfl).bare, inserted ▸ .insert bare.acyclic unbound ground.1, constraints⟩
        obtain ⟨fillable, agree, sameVars⟩ := fills.fillable ⟨direct.2, different, unwatched.2⟩
          (List.disjoint_singleton.mpr outside) agree
        apply (unifyPairs_direct depth args row next fills.bare free.2 fillable ground.2 agree).mono
        rintro _ ⟨last, rfl, later⟩
        rw [sameVars] at later
        exact ⟨last, rfl, fills.trans later⟩

/-- Arguments that are ground, or unbound variables of their own that nothing waits for, unify
with a row of values that agrees with the ground ones. -/
theorem Bare.unifyAll_direct (bare : ctx.Bare) (free : ∀ a ∈ args, a.WildcardFree)
    (fillable : ctx.Fillable args) (ground : ∀ value ∈ row, value.isGround = true)
    (agree : ctx.MatchesGround args row) :
    Detached (ctx.unifyAll args row) fun result =>
      ∃ next, result = some next ∧ Fills (ctx.substitution.openVars args) ctx next := by
  rw [Context.unifyAll, unifyOver_eq, Bindings.unifyLists, if_pos agree.length_eq]
  exact unifyPairs_direct _ args row ctx bare free fillable ground agree

end Context

end RelationalSolver
