import RelationalSolver.Proofs.Context.Coupling
import RelationalSolver.Proofs.Context.Unification

/-!
# Which chains are handed to walk hooks

Walk hooks see the chains of the two terms that are to be unified, the left one first.  What
unification comes to below them is walked without anybody looking on: apart from what bind
hooks unify in their turn, it goes on as if no walk hook were registered.
-/

namespace RelationalSolver

namespace Engine

variable {α β : Type} {R : α → β → Prop} {x : Engine α} {y : Engine β}

/-- Both computations end in the same session, with related results or for the same reason. -/
inductive EndsBeside (R : α → β → Prop) : Except Halt α × Session → Except Halt β × Session → Prop
  | result {a : α} {b : β} (holds : R a b) (s : Session) : EndsBeside R (.ok a, s) (.ok b, s)
  | halted (halt : Halt) (s : Session) : EndsBeside R (.error halt, s) (.error halt, s)

/-- In every session both computations do the same to it and give related results. -/
def Parallels (R : α → β → Prop) (x : Engine α) (y : Engine β) : Prop :=
  ∀ before, EndsBeside R (x.run.run before) (y.run.run before)

namespace Parallels

theorem pure {a : α} {b : β} (holds : R a b) : Parallels R (Pure.pure a) (Pure.pure b) :=
  fun before => .result holds before

theorem throw (halt : Halt) : Parallels R (MonadExcept.throw halt) (MonadExcept.throw halt) :=
  fun before => .halted halt before

theorem bind {γ δ : Type} {S : γ → δ → Prop} {f : α → Engine γ} {g : β → Engine δ}
    (first : Parallels R x y) (later : ∀ a b, R a b → Parallels S (f a) (g b)) :
    Parallels S (x >>= f) (y >>= g) := by
  intro before
  have ended := first before
  rw [run_bind, run_bind]
  generalize x.run.run before = ran at *
  generalize y.run.run before = ranOther at *
  cases ended with
  | result holds between => exact later _ _ holds between
  | halted halt between => exact .halted halt between

/-- Computations that go side by side in one session. -/
def coupling : Coupling Engine where
  Related := Parallels
  pure := .pure
  bind := .bind

theorem map {γ δ : Type} {S : γ → δ → Prop} {f : α → γ} {g : β → δ} (beside : Parallels R x y)
    (holds : ∀ a b, R a b → S (f a) (g b)) : Parallels S (f <$> x) (g <$> y) :=
  coupling.map beside holds

theorem refl (x : Engine α) : Parallels Eq x x := by
  intro before
  generalize x.run.run before = ran
  cases ran with
  | mk outcome after =>
      cases outcome with
      | ok a => exact .result rfl after
      | error halt => exact .halted halt after

/-- A computation that tells what the results of the other one are. -/
theorem eq_map {g : β → α} (beside : Parallels (fun a b => a = g b) x y) : x = g <$> y := by
  have same : ∀ before, x.run.run before = (g <$> y).run.run before := by
    intro before
    have ended := beside before
    rw [run_map]
    generalize x.run.run before = ran at *
    generalize y.run.run before = ranOther at *
    cases ended with
    | result holds after => rw [holds]; rfl
    | halted halt after => rfl
  exact funext same

theorem of_detached {condition : α → Prop} {g : α → β} (detached : Detached x condition)
    (holds : ∀ a, condition a → R a (g a)) : Parallels R x (g <$> x) := by
  intro before
  rw [run_map]
  cases ran : x.run.run before with
  | mk outcome after =>
      cases outcome with
      | ok a => exact .result (holds a (detached.of_returns ⟨before, after, ran⟩)) after
      | error halt => exact .halted halt after

theorem ofCollision {attempted : Except Collision α} {g : α → β}
    (holds : ∀ a, attempted = .ok a → R a (g a)) :
    Parallels R (Engine.ofCollision attempted) (Engine.ofCollision (attempted.map g)) := by
  cases attempted with
  | ok a => exact .pure (holds a rfl)
  | error c => exact .throw _

theorem orCrash {attempted : Except Collision α} {g : α → β}
    (holds : ∀ a, attempted = .ok a → R a (g a)) :
    Parallels R (Engine.orCrash attempted) (Engine.orCrash (attempted.map g)) := by
  cases attempted with
  | ok a => exact .pure (holds a rfl)
  | error c => exact .throw _

end Parallels

end Engine

/-- The registry without its walk hooks. -/
def Registry.blinded (r : Registry) : Registry := { r with walkHooks := [] }

namespace Context

open Engine

variable {ctx other next : Context} {registry : Registry} {key : FacetKey} {value : key.Value}
  {a b t : Term} {v : Var}

/-! ## Hiding walk hooks -/

theorem putIn_comm {first second : Facet} (different : first.key ≠ second.key) :
    ∀ {facets : List Facet}, lookupIn first.key facets ≠ none →
      putIn second (putIn first facets) = putIn first (putIn second facets)
  | [], found => absurd rfl found
  | facet :: facets, found => by
      rw [lookupIn] at found
      by_cases here : facet.key = first.key
      · have apart : facet.key ≠ second.key := here ▸ different
        simp [putIn, here, different]
      · rw [dif_neg here] at found
        by_cases there : facet.key = second.key
        · simp [putIn, there, Ne.symm different]
        · simp [putIn, here, there, putIn_comm different found]

theorem map_key_putIn {facet : Facet} : ∀ {facets : List Facet},
    lookupIn facet.key facets ≠ none → (putIn facet facets).map Facet.key = facets.map Facet.key
  | [], found => absurd rfl found
  | other :: facets, found => by
      rw [lookupIn] at found
      by_cases here : other.key = facet.key
      · simp [putIn, here]
      · rw [dif_neg here] at found
        simp [putIn, here, map_key_putIn found]

theorem putIn_putIn {key : FacetKey} {first second : key.Value} : ∀ {facets : List Facet},
    putIn ⟨key, second⟩ (putIn ⟨key, first⟩ facets) = putIn ⟨key, second⟩ facets
  | [] => by simp [putIn]
  | other :: facets => by
      by_cases here : other.key = key
      · simp [putIn, here]
      · simp [putIn, here, putIn_putIn]

theorem putIn_self {key : FacetKey} {value : key.Value} : ∀ {facets : List Facet},
    lookupIn key facets = some value → putIn ⟨key, value⟩ facets = facets
  | [], found => by cases found
  | ⟨other, held⟩ :: facets, found => by
      rw [lookupIn] at found
      by_cases here : other = key
      · subst here
        rw [dif_pos rfl] at found
        cases found
        simp [putIn]
      · rw [dif_neg here] at found
        simp [putIn, here, putIn_self found]

/-- The context has the hooks, and the other one is the same but for their walk hooks. -/
structure Blinded (registry : Registry) (ctx other : Context) : Prop where
  found : ctx.hooks? = some registry
  same : other = ctx.put .hooks registry.blinded

theorem blinded_put (found : ctx.hooks? = some registry) :
    Blinded registry ctx (ctx.put .hooks registry.blinded) := ⟨found, rfl⟩

namespace Blinded

variable (hidden : Blinded registry ctx other)
include hidden

theorem hooks? : other.hooks? = some registry.blinded := by
  rw [hidden.same]
  exact get?_put_self

theorem get? (key : FacetKey) (different : key ≠ .hooks) : other.get? key = ctx.get? key := by
  rw [hidden.same, get?_put_of_ne (Ne.symm different)]

theorem get (key : FacetKey) (different : key ≠ .hooks) : other.get key = ctx.get key := by
  rw [Context.get, hidden.get? key different, Context.get]

theorem substitution : other.substitution = ctx.substitution :=
  hidden.get _ (by simp)

theorem counter (name : String) : other.counter name = ctx.counter name := by
  rw [Context.counter, hidden.get _ (by simp), Context.counter]

theorem fire (event : EventKey) (payload : Payload) :
    other.fire event payload = ctx.fire event payload := by
  rw [Context.fire, Context.fire, hidden.hooks?, hidden.found, bindingsMade, hidden.counter]
  rfl

/-- A facet is set in both, or collides in both with the same one. -/
theorem trySet (different : key ≠ .hooks) : other.trySet key value =
    (ctx.trySet key value).map (·.put .hooks registry.blinded) := by
  have present : lookupIn .hooks ctx.facets ≠ none := by
    rw [show lookupIn .hooks ctx.facets = some registry from hidden.found]
    exact Option.some_ne_none _
  have holders : (other.facets.find? (·.key.name = key.name)).map Facet.key =
      (ctx.facets.find? (·.key.name = key.name)).map Facet.key := by
    have keys : other.facets.map Facet.key = ctx.facets.map Facet.key := by
      rw [hidden.same]
      exact map_key_putIn present
    have found := congrArg (List.find? fun held => decide (held.name = key.name)) keys
    rwa [List.find?_map, List.find?_map] at found
  have written : (⟨putIn ⟨key, value⟩ other.facets⟩ : Context) =
      Context.put ⟨putIn ⟨key, value⟩ ctx.facets⟩ .hooks registry.blinded := by
    rw [hidden.same]
    exact congrArg Context.mk (putIn_comm (Ne.symm different) present)
  unfold Context.trySet
  generalize ctx.facets.find? _ = holder at *
  generalize other.facets.find? _ = holderOther at *
  cases holder <;> cases holderOther <;> simp only [Option.map_some, Option.map_none] at holders
  · exact congrArg Except.ok written
  · cases holders
  · cases holders
  · rename_i held heldOther
    have same : heldOther.key = held.key := Option.some.inj holders
    dsimp only
    rw [same]
    split
    · exact congrArg Except.ok written
    · rfl

theorem of_trySet (different : key ≠ .hooks) (success : ctx.trySet key value = .ok next) :
    Blinded registry next (next.put .hooks registry.blinded) :=
  blinded_put ((get?_of_trySet_of_ne success different).trans hidden.found)

theorem set (different : key ≠ .hooks) :
    Parallels (Blinded registry) (ctx.set key value) (other.set key value) := by
  rw [Context.set, Context.set, hidden.trySet different]
  exact .orCrash fun _ success => hidden.of_trySet different success

theorem bump (name : String) :
    Parallels (Blinded registry) (ctx.bump name) (other.bump name) := by
  unfold Context.bump
  rw [hidden.get .counters (by simp), hidden.counter]
  exact hidden.set (by simp)

/-! ## Constraints -/

theorem settle (store : ConstraintStore) (id : Nat) (c : Constraint) (cause : Var)
    (follow : List Var) :
    other.settle store id c cause follow = ctx.settle store id c cause follow := by
  have mode : other.occursCheck = ctx.occursCheck := hidden.get _ (by simp)
  simp only [Context.settle, Context.evaluate, mode, hidden.substitution, hidden.fire]

theorem settleAll (cause : Var) (follow : List Var) (ids : List Nat) (store : ConstraintStore) :
    other.settleAll cause follow store ids = ctx.settleAll cause follow store ids := by
  induction ids generalizing store with
  | nil => rfl
  | cons id ids ih => simp only [Context.settleAll, hidden.settle, ih]

theorem store (store : ConstraintStore) :
    Parallels (Option.Rel (Blinded registry)) (some <$> ctx.set .constraints store)
      (some <$> other.set .constraints store) :=
  (hidden.set (by simp)).map fun _ _ => .some

theorem check (id : Nat) :
    Parallels (Option.Rel (Blinded registry)) (ctx.check id) (other.check id) := by
  unfold Context.check
  simp only [hidden.get .constraints (by simp), hidden.settle]
  split
  · exact .pure (.some hidden)
  · apply (Parallels.refl _).bind
    rintro result _ rfl
    cases result with
    | none => exact .pure .none
    | some store => exact hidden.store store

theorem constrain (c : Constraint) :
    Parallels (Option.Rel (Blinded registry)) (ctx.constrain c) (other.constrain c) := by
  have watched : other.watched c = ctx.watched c := by
    simp only [Context.watched, freeVars, hidden.substitution]
  unfold Context.constrain Context.attach
  simp only [hidden.get .constraints (by simp), watched, bind_assoc, pure_bind]
  exact (hidden.set (by simp)).bind fun _ _ stored => stored.check _

theorem propagate (v : Var) (t : Term) :
    Parallels (Option.Rel (Blinded registry)) (ctx.propagate v t) (other.propagate v t) := by
  have free : other.freeVars t = ctx.freeVars t := by
    rw [freeVars, hidden.substitution, freeVars]
  unfold Context.propagate
  simp only [hidden.get .constraints (by simp), hidden.settleAll, free]
  split
  · exact .pure (.some hidden)
  · apply (Parallels.refl _).bind
    rintro result _ rfl
    cases result with
    | none => exact .pure .none
    | some store => exact hidden.store store

/-! ## Bind hooks -/

variable {inner innerOther : Context → Term → Term → Engine (Option Context)}

theorem runAction (action : BindAction)
    (unifies : ∀ a b, Parallels (Option.Rel (Blinded registry)) (inner ctx a b)
      (innerOther other a b)) :
    Parallels (Option.Rel (Blinded registry)) (ctx.runAction inner action)
      (other.runAction innerOther action) := by
  have custom : ∀ {facet : CustomFacet} {value : Int},
      Parallels (Option.Rel (Blinded registry))
        (some <$> Engine.ofCollision (ctx.trySet (.custom facet) value))
        (some <$> Engine.ofCollision (other.trySet (.custom facet) value)) := by
    intro facet value
    rw [hidden.trySet (by simp)]
    exact (Parallels.ofCollision fun _ success => hidden.of_trySet (by simp) success).map
      fun _ _ => .some
  cases action with
  | reject => exact .pure .none
  | bump name => exact (hidden.bump name).map fun _ _ => .some
  | setFacet facet value => exact custom
  | addToFacet facet amount =>
      simp only [Context.runAction, tryUpdate, hidden.get (.custom facet) (by simp)]
      exact custom
  | unify a b => exact unifies a b
  | constrain c => exact hidden.constrain c

end Blinded

section Rounds

variable {inner innerOther outer outerOther : Context → Term → Term → Engine (Option Context)}

/-- Both ways to unify go side by side, with the walk hooks and without them. -/
def UnifiesBlinded (registry : Registry)
    (inner innerOther : Context → Term → Term → Engine (Option Context)) : Prop :=
  ∀ ctx other a b, Blinded registry ctx other →
    Parallels (Option.Rel (Blinded registry)) (inner ctx a b) (innerOther other a b)

theorem UnifiesBlinded.runBindHooks (unifies : UnifiesBlinded registry inner innerOther)
    (v : Var) (t : Term) (hooks : List BindHook) (hidden : Blinded registry ctx other) :
    Parallels (Option.Rel (Blinded registry)) (runBindHooks inner v t ctx hooks)
      (runBindHooks innerOther v t other hooks) := by
  induction hooks generalizing ctx other with
  | nil => exact .pure (.some hidden)
  | cons hook hooks ih =>
      have made : other.bindingsMade = ctx.bindingsMade := hidden.counter _
      have admits : other.admits v t hook.guard = ctx.admits v t hook.guard := by
        unfold Context.admits
        rw [made]
      rw [Context.runBindHooks, Context.runBindHooks, admits]
      split
      · apply (hidden.runAction hook.action fun a b => unifies ctx other a b hidden).bind
        intro result resultOther related
        cases related with
        | none => exact .pure .none
        | some hiddenNext => exact ih hiddenNext
      · exact ih hidden

theorem UnifiesBlinded.bindBy (unifies : UnifiesBlinded registry outer outerOther)
    (hidden : Blinded registry ctx other) (v : Var) (t : Term) :
    Parallels (Option.Rel (Blinded registry)) (bindBy outer ctx v t)
      (bindBy outerOther other v t) := by
  rw [Context.bindBy, Context.bindBy, hidden.substitution]
  split
  · exact .pure .none
  · rename_i s _
    rw [hidden.trySet (by simp)]
    apply (Parallels.ofCollision fun _ success => hidden.of_trySet (by simp) success).bind
    intro written writtenOther stored
    apply (stored.bump "bindings").bind
    intro counted countedOther bumped
    rw [bumped.fire]
    apply (Parallels.refl _).bind
    intro _ _ _
    apply (bumped.propagate v t).bind
    intro result resultOther related
    cases related with
    | none => exact .pure .none
    | some settled =>
        simp only [settled.found, settled.hooks?]
        exact unifies.runBindHooks v t registry.bindHooks settled

theorem UnifiesBlinded.round (below : UnifiesBlinded registry inner innerOther)
    (binds : UnifiesBlinded registry outer outerOther) :
    UnifiesBlinded registry ((Context.store outer).unifyRound inner)
      ((Context.store outerOther).unifyRound innerOther) := by
  intro ctx other a b hidden
  have walks : ∀ t, (Context.store outerOther).walk other t = (Context.store outer).walk ctx t :=
    fun t => congrArg (·.walk t) hidden.substitution
  apply Parallels.coupling.unifyRound walks hidden
  · intro v t _
    apply Parallels.coupling.bindVar True (fun _ => trivial)
    · intro f args _
      have forbids : (Context.store outerOther).forbids other v t =
          (Context.store outer).forbids ctx v t := by
        have mode : other.occursCheck = ctx.occursCheck := hidden.get _ (by simp)
        simp only [Context.store, mode, hidden.substitution]
      rw [forbids]
      exact Parallels.coupling.mono (Parallels.refl _) fun _ _ same => ⟨same, fun _ => trivial⟩
    · exact fun _ => binds.bindBy hidden v t
  · intro f as bs _ _
    exact Parallels.coupling.unifyPairs hidden fun later laterOther related a _ b _ =>
      below later laterOther a b related

end Rounds

/-! ## Handing chains over -/

/-- Hand the chain that a term walks through to the walk hooks, if it has two variables or
more. -/
def handOver (ctx : Context) (registry : Registry) (t : Term) : Engine Context :=
  let (value, chain) := ctx.substitution.walkChain t
  if chain.length < 2 then pure ctx else ctx.runWalkHooks value chain registry.walkHooks

/-- Unification down to a depth, with another function for what bind hooks unify. -/
def unifyApart (onBind : Nat → Context → Term → Term → Engine (Option Context)) :
    Nat → Context → Term → Term → Engine (Option Context)
  | 0, _, _, _ => throw .unending
  | depth + 1, ctx, a, b => (store (onBind depth)).unifyRound (unifyApart onBind depth) ctx a b

/-- What a bind hook unifies while the walk hooks are put away: they look on meanwhile. -/
def unifyWatched (registry : Registry) (depth : Nat) (ctx : Context) (a b : Term) :
    Engine (Option Context) :=
  Option.map (·.put .hooks registry.blinded) <$>
    condenseThen (unifyWithin depth) (ctx.put .hooks registry) a b

/-- Unification itself is the case in which bind hooks unify as their surroundings do. -/
theorem unifyWithin_eq_unifyApart (depth : Nat) : unifyWithin depth =
    unifyApart (fun depth => condenseThen (unifyWithin depth)) depth := by
  induction depth with
  | zero => rfl
  | succ depth ih =>
      funext ctx a b
      rw [unifyWithin_succ, unifyApart, ← ih]

theorem Blinded.restored (hidden : Blinded registry ctx other) :
    other.put .hooks registry = ctx := by
  rw [hidden.same]
  exact congrArg Context.mk (putIn_putIn.trans (putIn_self hidden.found))

theorem unifyWatched_beside (depth : Nat) :
    UnifiesBlinded registry (condenseThen (unifyWithin depth)) (unifyWatched registry depth) := by
  intro ctx other a b hidden
  rw [unifyWatched, hidden.restored]
  apply Parallels.of_detached (condenseThen_keeps (unifyWithin_keeps depth) ctx a b)
  intro result leaves
  cases result with
  | none => exact .none
  | some next =>
      have same : next.hooks? = ctx.hooks? := leaves next rfl .hooks trivial
      exact .some (blinded_put (same.trans hidden.found))

theorem unifyApart_beside (depth : Nat) :
    UnifiesBlinded registry (unifyWithin depth) (unifyApart (unifyWatched registry) depth) := by
  induction depth with
  | zero => exact fun _ _ _ _ _ => .throw _
  | succ depth ih => exact ih.round (unifyWatched_beside depth)

theorem handOver_keeps (t : Term) : Detached (ctx.handOver registry t) ctx.SameFixed := by
  rw [handOver]
  dsimp only
  split
  · exact .pure (.refl ctx)
  · exact runWalkHooks_keeps _ _ _

theorem walkCondensed_eq (found : ctx.hooks? = some registry) (t : Term) :
    ctx.walkCondensed t = (·, ctx.walk t) <$> ctx.handOver registry t := by
  have value : (ctx.substitution.walkChain t).1 = ctx.walk t := ctx.substitution.walkChain_fst t
  rw [walkCondensed, found, handOver, map_eq_pure_bind]
  dsimp only
  rw [value]
  split <;> rfl

/-- The chain of the left term is handed to the walk hooks, and then the chain of the right
one.  What the terms walk to is unified with the walk hooks put away; they are only put back
for what bind hooks unify. -/
theorem unify_hands_over (found : ctx.hooks? = some registry) (a b : Term) :
    ∃ depth, ctx.unify a b = (do
      let first ← ctx.handOver registry a
      let second ← first.handOver registry b
      Option.map (·.put .hooks registry) <$>
        unifyApart (unifyWatched registry) depth (second.put .hooks registry.blinded)
          (ctx.walk a) (first.walk b)) := by
  refine ⟨Substitution.rounds (ctx.nodes + (a.size + b.size)) + Substitution.shallow, ?_⟩
  rw [Context.unify, unifyOver_eq, condenseThen, walkCondensed_eq found, map_eq_pure_bind,
    bind_assoc]
  simp only [pure_bind]
  apply bind_congr_of_returns
  intro first handed
  have foundFirst : first.hooks? = some registry :=
    ((handOver_keeps a).of_returns handed .hooks trivial).trans found
  rw [walkCondensed_eq foundFirst, map_eq_pure_bind, bind_assoc]
  simp only [pure_bind]
  apply bind_congr_of_returns
  intro second handedSecond
  have foundSecond : second.hooks? = some registry :=
    ((handOver_keeps b).of_returns handedSecond .hooks trivial).trans foundFirst
  have beside := unifyApart_beside
    (Substitution.rounds (ctx.nodes + (a.size + b.size)) + Substitution.shallow)
    second _ (ctx.walk a) (first.walk b) (blinded_put foundSecond)
  apply Parallels.eq_map
  apply Parallels.coupling.mono beside
  intro result resultOther related
  cases related with
  | none => rfl
  | some hidden => exact congrArg some hidden.restored.symm

/-- The left term walks through a chain of two variables, which is condensed before both terms
are unified with the walk hook put away. -/
theorem unify_hands_over_left :
    let x := Var.numbered 1
    let y := Var.numbered 2
    let registry : Registry := ⟨[], [], [⟨2⟩]⟩
    let start := (empty.put .hooks registry).put .substitutions
      ((Substitution.empty.insert x (.var y)).insert y (.int 1))
    start.hooks? = some registry ∧ ∃ depth next, Returns (do
      let first ← start.handOver registry (.var x)
      let second ← first.handOver registry (.int 1)
      Option.map (·.put .hooks registry) <$>
        unifyApart (unifyWatched registry) depth (second.put .hooks registry.blinded)
          (start.walk (.var x)) (first.walk (.int 1))) (some next) ∧
      next.counter "condensed" = 1 ∧ next.substitution.lookup x = some (.int 1) := by
  intro x y registry start
  have found : start.hooks? = some registry := rfl
  obtain ⟨depth, same⟩ := unify_hands_over found (.var x) (.int 1)
  obtain ⟨next, returned, counted, short⟩ : ∃ next : Context,
      Returns (start.unify (.var x) (.int 1)) (some next) ∧ next.counter "condensed" = 1 ∧
        next.substitution.lookup x = some (.int 1) :=
    ⟨_, ⟨.start 0 0, _, rfl⟩, rfl, rfl⟩
  exact ⟨found, depth, next, same ▸ returned, counted, short⟩

/-- A chain that is walked through below the top is handed to nobody.  The walk hook condenses
chains of two variables or more, and a recorder is told.  So it does where the chain starts at
one of the two terms; but if the chain starts at an argument of one of them, nothing is
condensed or recorded. -/
theorem unify_withholds_chain :
    let x := Var.numbered 1
    let y := Var.numbered 2
    let f (t : Term) : Term := .compound "f" [t]
    let fresh := Session.start 0 0
    let start := empty.put .hooks ⟨[(.condensed, [.recorder 0])], [], [⟨2⟩]⟩
    ∃ first ctx next : Context, ∃ after : Session,
      Runs (start.unify (.var x) (.var y)) fresh (some first) fresh ∧
      Runs (first.unify (.var y) (.int 1)) fresh (some ctx) fresh ∧
      ctx.substitution.walkChain (.var x) = (.int 1, [x, y]) ∧
      Runs (ctx.unify (f (.var x)) (f (.int 1))) fresh (some ctx) fresh ∧
      Runs (ctx.unify (.var x) (.int 1)) fresh (some next) after ∧
      after.recorded = #[⟨0, .condensed, .condense (.int 1) [x, y], 2⟩] ∧
      next.substitution.walkChain (.var x) = (.int 1, [x]) :=
  ⟨_, _, _, _, rfl, rfl, rfl, rfl, rfl, rfl, rfl⟩

end Context

end RelationalSolver
