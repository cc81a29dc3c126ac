import Mathlib.Data.List.Forall2
import Mathlib.Data.Option.Basic
import RelationalSolver.Unification

/-!
# Unifying side by side

Two attempts to unify the same terms run side by side over stores of bindings that walk
alike.  They take the same turns, so whatever relation between their stores is kept by
every binding holds of what they end in.  How two computations may end is left to a
coupling.
-/

namespace RelationalSolver

namespace Bindings

/-- A variable that one of the terms walks to meets what the other one walks to. -/
def Meets (walk : Term → Term) (a b : Term) (v : Var) (t : Term) : Prop :=
  v ≠ .wildcard ∧ t ≠ .var v ∧ ((walk a = .var v ∧ walk b = t) ∨ (walk b = .var v ∧ walk a = t))

/-- What holds of both ends holds of what the variable meets. -/
theorem Meets.of_walks {walk : Term → Term} {a b : Term} {v : Var} {t : Term} {P : Term → Prop}
    (meets : Meets walk a b v t) (left : P (walk a)) (right : P (walk b)) : P t := by
  rcases meets.2.2 with ⟨_, rfl⟩ | ⟨_, rfl⟩
  · exact right
  · exact left

/-- Top levels that no binding makes equal. -/
inductive Clash : Term → Term → Prop where
  | atoms {a b : Atom} (different : a ≠ b) : Clash (.atom a) (.atom b)
  | atomCompound (a : Atom) (f : String) (args : List Term) :
      Clash (.atom a) (.compound f args)
  | compoundAtom (f : String) (args : List Term) (a : Atom) :
      Clash (.compound f args) (.atom a)
  | shapes {f g : String} {as bs : List Term} (different : ¬ (as.length = bs.length ∧ f = g)) :
      Clash (.compound f as) (.compound g bs)

/-- What two rounds can come to in stores that walk alike: both take the same turn. -/
theorem unifyRound_abreast {m n : Type → Type} [Monad m] [Monad n] {σ τ : Type}
    {ops : Bindings m σ} {opsOther : Bindings n τ} {s : σ} {other : τ}
    (unify : σ → Term → Term → m (Option σ)) (unifyOther : τ → Term → Term → n (Option τ))
    {a b : Term} {motive : m (Option σ) → n (Option τ) → Prop}
    (walks : ∀ t, opsOther.walk other t = ops.walk s t)
    (same : ops.walk s a = ops.walk s b → motive (pure (some s)) (pure (some other)))
    (skip : ops.walk s a = .var .wildcard ∨ ops.walk s b = .var .wildcard →
      motive (pure (some s)) (pure (some other)))
    (bind : ∀ v t, Meets (ops.walk s) a b v t →
      motive (ops.bindVar s v t) (opsOther.bindVar other v t))
    (below : ∀ f as bs, ops.walk s a = .compound f as → ops.walk s b = .compound f bs →
      as.length = bs.length → motive (unifyPairs unify s as bs) (unifyPairs unifyOther other as bs))
    (clash : Clash (ops.walk s a) (ops.walk s b) → motive (pure none) (pure none)) :
    motive (ops.unifyRound unify s a b) (opsOther.unifyRound unifyOther other a b) := by
  unfold unifyRound
  unfold Meets at bind
  simp only [walks]
  generalize ops.walk s a = left at *
  generalize ops.walk s b = right at *
  split
  · rename_i equal
    exact same equal
  · rename_i different
    split
    · exact skip (.inl rfl)
    · exact skip (.inr rfl)
    · rename_i v named _
      refine bind v _ ⟨?_, Ne.symm different, .inl ⟨rfl, rfl⟩⟩
      rintro rfl
      exact named rfl
    · rename_i v named _ _
      refine bind v _ ⟨?_, different, .inr ⟨rfl, rfl⟩⟩
      rintro rfl
      exact named rfl
    · rename_i f as g bs
      split
      · rename_i shape
        obtain ⟨lengths, rfl⟩ := shape
        exact below f as bs rfl rfl lengths
      · rename_i shape
        exact clash (.shapes shape)
    · rename_i _ notVar _ notVarRight notCompounds
      apply clash
      cases left with
      | var v => exact absurd rfl (notVar v)
      | atom x =>
          cases right with
          | var v => exact absurd rfl (notVarRight v)
          | atom y => exact .atoms fun equal => different (congrArg Term.atom equal)
          | compound g bs => exact .atomCompound x g bs
      | compound f as =>
          cases right with
          | var v => exact absurd rfl (notVarRight v)
          | atom y => exact .compoundAtom f as y
          | compound g bs => exact absurd rfl (notCompounds f as g bs rfl)

/-- What a round can come to. -/
theorem unifyRound_cases {m : Type → Type} [Monad m] {σ : Type} {ops : Bindings m σ} {s : σ}
    {unify : σ → Term → Term → m (Option σ)} {a b : Term} {motive : m (Option σ) → Prop}
    (same : ops.walk s a = ops.walk s b → motive (pure (some s)))
    (skip : ops.walk s a = .var .wildcard ∨ ops.walk s b = .var .wildcard →
      motive (pure (some s)))
    (bind : ∀ v t, Meets (ops.walk s) a b v t → motive (ops.bindVar s v t))
    (below : ∀ f as bs, ops.walk s a = .compound f as → ops.walk s b = .compound f bs →
      as.length = bs.length → motive (unifyPairs unify s as bs))
    (clash : Clash (ops.walk s a) (ops.walk s b) → motive (pure none)) :
    motive (ops.unifyRound unify s a b) :=
  unifyRound_abreast unify unify (motive := fun x _ => motive x) (fun _ => rfl) same skip bind
    below clash

end Bindings

/-- A way to relate computations that is kept by results and by going on. -/
structure Coupling (m : Type → Type) [Monad m] where
  Related : {α β : Type} → (α → β → Prop) → m α → m β → Prop
  pure : ∀ {α β : Type} {R : α → β → Prop} {a : α} {b : β}, R a b →
    Related R (Pure.pure a) (Pure.pure b)
  bind : ∀ {α β γ δ : Type} {R : α → β → Prop} {S : γ → δ → Prop} {x : m α} {y : m β}
    {f : α → m γ} {g : β → m δ}, Related R x y → (∀ a b, R a b → Related S (f a) (g b)) →
    Related S (x >>= f) (y >>= g)

namespace Coupling

variable {m : Type → Type} [Monad m] (c : Coupling m)

theorem mono [LawfulMonad m] {α β : Type} {R S : α → β → Prop} {x : m α} {y : m β}
    (related : c.Related R x y) (weaker : ∀ a b, R a b → S a b) : c.Related S x y := by
  rw [← bind_pure x, ← bind_pure y]
  exact c.bind related fun a b holds => c.pure (weaker a b holds)

/-- Results that are missing on one side are missing on the other. -/
theorem mono_rel [LawfulMonad m] {α β : Type} {R S : α → β → Prop} {x : m (Option α)}
    {y : m (Option β)} (related : c.Related (Option.Rel R) x y)
    (weaker : ∀ a b, R a b → S a b) : c.Related (Option.Rel S) x y := by
  apply c.mono related
  intro _ _ holds
  cases holds with
  | none => exact .none
  | some holds => exact .some (weaker _ _ holds)

theorem map [LawfulMonad m] {α β γ δ : Type} {R : α → β → Prop} {S : γ → δ → Prop} {x : m α}
    {y : m β} {f : α → γ} {g : β → δ} (related : c.Related R x y)
    (holds : ∀ a b, R a b → S (f a) (g b)) : c.Related S (f <$> x) (g <$> y) := by
  rw [map_eq_pure_bind, map_eq_pure_bind]
  exact c.bind related fun a b given => c.pure (holds a b given)

/-! ## Lists -/

section Lists

variable {α β ι : Type} {R : α → β → Prop}

theorem foldlM {f : α → ι → m α} {g : β → ι → m β} : ∀ {items : List ι} {a : α} {b : β}, R a b →
    (∀ item ∈ items, ∀ a b, R a b → c.Related R (f a item) (g b item)) →
    c.Related R (items.foldlM f a) (items.foldlM g b)
  | [], _, _, holds, _ => c.pure holds
  | item :: items, a, b, holds, step => by
      rw [List.forall_mem_cons] at step
      rw [List.foldlM_cons, List.foldlM_cons]
      exact c.bind (step.1 a b holds) fun _ _ next => foldlM next step.2

theorem mapM [LawfulMonad m] {f : ι → m α} {g : ι → m β} : ∀ {items : List ι},
    (∀ item ∈ items, c.Related R (f item) (g item)) →
    c.Related (List.Forall₂ R) (items.mapM f) (items.mapM g)
  | [], _ => by
      rw [List.mapM_nil, List.mapM_nil]
      exact c.pure .nil
  | item :: items, step => by
      rw [List.forall_mem_cons] at step
      rw [List.mapM_cons, List.mapM_cons]
      apply c.bind step.1
      intro a b here
      apply c.bind (mapM step.2)
      intro as bs there
      exact c.pure (.cons here there)

/-- Lists that are related item by item. -/
theorem foldlM_forall₂ {κ : Type} {Q : ι → κ → Prop} {f : α → ι → m α} {g : β → κ → m β}
    (step : ∀ item other, Q item other → ∀ a b, R a b → c.Related R (f a item) (g b other))
    {items : List ι} {others : List κ} (related : List.Forall₂ Q items others) {a : α} {b : β}
    (holds : R a b) : c.Related R (items.foldlM f a) (others.foldlM g b) := by
  induction related generalizing a b with
  | nil => exact c.pure holds
  | cons here _ ih =>
      rw [List.foldlM_cons, List.foldlM_cons]
      exact c.bind (step _ _ here a b holds) fun _ _ => ih

theorem mapM_forall₂ [LawfulMonad m] {κ : Type} {Q : ι → κ → Prop} {f : ι → m α} {g : κ → m β}
    (step : ∀ item other, Q item other → c.Related R (f item) (g other))
    {items : List ι} {others : List κ} (related : List.Forall₂ Q items others) :
    c.Related (List.Forall₂ R) (items.mapM f) (others.mapM g) := by
  induction related with
  | nil =>
      rw [List.mapM_nil, List.mapM_nil]
      exact c.pure .nil
  | cons here _ ih =>
      rw [List.mapM_cons, List.mapM_cons]
      apply c.bind (step _ _ here)
      intro a b first
      apply c.bind ih
      intro as bs rest
      exact c.pure (.cons first rest)

end Lists

/-! ## Rounds -/

section Rounds

variable {σ : Type} {R : σ → σ → Prop} {ops opsOther : Bindings m σ} {s other : σ}
variable {unify unifyOther : σ → Term → Term → m (Option σ)} {a b t : Term} {v : Var}

theorem unifyPairs : ∀ {as bs : List Term} {s other : σ}, R s other →
    (∀ later laterOther, R later laterOther → ∀ a ∈ as, ∀ b ∈ bs,
      c.Related (Option.Rel R) (unify later a b) (unifyOther laterOther a b)) →
    c.Related (Option.Rel R) (Bindings.unifyPairs unify s as bs)
      (Bindings.unifyPairs unifyOther other as bs)
  | a :: as, b :: bs, s, other, related, below => by
      rw [Bindings.unifyPairs, Bindings.unifyPairs]
      apply c.bind (below s other related a (by simp) b (by simp))
      intro result resultOther alike
      cases alike with
      | none => exact c.pure .none
      | some relatedNext =>
          apply unifyPairs relatedNext
          intro later laterOther relatedLater x inLeft y inRight
          exact below later laterOther relatedLater x (List.mem_cons_of_mem a inLeft) y
            (List.mem_cons_of_mem b inRight)
  | [], _, _, _, related, _ => c.pure (.some related)
  | _ :: _, [], _, _, related, _ => c.pure (.some related)

theorem unifyLists {as bs : List Term} (related : R s other)
    (below : ∀ later laterOther, R later laterOther → ∀ a ∈ as, ∀ b ∈ bs,
      c.Related (Option.Rel R) (unify later a b) (unifyOther laterOther a b)) :
    c.Related (Option.Rel R) (Bindings.unifyLists unify s as bs)
      (Bindings.unifyLists unifyOther other as bs) := by
  unfold Bindings.unifyLists
  split
  · exact c.unifyPairs related below
  · exact c.pure .none

/-- A binding that the occurrence test may forbid: `allowed` is what is known if it does
not. -/
theorem bindVar (allowed : Prop) (simple : (∀ f args, t ≠ .compound f args) → allowed)
    (forbids : ∀ f args, t = .compound f args →
      c.Related (fun inside insideOther => inside = insideOther ∧ (inside = false → allowed))
        (ops.forbids s v t) (opsOther.forbids other v t))
    (binds : allowed → c.Related (Option.Rel R) (ops.bind s v t) (opsOther.bind other v t)) :
    c.Related (Option.Rel R) (ops.bindVar s v t) (opsOther.bindVar other v t) := by
  cases t with
  | var w => exact binds (simple (by simp))
  | atom x => exact binds (simple (by simp))
  | compound f args =>
      apply c.bind (forbids f args rfl)
      rintro inside _ ⟨rfl, lets⟩
      cases inside with
      | true => exact c.pure .none
      | false => exact binds (lets rfl)

/-- The arguments of compounds are only compared if there are as many on both sides. -/
theorem unifyRound_of_length_eq (walks : ∀ t, opsOther.walk other t = ops.walk s t)
    (related : R s other)
    (binds : ∀ v t, Bindings.Meets (ops.walk s) a b v t →
      c.Related (Option.Rel R) (ops.bindVar s v t) (opsOther.bindVar other v t))
    (below : ∀ f as bs, ops.walk s a = .compound f as → ops.walk s b = .compound f bs →
      as.length = bs.length → c.Related (Option.Rel R) (Bindings.unifyPairs unify s as bs)
        (Bindings.unifyPairs unifyOther other as bs)) :
    c.Related (Option.Rel R) (ops.unifyRound unify s a b)
      (opsOther.unifyRound unifyOther other a b) :=
  Bindings.unifyRound_abreast unify unifyOther (motive := c.Related (Option.Rel R)) walks
    (fun _ => c.pure (.some related)) (fun _ => c.pure (.some related)) binds below
    (fun _ => c.pure .none)

theorem unifyRound (walks : ∀ t, opsOther.walk other t = ops.walk s t) (related : R s other)
    (binds : ∀ v t, Bindings.Meets (ops.walk s) a b v t →
      c.Related (Option.Rel R) (ops.bindVar s v t) (opsOther.bindVar other v t))
    (below : ∀ f as bs, ops.walk s a = .compound f as → ops.walk s b = .compound f bs →
      c.Related (Option.Rel R) (Bindings.unifyPairs unify s as bs)
        (Bindings.unifyPairs unifyOther other as bs)) :
    c.Related (Option.Rel R) (ops.unifyRound unify s a b)
      (opsOther.unifyRound unifyOther other a b) :=
  c.unifyRound_of_length_eq walks related binds fun f as bs left right _ =>
    below f as bs left right

end Rounds

/-! ## Computations that may have no end -/

/-- Both computations end, and their results are related. -/
def ending : Coupling (Except Unending) where
  Related R x y := ∃ a b, R a b ∧ x = .ok a ∧ y = .ok b
  pure holds := ⟨_, _, holds, rfl, rfl⟩
  bind := by
    rintro _ _ _ _ _ _ _ _ f g ⟨a, b, holds, rfl, rfl⟩ later
    exact later a b holds

/-- Both computations end and their results are related, or neither has an end. -/
def alike : Coupling (Except Unending) where
  Related R x y := (∃ a b, R a b ∧ x = .ok a ∧ y = .ok b) ∨
    x = .error .unending ∧ y = .error .unending
  pure holds := .inl ⟨_, _, holds, rfl, rfl⟩
  bind := by
    rintro _ _ _ _ _ _ _ _ f g (⟨a, b, holds, rfl, rfl⟩ | ⟨rfl, rfl⟩) later
    · exact later a b holds
    · exact .inr ⟨rfl, rfl⟩

/-- If the first computation ends, the second does too, and their results are related. -/
def following : Coupling (Except Unending) where
  Related R x y := ∀ a, x = .ok a → ∃ b, y = .ok b ∧ R a b
  pure holds := by
    rintro _ ⟨⟩
    exact ⟨_, rfl, holds⟩
  bind := by
    rintro _ _ _ _ _ _ x y f g related later c ended
    cases x with
    | error e => cases ended
    | ok a =>
        obtain ⟨b, rfl, holds⟩ := related a rfl
        exact later a b holds c ended

end Coupling

end RelationalSolver
