import RelationalSolver.FirstOccurrence

/-!
# Variables, atoms and terms

A term is a variable, an atomic value, or a functor applied to an ordered list
of arguments.  Everything in this module is syntactic: no bindings are followed.
-/

namespace RelationalSolver

/-- Variables are identity tokens.  A session hands out the numbered ones in
creation order; a named one is a place in the text of a goal, filled in when the
text is used; the wildcard unifies with everything and is never bound. -/
inductive Var where
  | wildcard
  | numbered (ordinal : Nat)
  | named (name : String)
deriving DecidableEq, Inhabited

/-- Atomic values.  Two atoms are equal only if they are of one kind and hold
the same value. -/
inductive Atom where
  | bool (value : Bool)
  | int (value : Int)
  | char (value : Char)
  | str (value : String)
deriving DecidableEq, Inhabited

/-- Logic terms.  A tuple is a compound whose functor is empty. -/
inductive Term where
  | var (v : Var)
  | atom (value : Atom)
  | compound (functor : String) (args : List Term)
deriving Inhabited

namespace Term

/-- Shorthand for an integer atom. -/
abbrev int (value : Int) : Term := .atom (.int value)

/-- Shorthand for a string atom. -/
abbrev str (value : String) : Term := .atom (.str value)

/-- Shorthand for a compound with an empty functor. -/
abbrev tuple (args : List Term) : Term := .compound "" args

mutual

/-- Structural equality, decided without following bindings. -/
def same : Term → Term → Bool
  | .var v, .var w => v = w
  | .atom a, .atom b => a = b
  | .compound f args, .compound g others => f = g && sameAll args others
  | _, _ => false

/-- Structural equality of argument lists, which must have one length. -/
def sameAll : List Term → List Term → Bool
  | [], [] => true
  | a :: as, b :: bs => a.same b && sameAll as bs
  | _, _ => false

end

mutual

theorem eq_of_same : ∀ {a b : Term}, a.same b = true → a = b
  | .var _, .var _, h => by simpa [same] using h
  | .atom _, .atom _, h => by simpa [same] using h
  | .compound _ _, .compound _ _, h => by
      rw [same, Bool.and_eq_true, decide_eq_true_eq] at h
      rw [h.1, eq_of_sameAll h.2]
  | .var _, .atom _, h => by simp [same] at h
  | .var _, .compound _ _, h => by simp [same] at h
  | .atom _, .var _, h => by simp [same] at h
  | .atom _, .compound _ _, h => by simp [same] at h
  | .compound _ _, .var _, h => by simp [same] at h
  | .compound _ _, .atom _, h => by simp [same] at h

theorem eq_of_sameAll : ∀ {as bs : List Term}, sameAll as bs = true → as = bs
  | [], [], _ => rfl
  | a :: as, b :: bs, h => by
      rw [sameAll, Bool.and_eq_true] at h
      rw [eq_of_same h.1, eq_of_sameAll h.2]
  | [], _ :: _, h => by simp [sameAll] at h
  | _ :: _, [], h => by simp [sameAll] at h

end

mutual

theorem same_self : ∀ a : Term, a.same a = true
  | .var _ => by simp [same]
  | .atom _ => by simp [same]
  | .compound _ args => by simp [same, sameAll_self args]

theorem sameAll_self : ∀ as : List Term, sameAll as as = true
  | [] => rfl
  | a :: as => by simp [sameAll, same_self a, sameAll_self as]

end

theorem same_eq_true {a b : Term} : a.same b = true ↔ a = b :=
  ⟨eq_of_same, fun h => h ▸ same_self a⟩

instance : DecidableEq Term := fun _ _ => decidable_of_iff _ same_eq_true

mutual

/-- Number of nodes of a term. -/
def size : Term → Nat
  | .var _ => 1
  | .atom _ => 1
  | .compound _ args => 1 + sizes args

/-- Number of nodes of an argument list. -/
def sizes : List Term → Nat
  | [] => 0
  | t :: ts => t.size + sizes ts

end

theorem size_pos : ∀ t : Term, 0 < t.size
  | .var _ => by simp [size]
  | .atom _ => by simp [size]
  | .compound _ _ => by simp only [size]; omega

mutual

/-- A term without variables. -/
def isGround : Term → Bool
  | .var _ => false
  | .atom _ => true
  | .compound _ args => allGround args

/-- Every argument is ground. -/
def allGround : List Term → Bool
  | [] => true
  | t :: ts => t.isGround && allGround ts

end

mutual

/-- The variable occurs in the text of the term. -/
def mentions (v : Var) : Term → Bool
  | .var w => w = v
  | .atom _ => false
  | .compound _ args => anyMentions v args

/-- The variable occurs in the text of some argument. -/
def anyMentions (v : Var) : List Term → Bool
  | [] => false
  | t :: ts => t.mentions v || anyMentions v ts

end

mutual

/-- Add the variables of a term to those already seen.  The wildcard stands for
nothing in particular and is left out. -/
def addVars (seen : List Var) : Term → List Var
  | .var .wildcard => seen
  | .var v => appendNew seen v
  | .atom _ => seen
  | .compound _ args => addAllVars seen args

/-- Add the variables of an argument list, left to right. -/
def addAllVars (seen : List Var) : List Term → List Var
  | [] => seen
  | t :: ts => addAllVars (t.addVars seen) ts

end

/-- The distinct variables of a term in order of first occurrence. -/
def vars (t : Term) : List Var := t.addVars []

mutual

/-- Put a term in the place of every variable. -/
def mapVars (image : Var → Term) : Term → Term
  | .var v => image v
  | .atom a => .atom a
  | .compound f args => .compound f (mapAllVars image args)

/-- Put a term in the place of every variable of an argument list. -/
def mapAllVars (image : Var → Term) : List Term → List Term
  | [] => []
  | t :: ts => t.mapVars image :: mapAllVars image ts

end

mutual

theorem mapVars_of_isGround (image : Var → Term) :
    ∀ {t : Term}, t.isGround = true → t.mapVars image = t
  | .atom _, _ => rfl
  | .compound _ _, h => by rw [mapVars, mapAllVars_of_allGround image h]
  | .var _, h => by simp [isGround] at h

theorem mapAllVars_of_allGround (image : Var → Term) :
    ∀ {ts : List Term}, allGround ts = true → mapAllVars image ts = ts
  | [], _ => rfl
  | t :: ts, h => by
      rw [allGround, Bool.and_eq_true] at h
      rw [mapAllVars, mapVars_of_isGround image h.1, mapAllVars_of_allGround image h.2]

end

mutual

/-- A term that holds names. -/
def holdsNames : Term → Bool
  | .var (.named _) => true
  | .var _ => false
  | .atom _ => false
  | .compound _ args => anyHoldsNames args

/-- Some argument holds names. -/
def anyHoldsNames : List Term → Bool
  | [] => false
  | t :: ts => t.holdsNames || anyHoldsNames ts

end

mutual

theorem mapVars_of_not_holdsNames {image : Var → Term}
    (keeps : ∀ v : Var, (var v).holdsNames = false → image v = .var v) :
    ∀ {t : Term}, t.holdsNames = false → t.mapVars image = t
  | .var v, h => keeps v h
  | .atom _, _ => rfl
  | .compound _ _, h => by rw [mapVars, mapAllVars_of_not_anyHoldsNames keeps h]

theorem mapAllVars_of_not_anyHoldsNames {image : Var → Term}
    (keeps : ∀ v : Var, (var v).holdsNames = false → image v = .var v) :
    ∀ {ts : List Term}, anyHoldsNames ts = false → mapAllVars image ts = ts
  | [], _ => rfl
  | t :: ts, h => by
      rw [anyHoldsNames, Bool.or_eq_false_iff] at h
      rw [mapAllVars, mapVars_of_not_holdsNames keeps h.1,
        mapAllVars_of_not_anyHoldsNames keeps h.2]

end

@[simp] theorem mapAllVars_eq_map (image : Var → Term) (ts : List Term) :
    mapAllVars image ts = ts.map (·.mapVars image) := by
  induction ts with
  | nil => rfl
  | cons t ts ih => simp [mapAllVars, ih]

/-- The variable that a term is, if it is one. -/
def asVar? : Term → Option Var
  | .var v => some v
  | _ => none

/-- The integer that a term is, if it is one. -/
def asInt? : Term → Option Int
  | .atom (.int value) => some value
  | _ => none

/-- The atom that a term is, if it is one. -/
def asAtom? : Term → Option Atom
  | .atom value => some value
  | _ => none

/-- Functor and arguments of a compound. -/
def asCompound? : Term → Option (String × List Term)
  | .compound functor args => some (functor, args)
  | _ => none

/-- Two compounds have one functor and one number of arguments; for other terms
the question does not arise. -/
def sameShape? : Term → Term → Option Bool
  | .compound f args, .compound g others => some (args.length = others.length && f = g)
  | _, _ => none

end Term

/-- The distinct variables of several terms in order of first occurrence. -/
def varsOf (terms : List Term) : List Var := Term.addAllVars [] terms

end RelationalSolver
