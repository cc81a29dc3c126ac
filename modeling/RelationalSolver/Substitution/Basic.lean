import RelationalSolver.Term.Order

/-!
# Triangular substitutions

A substitution binds variables to terms.  A bound term may hold variables that
are bound elsewhere in the same substitution, so the value of a variable is
found by walking: following bindings until an atom, a compound or an unbound
variable is reached.
-/

namespace RelationalSolver

/-- Direct bindings of variables to terms. -/
structure Substitution where
  bindings : Std.TreeMap Var Term

namespace Substitution

/-- The substitution that binds nothing. -/
def empty : Substitution := ⟨∅⟩

instance : Inhabited Substitution := ⟨empty⟩

/-- The term bound directly to a variable. -/
def lookup (s : Substitution) (v : Var) : Option Term := s.bindings[v]?

/-- The variable has a binding of its own. -/
def isBound (s : Substitution) (v : Var) : Bool := s.bindings.contains v

/-- Number of bound variables. -/
def size (s : Substitution) : Nat := s.bindings.size

/-- The direct bindings, by variable. -/
def toList (s : Substitution) : List (Var × Term) := s.bindings.toList

/-- Bind a variable directly, replacing any binding it had. -/
def insert (s : Substitution) (v : Var) (t : Term) : Substitution := ⟨s.bindings.insert v t⟩

@[simp] theorem lookup_empty (v : Var) : empty.lookup v = none := by
  simp [empty, lookup]

theorem lookup_insert (s : Substitution) (v w : Var) (t : Term) :
    (s.insert v t).lookup w = if v = w then some t else s.lookup w := by
  simp [insert, lookup, Std.TreeMap.getElem?_insert]

theorem isBound_eq (s : Substitution) (v : Var) : s.isBound v = (s.lookup v).isSome := by
  simp [isBound, lookup]

/-- Follow at most `steps` bindings, and report the variables passed through. -/
def walkChainWithin (s : Substitution) : Nat → Term → Term × List Var
  | steps + 1, .var v =>
      match s.lookup v with
      | some t =>
          let (value, chain) := walkChainWithin s steps t
          (value, v :: chain)
      | none => (.var v, [])
  | _, t => (t, [])

/-- Follow at most `steps` bindings. -/
def walkWithin (s : Substitution) : Nat → Term → Term
  | steps + 1, .var v =>
      match s.lookup v with
      | some t => walkWithin s steps t
      | none => .var v
  | _, t => t

/-- The representative of a term: only its top level is resolved.  A chain of
variables without a repetition is never longer than the number of bindings. -/
def walk (s : Substitution) (t : Term) : Term := s.walkWithin s.size t

/-- Walk, and report the bound variables passed through in walk order. -/
def walkChain (s : Substitution) (t : Term) : Term × List Var := s.walkChainWithin s.size t

theorem walkChainWithin_fst (s : Substitution) :
    ∀ (steps : Nat) (t : Term), (s.walkChainWithin steps t).1 = s.walkWithin steps t := by
  intro steps
  induction steps with
  | zero => intro t; cases t <;> rfl
  | succ steps ih =>
      intro t
      cases t with
      | var v =>
          cases bound : s.lookup v with
          | none => simp [walkChainWithin, walkWithin, bound]
          | some t => simp [walkChainWithin, walkWithin, bound, ih t]
      | atom a => rfl
      | compound f args => rfl

@[simp] theorem walkChain_fst (s : Substitution) (t : Term) : (s.walkChain t).1 = s.walk t :=
  s.walkChainWithin_fst s.size t

@[simp] theorem walkWithin_atom (s : Substitution) (steps : Nat) (a : Atom) :
    s.walkWithin steps (.atom a) = .atom a := by
  cases steps <;> rfl

@[simp] theorem walkWithin_compound (s : Substitution) (steps : Nat) (f : String)
    (args : List Term) : s.walkWithin steps (.compound f args) = .compound f args := by
  cases steps <;> rfl

@[simp] theorem walk_atom (s : Substitution) (a : Atom) : s.walk (.atom a) = .atom a :=
  s.walkWithin_atom _ a

@[simp] theorem walk_compound (s : Substitution) (f : String) (args : List Term) :
    s.walk (.compound f args) = .compound f args :=
  s.walkWithin_compound _ f args

/-- Bind a variable to a term.  The wildcard is never bound, and neither is a
variable to a term that walks back to it. -/
def extend (s : Substitution) (v : Var) (t : Term) : Option Substitution :=
  if v = .wildcard ∨ s.walk t = .var v then none else some (s.insert v t)

/-- Bind every variable of a chain directly to the value it walks to. -/
def condense (s : Substitution) (chain : List Var) (value : Term) : Substitution :=
  chain.foldl (fun s v => if value = .var v then s else s.insert v value) s

end Substitution

end RelationalSolver
