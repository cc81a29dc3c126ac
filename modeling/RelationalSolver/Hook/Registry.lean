import RelationalSolver.Goal.Basic
import RelationalSolver.Hook.Event

/-!
# Hooks

Observers watch a search: they are subscribed to event keys and cannot change
anything.  Bind hooks run after a binding and its propagation, and may reject it
or extend the context.  Walk hooks see the chains of variables that unification
walks through.  A registry holds the hooks of one query.
-/

namespace RelationalSolver

/-- What an observer does with the events it receives. -/
inductive Observer where
  /-- Record them, under a number. -/
  | recorder (number : Nat)
  /-- Count them by kind, under a number. -/
  | tally (number : Nat)
  /-- Write them to the log, with a label in front. -/
  | logger (label : String)
deriving DecidableEq, Inhabited

/-- Which bindings a bind hook acts on. -/
inductive BindGuard where
  | always
  | ofVar (v : Var)
  | toTerm (t : Term)
  /-- Bindings after the first so many of the branch. -/
  | after (count : Nat)

/-- What a bind hook does with the binding. -/
inductive BindAction where
  | reject
  | bump (counter : String)
  | setFacet (facet : CustomFacet) (value : Int)
  | addToFacet (facet : CustomFacet) (amount : Int)
  | unify (a b : Term)
  | constrain (c : Constraint)

/-- One step of the binding pipeline. -/
structure BindHook where
  guard : BindGuard
  action : BindAction

/-- Number of nodes of the terms that the hook unifies. -/
def BindHook.nodes (hook : BindHook) : Nat :=
  match hook.action with
  | .unify a b => a.size + b.size
  | _ => 0

/-- Condense every walked chain of at least so many variables. -/
structure WalkHook where
  minLength : Nat

/-- Observers by key, in order of subscription, and the hooks of both pipelines. -/
structure Registry where
  observers : List (EventKey × List Observer)
  bindHooks : List BindHook
  walkHooks : List WalkHook
deriving Inhabited

namespace Registry

/-- The registry without hooks. -/
def empty : Registry := ⟨[], [], []⟩

/-- Add an observer after those of the same key. -/
def subscribeIn (key : EventKey) (observer : Observer) :
    List (EventKey × List Observer) → List (EventKey × List Observer)
  | [] => [(key, [observer])]
  | (other, observers) :: rest =>
      if other = key then (other, observers ++ [observer]) :: rest
      else (other, observers) :: subscribeIn key observer rest

/-- Subscribe an observer to a key and everything below it. -/
def subscribe (r : Registry) (key : EventKey) (observer : Observer) : Registry :=
  { r with observers := subscribeIn key observer r.observers }

/-- Append a hook to the binding pipeline. -/
def addBindHook (r : Registry) (hook : BindHook) : Registry :=
  { r with bindHooks := r.bindHooks ++ [hook] }

/-- Append a hook to the walk pipeline. -/
def addWalkHook (r : Registry) (hook : WalkHook) : Registry :=
  { r with walkHooks := r.walkHooks ++ [hook] }

/-- A registry with all hooks at once.  Recorders and tallies are numbered in
order; the recorders are subscribed first and the loggers, with their labels,
last. -/
def ofHooks (recorded tallied : List EventKey) (logged : List (EventKey × String))
    (bindHooks : List BindHook) (walkHooks : List WalkHook) : Registry :=
  let observers := recorded.zipIdx.map (fun (key, i) => (key, Observer.recorder i)) ++
    tallied.zipIdx.map (fun (key, i) => (key, .tally i)) ++
    logged.map (fun (key, label) => (key, .logger label))
  observers.foldl (fun r (key, observer) => r.subscribe key observer) ⟨[], bindHooks, walkHooks⟩

/-- The observers of exactly this key, in order of subscription. -/
def observersOf (r : Registry) (key : EventKey) : List Observer :=
  (r.observers.lookup key).getD []

/-- The initial segments of a key, the longest first. -/
def segments (key : EventKey) : List EventKey :=
  (List.range (key.length + 1)).reverse.map fun length => key.take length

/-- Who receives an event: the subscribers of its key and of everything above
it, from the special to the general. -/
def receivers (r : Registry) (key : EventKey) : List Observer :=
  (segments key).flatMap r.observersOf

/-- Something is subscribed to the key or above it. -/
def isObserved (r : Registry) (key : EventKey) : Bool :=
  (segments key).any fun segment => (r.observers.lookup segment).isSome

/-- Number of subscriptions. -/
def observerCount (r : Registry) : Nat :=
  r.observers.foldl (fun total entry => total + entry.2.length) 0

/-- Nothing is registered. -/
def isEmpty (r : Registry) : Bool :=
  r.observers.isEmpty && r.bindHooks.isEmpty && r.walkHooks.isEmpty

/-- Number of nodes of the terms that bind hooks unify. -/
def nodes (r : Registry) : Nat :=
  r.bindHooks.foldl (fun total hook => total + hook.nodes) 0

end Registry

end RelationalSolver
