import RelationalSolver.Query.Termination
import RelationalSolver.Stream.Run

/-!
# Queries

A query is a goal with the variables to report and a root context that every run
starts from.  The root carries the hooks, the planning pipeline and the setting
of the occurrence check.
-/

namespace RelationalSolver

/-- Why a query cannot be built or a run ended. -/
inductive SolverError where
  | config (cause : Inconsistency)
  /-- A projected variable does not occur in the goal. -/
  | unknownVariable (v : Var)
  | wildcardProjection
  | facetCollision (c : Collision)
  | invariant (fault : Fault)
deriving DecidableEq

/-- The kind of an error. -/
def SolverError.kind : SolverError → String
  | .config _ => "Config"
  | .unknownVariable _ => "UnknownVariable"
  | .wildcardProjection => "WildcardProjection"
  | .facetCollision _ => "Core"
  | .invariant _ => "Invariant"

/-- What is wrong, in the way that the caller tells facets apart. -/
def SolverError.message (label : FacetKey → String) : SolverError → String
  | .config cause => "Configuration error: " ++ cause.text
  | .unknownVariable v => "Projected variable " ++ v.text ++ " does not occur in the goal"
  | .wildcardProjection => "The wildcard variable cannot be projected"
  | .facetCollision c => c.message label
  | .invariant fault =>
      "Invariant violated in " ++ fault.subject ++ ": " ++ fault.message label

/-- A goal ready to be solved. -/
structure Query where
  goal : Goal
  /-- The variables to report, without duplicates. -/
  projection : List Var
  /-- The context that every run starts from. -/
  root : Context
  termination : Option Termination

/-- What a query is built from. -/
structure QuerySetup where
  /-- The goals that have to hold together. -/
  goals : List Goal
  projection : List Var
  config : QueryConfig
  hooks : Registry
  /-- Planning passes after the configured ones. -/
  passes : Pipeline
  termination : Option Termination
  /-- What the search starts from. -/
  context : Context

namespace QuerySetup

/-- A setup with a goal and nothing else. -/
def ofGoal (goal : Goal) : QuerySetup where
  goals := [goal]
  projection := []
  config := .default
  hooks := .empty
  passes := []
  termination := none
  context := .empty

/-- Report one more variable. -/
def project (setup : QuerySetup) (v : Var) : QuerySetup :=
  { setup with projection := appendNew setup.projection v }

/-- Add a termination to those there are. -/
def terminate (setup : QuerySetup) (t : Termination) : QuerySetup :=
  { setup with termination := Termination.orElse setup.termination (some t) }

/-- Report more variables. -/
def projectAll (setup : QuerySetup) (vars : List Var) : QuerySetup := vars.foldl project setup

/-- Add several terminations to those there are. -/
def terminateAll (setup : QuerySetup) (terminations : List Termination) : QuerySetup :=
  terminations.foldl terminate setup

/-- The goal of the query: a single one as it is, several as a conjunction. -/
def goal (setup : QuerySetup) : Goal :=
  match setup.goals with
  | [goal] => goal
  | goals => .conj goals []

/-- A variable can be reported: it is not the wildcard, and it occurs in the goal
if the goal reports its variables. -/
def checkProjection (goal : Goal) : List Var → Except SolverError Unit
  | [] => pure ()
  | v :: vs => do
      if v = .wildcard then throw .wildcardProjection
      if let some vars := goal.vars? then
        if v ∉ vars then throw (.unknownVariable v)
      checkProjection goal vs

/-- A planning pass as configured.  A random one without any seed takes the one
that is handed in. -/
def passOf (config : QueryConfig) (entropy : UInt64) : PassConfig → Pass
  | .chainSharedVars => .chainSharedVars
  | .relevance => .relevance
  | .cardinality => .cardinality
  | .randomizeOrder seed =>
      match seed.or config.effectiveSeed with
      | some seed => .randomizeOrder seed.toUInt64
      | none => .randomizeOrder entropy

/-- The random passes that have no seed. -/
def unseeded (config : QueryConfig) (passes : List PassConfig) : List PassConfig :=
  passes.filter fun
    | .randomizeOrder seed => (seed.or config.effectiveSeed).isNone
    | _ => false

/-- The configured planning pipeline, and the notices it gives. -/
def configuredPasses (config : QueryConfig) (entropy : UInt64) : Pipeline × List Notice :=
  let passes := config.heuristics.getD PassConfig.defaults
  (passes.map (passOf config entropy),
    (unseeded config passes).map fun _ => .unseededShuffle)

/-- The root context: the starting context with the facets of the solver. -/
def rootOf (setup : QuerySetup) (pipeline : Pipeline) : Except Collision Context := do
  let check := if setup.config.occursCheck then .enabled else .disabled
  let root ← setup.context.trySet .unification check
  let root ← if setup.hooks.isEmpty then pure root else root.trySet .hooks setup.hooks
  root.trySet .planner pipeline

/-- Build the query.  The configuration is checked first, then the projection,
then the names of the facets.  `entropy` seeds what nothing else seeds. -/
def build (setup : QuerySetup) (entropy : UInt64) : Engine (Except SolverError Query) := do
  match setup.config.validate with
  | .error cause => return .error (.config cause)
  | .ok () => pure ()
  let goal := setup.goal
  match checkProjection goal setup.projection with
  | .error e => return .error e
  | .ok () => pure ()
  let (configured, notices) := configuredPasses setup.config entropy
  let pipeline := configured ++ setup.passes
  notices.forM Engine.notify
  let termination := Termination.orElse (Termination.ofConfig setup.config) setup.termination
  Engine.notify (.queryBuilt setup.projection.length pipeline.length setup.config.occursCheck
    termination.isSome)
  match setup.rootOf pipeline with
  | .error c => return .error (.facetCollision c)
  | .ok root => return .ok ⟨goal, setup.projection, root, termination⟩

end QuerySetup

end RelationalSolver
