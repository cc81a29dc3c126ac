/-!
# Query configuration

Limits, randomness and planning of a query, as they are configured.
-/

namespace RelationalSolver

/-- Whether random choices that are not seeded may differ from run to run. -/
inductive EnvironmentMode where
  | nonReproducible
  | reproducible
deriving DecidableEq, Inhabited

/-- The name of a mode. -/
def EnvironmentMode.name : EnvironmentMode → String
  | .nonReproducible => "non_reproducible"
  | .reproducible => "reproducible"

/-- When a run ends early. -/
structure Limits where
  solutionLimit : Option Nat
  stepLimit : Option Nat
  secondsSpentLimit : Option Nat
  millisSpentLimit : Option Nat
deriving DecidableEq, Inhabited

/-- A configured planning pass. -/
inductive PassConfig where
  | chainSharedVars
  | relevance
  | cardinality
  /-- With a seed of its own, or that of the query. -/
  | randomizeOrder (seed : Option Nat)
deriving DecidableEq, Inhabited

/-- Everything that can be configured about a query. -/
structure QueryConfig where
  environmentMode : EnvironmentMode
  randomSeed : Option Nat
  occursCheck : Bool
  termination : Option Limits
  /-- Nothing selects the default passes; an empty list disables planning. -/
  heuristics : Option (List PassConfig)
deriving DecidableEq, Inhabited

/-- Values that can be read but cannot drive a query. -/
inductive Inconsistency where
  | zeroSolutionLimit
  | repeatedPass (kind : String)
deriving DecidableEq

/-- What is inconsistent. -/
def Inconsistency.message : Inconsistency → String
  | .zeroSolutionLimit => "termination.solution_limit must be at least 1"
  | .repeatedPass kind => "heuristic `" ++ kind ++ "` is listed more than once"

/-- Names the inconsistency as such. -/
def Inconsistency.text (cause : Inconsistency) : String :=
  "Invalid configuration: " ++ cause.message

/-- Why there is no configuration. -/
inductive ConfigError where
  | io
  | toml
  | yaml
  | invalid (cause : Inconsistency)
deriving DecidableEq

namespace Limits

/-- No limit at all. -/
def none : Limits := ⟨.none, .none, .none, .none⟩

/-- The limits by name. -/
def toList (limits : Limits) : List (String × Option Nat) :=
  [("solution_limit", limits.solutionLimit), ("step_limit", limits.stepLimit),
    ("seconds_spent_limit", limits.secondsSpentLimit),
    ("millis_spent_limit", limits.millisSpentLimit)]

/-- The names of the limits. -/
def names : List String := none.toList.map (·.1)

/-- The largest time that can be configured, in milliseconds. -/
def maxMillis : Nat := 0xffffffffffffffff

/-- The time limit in milliseconds: seconds and milliseconds together.  No time
at all is no limit. -/
def timeLimit (limits : Limits) : Option Nat :=
  let seconds := min (limits.secondsSpentLimit.getD 0 * 1000) maxMillis
  let millis := min (seconds + limits.millisSpentLimit.getD 0) maxMillis
  if 0 < millis then some millis else .none

/-- Nothing ends a run early. -/
def isUnbounded (limits : Limits) : Bool :=
  limits.solutionLimit.isNone && limits.stepLimit.isNone && limits.timeLimit.isNone

end Limits

namespace PassConfig

/-- The kind under which a pass is configured. -/
def kind : PassConfig → String
  | .chainSharedVars => "chain_shared_vars"
  | .relevance => "relevance"
  | .cardinality => "cardinality"
  | .randomizeOrder _ => "randomize_order"

/-- The passes of a query that configures none. -/
def defaults : List PassConfig :=
  [.chainSharedVars, .relevance, .cardinality, .randomizeOrder none]

/-- The first kind that was listed before. -/
def repeatedKind (seen : List String) : List PassConfig → Option String
  | [] => none
  | pass :: passes =>
      if pass.kind ∈ seen then some pass.kind else repeatedKind (pass.kind :: seen) passes

end PassConfig

namespace QueryConfig

/-- The configuration that sets nothing. -/
def default : QueryConfig := ⟨.nonReproducible, none, false, none, none⟩

/-- Seed of reproducible queries that configure none. -/
def defaultSeed : Nat := 0

/-- Refuse values that cannot drive a query. -/
def validate (config : QueryConfig) : Except Inconsistency Unit := do
  if (config.termination.bind (·.solutionLimit)) = some 0 then throw .zeroSolutionLimit
  match PassConfig.repeatedKind [] (config.heuristics.getD []) with
  | some kind => throw (.repeatedPass kind)
  | none => pure ()

/-- The seed of random passes, if runs must repeat: the configured one, or the
default seed of the reproducible mode. -/
def effectiveSeed (config : QueryConfig) : Option Nat :=
  match config.randomSeed, config.environmentMode with
  | some seed, _ => some seed
  | none, .reproducible => some defaultSeed
  | none, .nonReproducible => none

/-- The configured time limit in milliseconds. -/
def timeLimit (config : QueryConfig) : Option Nat := config.termination.bind (·.timeLimit)

/-- Change the limits, starting from none if there were none. -/
def withLimits (config : QueryConfig) (change : Limits → Limits) : QueryConfig :=
  { config with termination := some (change (config.termination.getD .none)) }

/-- Stop after so many solutions. -/
def withSolutionLimit (config : QueryConfig) (limit : Nat) : QueryConfig :=
  config.withLimits ({ · with solutionLimit := some limit })

/-- Stop after so many forced suspensions. -/
def withStepLimit (config : QueryConfig) (limit : Nat) : QueryConfig :=
  config.withLimits ({ · with stepLimit := some limit })

/-- Stop after so many seconds. -/
def withSeconds (config : QueryConfig) (limit : Nat) : QueryConfig :=
  config.withLimits ({ · with secondsSpentLimit := some limit })

/-- Stop after so many milliseconds. -/
def withMillis (config : QueryConfig) (limit : Nat) : QueryConfig :=
  config.withLimits ({ · with millisSpentLimit := some limit })

/-- Append a pass, starting from an empty list if there was none. -/
def withPass (config : QueryConfig) (pass : PassConfig) : QueryConfig :=
  { config with heuristics := some (config.heuristics.getD [] ++ [pass]) }

end QueryConfig

end RelationalSolver
