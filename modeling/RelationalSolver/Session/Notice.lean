import RelationalSolver.Hook.Event
import RelationalSolver.Term.Text

/-!
# Log notices

The engine writes notices about what it does into a log.  A notice has a level
and named fields.
-/

namespace RelationalSolver

/-- How much detail a notice is about, from the coarse to the fine. -/
inductive LogLevel where
  | info
  | debug
  | trace
deriving DecidableEq

/-- The name of a level. -/
def LogLevel.text : LogLevel → String
  | .info => "INFO"
  | .debug => "DEBUG"
  | .trace => "TRACE"

/-- A notice of one level is part of a log that goes down to another. -/
def LogLevel.includes : LogLevel → LogLevel → Bool
  | .trace, _ => true
  | .debug, .trace => false
  | .debug, _ => true
  | .info, .info => true
  | .info, _ => false

/-- The value of a field. -/
inductive FieldValue where
  | text (value : String)
  | count (value : Nat)
  | flag (value : Bool)

/-- What the engine reports. -/
inductive Notice where
  | queryBuilt (projected passes : Nat) (occursCheck terminates : Bool)
  | queryStarted (projected : Nat) (goal : String)
  | queryEnded (steps solutions : Nat) (terminatedEarly : Bool)
  | terminated (steps solutions : Nat)
  | planned (before after : Nat) (failed : Bool)
  | conjunction (goals : Nat)
  | emptyRelation (v : Var)
  | emptyDomain (v : Var)
  | zeroCardinality (run : Nat)
  | unseededShuffle
  | rowSucceeded (relation : String) (index : Nat)
  | rowFailed (relation : String) (index : Nat)
  /-- An event that a logging observer received. -/
  | observed (label : String) (key : EventKey) (payload : Payload)

namespace Notice

/-- The start and end of a run are information; single rows, bindings and new
variables are the finest detail. -/
def level : Notice → LogLevel
  | .queryStarted _ _ => .info
  | .queryEnded _ _ _ => .info
  | .conjunction _ => .trace
  | .rowSucceeded _ _ => .trace
  | .rowFailed _ _ => .trace
  | .observed _ _ payload =>
      match payload with
      | .fresh _ | .bind _ _ | .condense _ _ | .row _ _ _ => .trace
      | _ => .debug
  | _ => .debug

/-- The fields of a payload. -/
def payloadFields : Payload → List (String × FieldValue)
  | .fresh vars => [("count", .count vars.length)]
  | .bind v t => [("var", .text v.text), ("term", .text t.text)]
  | .condense value chain => [("value", .text value.text), ("chain", .count chain.length)]
  | .violation v name => [("var", .text v.text), ("constraint", .text name)]
  | .row relation index total =>
      [("relation", .text relation), ("index", .count index), ("total", .count total)]
  | .solution index => [("index", .count index)]
  | .lifecycle steps solutions => [("steps", .count steps), ("solutions", .count solutions)]
  | .nothing => []

/-- The fields of a notice. -/
def fields : Notice → List (String × FieldValue)
  | .queryBuilt projected passes occursCheck terminates =>
      [("event", .text "query_built"), ("projected", .count projected),
        ("passes", .count passes), ("occurs_check", .flag occursCheck),
        ("terminates", .flag terminates)]
  | .queryStarted projected goal =>
      [("event", .text "query_start"), ("projected", .count projected), ("goal", .text goal)]
  | .queryEnded steps solutions terminatedEarly =>
      [("event", .text "query_end"), ("steps", .count steps), ("solutions", .count solutions),
        ("terminated_early", .flag terminatedEarly)]
  | .terminated steps solutions =>
      [("event", .text "terminated"), ("steps", .count steps), ("solutions", .count solutions)]
  | .planned before after failed =>
      [("event", .text "plan"), ("goals_in", .count before), ("goals_out", .count after),
        ("failed", .flag failed)]
  | .conjunction goals => [("event", .text "conj"), ("goals", .count goals)]
  | .emptyRelation v => [("event", .text "relevance_empty_relation"), ("var", .text v.text)]
  | .emptyDomain v => [("event", .text "relevance_empty_domain"), ("var", .text v.text)]
  | .zeroCardinality run => [("event", .text "cardinality_zero"), ("run", .count run)]
  | .unseededShuffle => [("event", .text "randomize_from_entropy")]
  | .rowSucceeded relation index =>
      [("event", .text "row_succeeded"), ("relation", .text relation), ("index", .count index)]
  | .rowFailed relation index =>
      [("event", .text "row_failed"), ("relation", .text relation), ("index", .count index)]
  | .observed label key payload =>
      [("prefix", .text label), ("key", .text key.dotted)] ++ payloadFields payload

end Notice

end RelationalSolver
