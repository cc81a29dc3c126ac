import RelationalSolver.Config.Toml.Settings
import RelationalSolver.Config.Yaml.Settings

/-!
# Reading configurations

A configuration is read from a text in one of two formats, and checked.
-/

namespace RelationalSolver

/-- The formats of configurations. -/
inductive ConfigFormat where
  | toml
  | yaml
deriving DecidableEq

namespace ConfigFormat

/-- The text cannot be read. -/
def error : ConfigFormat → ConfigError
  | .toml => .toml
  | .yaml => .yaml

/-- Read a text. -/
def config? : ConfigFormat → String → Option QueryConfig
  | .toml, text => Toml.config? text
  | .yaml, text => Yaml.config? text

end ConfigFormat

namespace QueryConfig

/-- Read a configuration and refuse values that cannot drive a query. -/
def parse (format : ConfigFormat) (text : String) : Except ConfigError QueryConfig :=
  match format.config? text with
  | none => .error format.error
  | some config =>
      match config.validate with
      | .ok () => .ok config
      | .error cause => .error (.invalid cause)

/-- Read a configuration from what a file holds, if there is such a file. -/
def load (format : ConfigFormat) (contents : Option String) : Except ConfigError QueryConfig :=
  match contents with
  | some text => parse format text
  | none => .error .io

end QueryConfig

end RelationalSolver
