import Reindent.Glob.Basic
import Reindent.Path.Basic

/-!
# Reindent.Config.Error

What stops a run before any file is touched.
-/

namespace Reindent

inductive ConfigFormat where
  | toml
  | yaml
  deriving DecidableEq, Repr

inductive ConfigError where
  | unreadable (path : Path) (reason : String)
  /-- The file does not hold a configuration in its format. -/
  | invalid (format : ConfigFormat) (path : Path)
  | unknownOutput (mode : Text)
  | badPattern (pattern : Text) (error : Glob.Error)
  deriving DecidableEq, Repr

namespace ConfigError

def formatName : ConfigFormat → String
  | .toml => "TOML"
  | .yaml => "YAML"

def message : ConfigError → String
  | unreadable path reason => s!"failed to read {String.ofList path.spelling}: {reason}"
  | invalid format path =>
    s!"invalid {String.ofList path.spelling}: no configuration in {formatName format}"
  | unknownOutput mode => s!"unknown output mode `{String.ofList mode}` (expected human|json)"
  | badPattern pattern error =>
    s!"invalid glob pattern `{String.ofList pattern}`: {error.message}"

end ConfigError

end Reindent
