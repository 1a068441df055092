import ShaderInclude.Text.Basic

/-!
# Log lines

What the program tells about its own work, by level and by the part of the program that speaks.
A line is written as its level, the name of the part, and the message.
-/

namespace ShaderInclude

/-- How important a line is. -/
inductive LogLevel where
  | debug
  | info
  | warning
deriving DecidableEq

/-- The level in writing. -/
def LogLevel.text : LogLevel → String
  | debug => "DEBUG"
  | info => "INFO"
  | warning => "WARNING"

/-- The part of the program that speaks. -/
inductive LogOrigin where
  | settings
  | modules
  | cache
  | validation
  | commandLine
  | editor
deriving DecidableEq

/-- The name of a part in the log. -/
def LogOrigin.text : LogOrigin → String
  | settings => "wgsl_modules.config"
  | modules => "wgsl_modules.module"
  | cache => "wgsl_modules.module_cache"
  | validation => "wgsl_modules.validator"
  | commandLine => "wgsl_modules.cli"
  | editor => "wgsl_modules.lsp.server"

/-- A line of the log. -/
structure LogLine where
  level : LogLevel
  origin : LogOrigin
  message : Text
deriving DecidableEq

namespace LogLine

/-- Whether the line is shown: warnings always, the others on demand. -/
def isShown (verbose : Bool) (l : LogLine) : Bool := verbose || l.level = .warning

/-- The line in writing, with its newline. -/
def text (l : LogLine) : Text :=
  l.level.text.toList ++ ' ' :: l.origin.text.toList ++ ':' :: ' ' :: l.message ++ ['\n']

end LogLine

end ShaderInclude
