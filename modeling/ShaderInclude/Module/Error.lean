import ShaderInclude.Fault

/-!
# Why a module could not be loaded

A module error is a finding about the modules: the program reports it to the user. A load may
also end with a fault, which it hands on.
-/

namespace ShaderInclude

/-- A finding that keeps a module from being loaded. -/
inductive ModuleError where
  /-- A source could not be read. -/
  | unreadable (path : Path) (cause : ReadFailure)
  /-- The module `referrer` includes a module that is still being resolved. -/
  | circular (path referrer : Path)
  /-- A path without a directory for its includes. -/
  | noDirectory (path : Path)
  /-- The validator refused the flattened source. -/
  | rejected (message : Text)
  /-- The validator's tool could not be started. -/
  | toolMissing (executable : Text)
deriving DecidableEq

namespace ModuleError

/-- The message of a module error. -/
def message : ModuleError → Text
  | unreadable path cause => cause.text.toList ++ ' ' :: '\'' :: path.render ++ ['\'']
  | circular path referrer =>
    "circular dependency ".toList ++ path.render ++ " from ".toList ++ referrer.render
  | noDirectory path => "invalid path '".toList ++ path.render ++ ['\'']
  | rejected message => message
  | toolMissing executable =>
    "validator executable '".toList ++ executable ++ "' not found".toList

/-- The path that a module error is about, if it is about one. -/
def path? : ModuleError → Option Path
  | unreadable path _ | circular path _ | noDirectory path => some path
  | rejected _ | toolMissing _ => none

end ModuleError

/-- Why a load ended without a module. -/
inductive LoadError where
  | finding (error : ModuleError)
  | fault (fault : Fault)
deriving DecidableEq

end ShaderInclude
