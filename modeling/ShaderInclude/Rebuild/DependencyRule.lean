import ShaderInclude.Text.Basic

/-!
# Dependency rules for Make

A rule is the target, a colon, and each dependency after a space, on one line. In names a
backslash is written as a slash, a space gets a backslash before it, and a dollar is doubled.
Dependencies are sorted as they are written, so a rule does not depend on their order.
-/

namespace ShaderInclude

namespace DependencyRule

/-- How a character of a name is written. -/
def escapeChar (c : Char) : Text :=
  if c = '\\' then ['/'] else if c = ' ' then ['\\', ' '] else if c = '$' then ['$', '$'] else [c]

/-- How a name is written. -/
def escape (name : Text) : Text := name.flatMap escapeChar

/-- The rule of a target and its dependencies. -/
def rule (target : Text) (dependencies : List Text) : Text :=
  escape target ++ ':' :: (Text.sort (dependencies.map escape)).flatMap (' ' :: ·) ++ ['\n']

end DependencyRule

end ShaderInclude
