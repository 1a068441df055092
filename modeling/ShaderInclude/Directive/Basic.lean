import ShaderInclude.Text.Position

/-!
# Include directives

A directive is what a scan of a source reports: the form it is written in, the path between its
quotes, and the half-open stretch of the source that its module's text replaces. `Text.splice`
makes that replacement.
-/

namespace ShaderInclude

/-- The two ways to write a directive: `& include "path";` on a line, possibly after `//`, and
`/* & include "path" */` in a block comment. -/
inductive Form where
  | line
  | block
deriving DecidableEq

/-- An include directive in a source. -/
structure Directive where
  form : Form
  /-- The path exactly as written between the quotes. -/
  path : Text
  /-- The offset of the first character that is replaced. -/
  start : Nat
  /-- The offset after the last character that is replaced. -/
  stop : Nat
deriving DecidableEq

/-- Where the directive lies in a source with the given lines. -/
def Directive.span (d : Directive) (index : LineIndex) : Span := index.span d.start d.stop

/-- Put a text in place of the characters between two offsets. -/
def Text.splice (t : Text) (start stop : Nat) (insert : Text) : Text :=
  t.take start ++ insert ++ t.drop stop

/-- Put a text in place of a directive. -/
def Directive.splice (d : Directive) (insert code : Text) : Text :=
  code.splice d.start d.stop insert

end ShaderInclude
