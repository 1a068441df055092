import ShaderInclude.Text.Basic

/-!
# Lines of a text

The lines of a text as a reader of it sees them: besides newlines and carriage returns also the
other line and page ends of Unicode count, and the separators of files, groups and records. A
carriage return and a newline after it end one line together.
-/

namespace ShaderInclude

namespace Text

/-- A character that ends a line. -/
def endsLine (c : Char) : Bool :=
  ('\n' ≤ c && c ≤ '\r') || ('\x1c' ≤ c && c ≤ '\x1e') || c = '\u0085' || c = '\u2028' ||
    c = '\u2029'

/-- Put a character in front of the first line. -/
def addToFirst (c : Char) : List Text → List Text
  | [] => [[c]]
  | line :: lines => (c :: line) :: lines

/-- The lines of a text, without their ends. After the end of the last line there is no further
one. -/
def lines : Text → List Text
  | [] => []
  | '\r' :: '\n' :: t => [] :: lines t
  | c :: t => if endsLine c then [] :: lines t else addToFirst c (lines t)

/-- The last line of a text, which is empty if the text is. -/
def lastLine (t : Text) : Text := (lines t).getLast?.getD []

end Text

end ShaderInclude
