import ShaderInclude.Text.Printable

/-!
# Quoted text

Messages quote a text in single quotes, or in double quotes if it holds a single quote and no
double one. The quote in use and the backslash get a backslash before them; tab, newline and
carriage return are written `\t`, `\n` and `\r`; other characters that are not printable are
written by their number in two, four or eight hexadecimal digits.
-/

namespace ShaderInclude

namespace Text

/-- The number of a character in `width` hexadecimal digits. -/
def hexDigits (width n : Nat) : Text :=
  let digits := Nat.toDigits 16 n
  List.replicate (width - digits.length) '0' ++ digits

/-- A character by its number, in the shortest of three fixed widths. -/
def escapeByNumber (c : Char) : Text :=
  if c.toNat < 0x100 then '\\' :: 'x' :: hexDigits 2 c.toNat
  else if c.toNat < 0x10000 then '\\' :: 'u' :: hexDigits 4 c.toNat
  else '\\' :: 'U' :: hexDigits 8 c.toNat

/-- One character within the given quotes. -/
def escapeWithin (quote c : Char) : Text :=
  if c = quote ∨ c = '\\' then ['\\', c]
  else if c = '\t' then ['\\', 't']
  else if c = '\n' then ['\\', 'n']
  else if c = '\r' then ['\\', 'r']
  else if isPrintable c then [c]
  else escapeByNumber c

/-- The quote that a text is put in. -/
def quoteFor (t : Text) : Char := if '\'' ∈ t ∧ '"' ∉ t then '"' else '\''

/-- The text in quotes. -/
def quoted (t : Text) : Text :=
  quoteFor t :: t.flatMap (escapeWithin (quoteFor t)) ++ [quoteFor t]

end Text

end ShaderInclude
