import ShaderInclude.Encoding.Basic
import ShaderInclude.Text.Digit

/-!
# Percent encoding

A character other than ASCII letters, digits and `_.-~/` is written as the bytes of its UTF-8
form, each as a percent sign and two hexadecimal digits in capitals. Decoding takes each stretch
of ASCII text on its own: escapes become bytes, which are then read as UTF-8 with the replacement
character for what is none. A percent sign without two digits stays as it is.
-/

namespace ShaderInclude

namespace Percent

/-- A character that is written as itself. -/
def isPlain (c : Char) : Bool :=
  c.isAlphanum || c = '_' || c = '.' || c = '-' || c = '~' || c = '/'

/-- A hexadecimal digit in capitals. -/
def digitChar (n : Nat) : Char := (Nat.digitChar n).toUpper

/-- A byte as an escape. -/
def escapeByte (b : UInt8) : Text := ['%', digitChar (b.toNat / 16), digitChar (b.toNat % 16)]

/-- How a character is written. -/
def encodeChar (c : Char) : Text :=
  if isPlain c then [c] else (String.utf8EncodeChar c).flatMap escapeByte

/-- How a text is written. -/
def encode (t : Text) : Text := t.flatMap encodeChar

/-- The byte that two hexadecimal digits write. -/
def byte? (a b : Char) : Option UInt8 := do
  let high ← Text.hexValue? a
  let low ← Text.hexValue? b
  return UInt8.ofNat (high * 16 + low)

/-- The bytes of ASCII text with its escapes resolved. -/
def unescape : Text → List UInt8
  | '%' :: a :: b :: t =>
    match byte? a b with
    | some x => x :: unescape t
    | none => 0x25 :: unescape (a :: b :: t)
  | c :: t => UInt8.ofNat c.toNat :: unescape t
  | [] => []

/-- Whether a character is ASCII. -/
def isAscii (c : Char) : Bool := c.toNat < 128

/-- A text with its escapes resolved, one stretch of ASCII at a time. -/
def decode (t : Text) : Text :=
  match t with
  | [] => []
  | c :: rest =>
    if isAscii c then
      Utf8.decodeLenient (unescape (t.takeWhile isAscii)) ++ decode (rest.dropWhile isAscii)
    else c :: decode rest
termination_by t.length
decreasing_by
  · have := (List.dropWhile_sublist (l := rest) isAscii).length_le
    rw [List.length_cons]
    omega
  · simp

end Percent

end ShaderInclude
