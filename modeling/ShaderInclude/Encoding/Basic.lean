import ShaderInclude.Encoding.Utf8
import ShaderInclude.Encoding.Utf16

/-!
# Text encodings

The encodings that sources may be stored in, what they are called, and how they decode and
encode. Encoding can fail only for Latin-1 and ASCII. The signed form of UTF-8 drops one byte
order mark when it decodes, also a mark that is cut off by the end, and writes one when it
encodes.

`Text.unixLines` makes the line ends of a stored text uniform: a carriage return, alone or before
a newline, becomes a newline. Writing leaves line ends alone.
-/

namespace ShaderInclude

/-- A text encoding. -/
inductive Encoding where
  | utf8
  | utf8Signed
  | latin1
  | ascii
  | utf16 (order : Utf16.Order)
deriving DecidableEq

namespace Encoding

/-! ### Names -/

/-- A name with its letters made small and each run of other characters than letters, digits and
dots made one underscore, none at the ends. -/
def normalizeName (name : Text) : Text :=
  let pieces := (Text.splitOn '_' (name.map fun c => if c.isAlphanum || c = '.' then c.toLower
    else '_')).filter (· ≠ [])
  ['_'].intercalate pieces

/-- The proper name of each encoding, normalised. -/
def properNames : List (Encoding × String) := [
  (utf8, "utf_8"),
  (utf8Signed, "utf_8_sig"),
  (latin1, "latin_1"),
  (ascii, "ascii"),
  (utf16 .lowFirst, "utf_16_le"),
  (utf16 .highFirst, "utf_16_be")]

/-- The other names of each encoding, normalised. -/
def otherNames : List (Encoding × List String) := [
  (utf8, ["utf8", "u8", "utf", "utf8_ucs2", "utf8_ucs4", "cp65001"]),
  (latin1, ["latin1", "latin", "l1", "iso8859_1", "iso_8859_1", "iso8859", "8859", "cp819",
    "csisolatin1", "ibm819", "iso_8859_1_1987", "iso_ir_100"]),
  (ascii, ["us_ascii", "us", "646", "ansi_x3.4_1968", "ansi_x3.4_1986", "ansi_x3_4_1968", "cp367",
    "csascii", "ibm367", "iso646_us", "iso_646.irv_1991", "iso_ir_6"]),
  (utf16 .lowFirst, ["utf_16le", "unicodelittleunmarked"]),
  (utf16 .highFirst, ["utf_16be", "unicodebigunmarked"])]

/-- The encoding of another name than the proper one. -/
def otherwiseNamed? (name : Text) : Option Encoding :=
  (otherNames.find? fun entry => entry.2.contains (String.ofList name)).map (·.1)

/-- The encoding of a proper name. -/
def properlyNamed? (name : Text) : Option Encoding :=
  (properNames.find? fun entry => entry.2 = String.ofList name).map (·.1)

/-- The encoding of a name, if there is one. In other names than the proper ones a dot may stand
for an underscore. -/
def named? (name : Text) : Option Encoding :=
  let key := normalizeName name
  (otherwiseNamed? key).or
    ((otherwiseNamed? (key.map fun c => if c = '.' then '_' else c)).or (properlyNamed? key))

/-! ### Decoding and encoding -/

/-- Decode ASCII bytes that begin at `offset`. -/
def decodeAsciiFrom (offset : Nat) : List UInt8 → Except Malformed Text
  | [] => .ok []
  | b :: bytes =>
    if b < 0x80 then (decodeAsciiFrom (offset + 1) bytes).map (Char.ofNat b.toNat :: ·)
    else .error ⟨"ascii", offset, b, 0, .notAscii⟩

/-- The text of stored bytes. -/
def decode (e : Encoding) (bytes : List UInt8) : Except Malformed Text :=
  match e with
  | utf8 => Utf8.decode bytes
  | utf8Signed =>
    if bytes.isPrefixOf Utf8.mark then .ok []
    else Utf8.decode (if Utf8.mark.isPrefixOf bytes then bytes.drop 3 else bytes)
  | latin1 => .ok (bytes.map fun b => Char.ofNat b.toNat)
  | ascii => decodeAsciiFrom 0 bytes
  | utf16 order => Utf16.decode order bytes

/-- One byte per character, if all are below a bound. -/
def encodeBelow? (bound : Nat) (t : Text) : Option (List UInt8) :=
  if t.all (·.toNat < bound) then some (t.map fun c => UInt8.ofNat c.toNat) else none

/-- The bytes of a text, unless the encoding lacks one of its characters. -/
def encode? (e : Encoding) (t : Text) : Option (List UInt8) :=
  match e with
  | utf8 => some (Utf8.encode t)
  | utf8Signed => some (Utf8.mark ++ Utf8.encode t)
  | latin1 => encodeBelow? 256 t
  | ascii => encodeBelow? 128 t
  | utf16 order => some (Utf16.encode order t)

end Encoding

/-- The text with every line end written as a newline. -/
def Text.unixLines : Text → Text
  | '\r' :: '\n' :: t => '\n' :: unixLines t
  | '\r' :: t => '\n' :: unixLines t
  | c :: t => c :: unixLines t
  | [] => []

end ShaderInclude
