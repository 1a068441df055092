import ShaderInclude.Encoding.Malformed

/-!
# UTF-16 without a byte order mark

Two bytes make a unit, in either order; a character above `U+FFFF` takes a high and a low
surrogate. A byte order mark is an ordinary character here. A lone surrogate is a fault of its
two bytes, except that a high surrogate with less than a unit behind it takes in all bytes that
are left.
-/

namespace ShaderInclude

namespace Utf16

/-- Which byte of a unit comes first. -/
inductive Order where
  | lowFirst
  | highFirst
deriving DecidableEq

/-- The name that messages use. -/
def Order.encoding : Order → String
  | lowFirst => "utf-16-le"
  | highFirst => "utf-16-be"

/-- The unit of two bytes in the order written. -/
def Order.unit (o : Order) (a b : UInt8) : Nat :=
  match o with
  | lowFirst => b.toNat * 256 + a.toNat
  | highFirst => a.toNat * 256 + b.toNat

/-- The bytes of a unit in the order written. -/
def Order.bytes (o : Order) (u : Nat) : List UInt8 :=
  match o with
  | lowFirst => [UInt8.ofNat u, UInt8.ofNat (u / 256)]
  | highFirst => [UInt8.ofNat (u / 256), UInt8.ofNat u]

/-- Whether a unit is the first half of a pair. -/
def isHigh (u : Nat) : Bool := 0xd800 ≤ u && u < 0xdc00

/-- Whether a unit is the second half of a pair. -/
def isLow (u : Nat) : Bool := 0xdc00 ≤ u && u < 0xe000

/-- The character of a pair. -/
def pair (high low : Nat) : Char := Char.ofNat (0x10000 + (high - 0xd800) * 0x400 + (low - 0xdc00))

/-- Decode bytes that begin at `offset`, refusing the first fault. -/
def decodeFrom (o : Order) (offset : Nat) : List UInt8 → Except Malformed Text
  | [] => .ok []
  | [a] => .error ⟨o.encoding, offset, a, 0, .truncatedUnit⟩
  | a :: b :: rest =>
    let u := o.unit a b
    if isLow u then .error ⟨o.encoding, offset, a, 1, .loneLowSurrogate⟩
    else if isHigh u then
      match rest with
      | c :: d :: rest =>
        if isLow (o.unit c d) then
          (decodeFrom o (offset + 4) rest).map (pair u (o.unit c d) :: ·)
        else .error ⟨o.encoding, offset, a, 1, .loneHighSurrogate⟩
      | rest => .error ⟨o.encoding, offset, a, 1 + rest.length, .unexpectedEnd⟩
    else (decodeFrom o (offset + 2) rest).map (Char.ofNat u :: ·)

/-- Decode bytes, refusing the first fault. -/
def decode (o : Order) (bytes : List UInt8) : Except Malformed Text := decodeFrom o 0 bytes

/-- The bytes of one character. -/
def encodeChar (o : Order) (c : Char) : List UInt8 :=
  let v := c.toNat
  if v < 0x10000 then o.bytes v
  else o.bytes (0xd800 + (v - 0x10000) / 0x400) ++ o.bytes (0xdc00 + (v - 0x10000) % 0x400)

/-- The bytes of a text. -/
def encode (o : Order) (t : Text) : List UInt8 := t.flatMap (encodeChar o)

end Utf16

end ShaderInclude
