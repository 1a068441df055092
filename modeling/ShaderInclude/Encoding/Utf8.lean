import ShaderInclude.Encoding.Malformed

/-!
# UTF-8

`Utf8.step` reads one character, or says how many continuation bytes after a lead byte are still
in order before something is wrong. The strict decoder stops at the first fault; the lenient one
puts `U+FFFD` in place of each faulty stretch. Overlong forms, surrogates and values above
`U+10FFFF` are ruled out by the range of the second byte, so their lead byte alone is at fault.
-/

namespace ShaderInclude

namespace Utf8

/-- The outcome of reading at a lead byte. -/
inductive Step where
  /-- A character and the number of bytes it takes after the first. -/
  | char (c : Char) (more : Nat)
  /-- A fault that takes in the lead byte and `more` continuation bytes. -/
  | fault (reason : Malformation) (more : Nat)

/-- Read continuation bytes within the given ranges, with `value` read so far. -/
def tails (value : Nat) : List (UInt8 × UInt8) → (taken : Nat) → List UInt8 → Step
  | [], taken, _ => .char (Char.ofNat value) taken
  | _ :: _, taken, [] => .fault .unexpectedEnd taken
  | (low, high) :: ranges, taken, b :: bytes =>
    if low ≤ b ∧ b ≤ high then
      tails (value * 64 + (b.toNat - 0x80)) ranges (taken + 1) bytes
    else .fault .invalidContinuation taken

/-- Read at lead byte `b`, followed by `bytes`. -/
def step (b : UInt8) (bytes : List UInt8) : Step :=
  if b < 0x80 then .char (Char.ofNat b.toNat) 0
  else if b < 0xc2 then .fault .invalidStart 0
  else if b < 0xe0 then tails (b.toNat - 0xc0) [(0x80, 0xbf)] 0 bytes
  else if b = 0xe0 then tails 0 [(0xa0, 0xbf), (0x80, 0xbf)] 0 bytes
  else if b = 0xed then tails 0xd [(0x80, 0x9f), (0x80, 0xbf)] 0 bytes
  else if b < 0xf0 then tails (b.toNat - 0xe0) [(0x80, 0xbf), (0x80, 0xbf)] 0 bytes
  else if b = 0xf0 then tails 0 [(0x90, 0xbf), (0x80, 0xbf), (0x80, 0xbf)] 0 bytes
  else if b < 0xf4 then tails (b.toNat - 0xf0) [(0x80, 0xbf), (0x80, 0xbf), (0x80, 0xbf)] 0 bytes
  else if b = 0xf4 then tails 4 [(0x80, 0x8f), (0x80, 0xbf), (0x80, 0xbf)] 0 bytes
  else .fault .invalidStart 0

/-- Decode bytes that begin at `offset`, refusing the first fault. -/
def decodeFrom (offset : Nat) : List UInt8 → Except Malformed Text
  | [] => .ok []
  | b :: bytes =>
    match step b bytes with
    | .char c more => (decodeFrom (offset + 1 + more) (bytes.drop more)).map (c :: ·)
    | .fault reason more => .error ⟨"utf-8", offset, b, more, reason⟩
termination_by bytes => bytes.length
decreasing_by
  rw [List.length_drop, List.length_cons]
  omega

/-- Decode bytes, refusing the first fault. -/
def decode (bytes : List UInt8) : Except Malformed Text := decodeFrom 0 bytes

/-- Decode bytes, with the replacement character for each faulty stretch. -/
def decodeLenient : List UInt8 → Text
  | [] => []
  | b :: bytes =>
    match step b bytes with
    | .char c more => c :: decodeLenient (bytes.drop more)
    | .fault _ more => '\ufffd' :: decodeLenient (bytes.drop more)
termination_by bytes => bytes.length
decreasing_by
  all_goals
    rw [List.length_drop, List.length_cons]
    omega

/-- The bytes of a text. -/
def encode (t : Text) : List UInt8 := t.flatMap String.utf8EncodeChar

/-- The byte order mark. -/
def mark : List UInt8 := [0xef, 0xbb, 0xbf]

end Utf8

end ShaderInclude
