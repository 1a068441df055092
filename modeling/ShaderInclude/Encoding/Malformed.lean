import ShaderInclude.Text.Basic

/-!
# Malformed bytes

What a decoder reports when bytes are no text in its encoding: the encoding's name, the stretch
of bytes at fault and the reason. The stretch is never empty. If it is one byte the message names
the byte, otherwise the first and the last offset.
-/

namespace ShaderInclude

/-- Why bytes could not be decoded. -/
inductive Malformation where
  | invalidStart
  | invalidContinuation
  | unexpectedEnd
  | notAscii
  | truncatedUnit
  | loneLowSurrogate
  | loneHighSurrogate
deriving DecidableEq

/-- The wording of a reason. -/
def Malformation.text : Malformation → String
  | invalidStart => "invalid start byte"
  | invalidContinuation => "invalid continuation byte"
  | unexpectedEnd => "unexpected end of data"
  | notAscii => "ordinal not in range(128)"
  | truncatedUnit => "truncated data"
  | loneLowSurrogate => "illegal encoding"
  | loneHighSurrogate => "illegal UTF-16 surrogate"

/-- A stretch of bytes that a decoder refused. -/
structure Malformed where
  encoding : String
  /-- The offset of the first byte at fault. -/
  offset : Nat
  first : UInt8
  /-- How many bytes at fault follow the first. -/
  more : Nat
  reason : Malformation
deriving DecidableEq

/-- A byte as two hexadecimal digits in small letters. -/
def hexByte (b : UInt8) : Text := [Nat.digitChar (b.toNat / 16), Nat.digitChar (b.toNat % 16)]

/-- The message of a decoder. -/
def Malformed.message (m : Malformed) : String :=
  let place :=
    if m.more = 0 then
      "byte 0x" ++ String.ofList (hexByte m.first) ++ " in position " ++ m.offset.repr
    else "bytes in position " ++ m.offset.repr ++ "-" ++ (m.offset + m.more).repr
  "'" ++ m.encoding ++ "' codec can't decode " ++ place ++ ": " ++ m.reason.text

end ShaderInclude
