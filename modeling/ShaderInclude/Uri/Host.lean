import ShaderInclude.Text.Digit
import ShaderInclude.Text.Quoted

/-!
# Hosts in brackets

An authority may give its host as a numeric address in brackets. What stands there has to be an
address of eight groups of hexadecimal digits, possibly with a zone after a percent sign; two
colons in a row stand for one or more groups of zeros, and the last two groups may be written as
an address of four numbers. Or it is an address of a future version: `v`, hexadecimal digits, a
dot and something more. An address of four numbers alone does not belong into brackets.
-/

namespace ShaderInclude

namespace Host

/-- A hexadecimal digit. -/
def isHexDigit (c : Char) : Bool := (Text.hexValue? c).isSome

/-- The value of decimal digits. -/
def decimalValue (t : Text) : Nat := t.foldl (fun n c => n * 10 + (c.toNat - 48)) 0

/-- A number from 0 to 255 without leading zeros. -/
def isOctet (t : Text) : Bool :=
  t ≠ [] && t.all Char.isDigit && (t.head? ≠ some '0' || t = ['0']) && t.length ≤ 3 &&
    decimalValue t ≤ 255

/-- An address of four numbers. -/
def isQuad (t : Text) : Bool :=
  let octets := Text.splitOn '.' t
  octets.length = 4 && octets.all isOctet

/-- A group of one to four hexadecimal digits. -/
def isGroup (t : Text) : Bool := t ≠ [] && t.all isHexDigit && t.length ≤ 4

/-- The pieces between colons, with two groups in place of four numbers at the end. -/
def withoutQuad (pieces : List Text) : List Text :=
  match pieces.getLast? with
  | some last => if isQuad last then pieces.dropLast ++ [['0'], ['0']] else pieces
  | none => pieces

/-- One side of two colons in a row: groups, or nothing. -/
def sideGroups (pieces : List Text) : List Text := if pieces = [[]] then [] else pieces

/-- Groups in which two colons in a row may stand for some. The pieces are those between colons;
an empty one with neighbours on both sides lies between two colons in a row. -/
def areGroups : List Text → Bool
  | [] => false
  | first :: rest =>
    let head := first :: rest.dropLast.takeWhile (· ≠ [])
    match rest.drop (head.length - 1) with
    | [] :: tail =>
      if tail = [] then false
      else
        let groups := sideGroups head ++ sideGroups tail
        groups.all isGroup && groups.length < 8
    | tail => (head ++ tail).all isGroup && (head ++ tail).length = 8

/-- An address of eight groups, possibly with a zone. -/
def isGrouped (t : Text) : Bool :=
  match Text.cutAt '%' t with
  | (address, none) => areGroups (withoutQuad (Text.splitOn ':' address))
  | (address, some zone) =>
    zone ≠ [] && !zone.contains '%' && areGroups (withoutQuad (Text.splitOn ':' address))

/-- An address of a future version, after its `v`. -/
def isFuture (t : Text) : Bool :=
  match t.dropWhile isHexDigit with
  | '.' :: rest => rest ≠ [] && t.head? ≠ some '.'
  | _ => false

/-- Why a host in brackets is refused, if it is. -/
def fault? : Text → Option Text
  | 'v' :: t => if isFuture t then none else some "IPvFuture address is invalid".toList
  | t =>
    if isQuad t then some "An IPv4 address cannot be in brackets".toList
    else if isGrouped t then none
    else some (Text.quoted t ++ " does not appear to be an IPv4 or IPv6 address".toList)

end Host

end ShaderInclude
