import Mathlib.Tactic.SplitIfs
import ShaderInclude.Encoding.Utf16

/-!
# UTF-16 there and back

A unit is read from its two bytes in the order in which they were written. The number of a character
is never that of a surrogate, so a character below `U+10000` is read from one unit, and any other one
from the pair that it was split into (`Utf16.decodeFrom_encodeChar`). Decoding therefore gives back
what was encoded (`Utf16.decodeFrom_encode`).
-/

namespace ShaderInclude

namespace Utf16

variable {u : Nat}

/-- A unit is read from its bytes. -/
theorem exists_bytes (o : Order) (h : u < 0x10000) : ∃ a b, o.bytes u = [a, b] ∧ o.unit a b = u := by
  cases o with
  | lowFirst =>
    refine ⟨_, _, rfl, ?_⟩
    simp only [Order.unit, UInt8.toNat_ofNat']
    omega
  | highFirst =>
    refine ⟨_, _, rfl, ?_⟩
    simp only [Order.unit, UInt8.toNat_ofNat']
    omega

theorem isHigh_iff : isHigh u = true ↔ 0xd800 ≤ u ∧ u < 0xdc00 := by
  simp [isHigh]

theorem isLow_iff : isLow u = true ↔ 0xdc00 ≤ u ∧ u < 0xe000 := by
  simp [isLow]

/-- **The bytes of a character are read as this character**, whatever comes behind them. -/
theorem decodeFrom_encodeChar (o : Order) (offset : Nat) (c : Char) (rest : List UInt8) :
    ∃ taken, decodeFrom o offset (encodeChar o c ++ rest) =
      (decodeFrom o (offset + taken) rest).map (c :: ·) := by
  have hvalid : c.toNat < 0xd800 ∨ 0xdfff < c.toNat ∧ c.toNat < 0x110000 := c.valid
  simp only [encodeChar]
  split_ifs with hsmall
  · obtain ⟨a, b, hbytes, hunit⟩ := exists_bytes o hsmall
    refine ⟨2, ?_⟩
    rw [hbytes, List.cons_append, List.singleton_append, decodeFrom.eq_def]
    simp only [hunit]
    rw [if_neg (by rw [isLow_iff]; omega), if_neg (by rw [isHigh_iff]; omega), Char.ofNat_toNat]
  · obtain ⟨a, b, hbytes, hunit⟩ :=
      exists_bytes o (u := 0xd800 + (c.toNat - 0x10000) / 0x400) (by omega)
    obtain ⟨a', b', hbytes', hunit'⟩ :=
      exists_bytes o (u := 0xdc00 + (c.toNat - 0x10000) % 0x400) (by omega)
    have hpair : pair (0xd800 + (c.toNat - 0x10000) / 0x400)
        (0xdc00 + (c.toNat - 0x10000) % 0x400) = c := by
      have hnumber : 0x10000 + (0xd800 + (c.toNat - 0x10000) / 0x400 - 0xd800) * 0x400 +
          (0xdc00 + (c.toNat - 0x10000) % 0x400 - 0xdc00) = c.toNat := by
        omega
      rw [pair, hnumber, Char.ofNat_toNat]
    refine ⟨4, ?_⟩
    rw [hbytes, hbytes']
    simp only [List.cons_append, List.nil_append]
    rw [decodeFrom, hunit, if_neg (by rw [isLow_iff]; omega), if_pos (by rw [isHigh_iff]; omega)]
    simp only [hunit']
    rw [if_pos (by rw [isLow_iff]; omega), hpair]

/-- **What is encoded is decoded again.** -/
theorem decodeFrom_encode (o : Order) (offset : Nat) (t : Text) :
    decodeFrom o offset (encode o t) = .ok t := by
  induction t generalizing offset with
  | nil => rfl
  | cons c t ih =>
    have hcons : encode o (c :: t) = encodeChar o c ++ encode o t := List.flatMap_cons
    obtain ⟨taken, htaken⟩ := decodeFrom_encodeChar o offset c (encode o t)
    rw [hcons, htaken, ih]
    rfl

end Utf16

end ShaderInclude
