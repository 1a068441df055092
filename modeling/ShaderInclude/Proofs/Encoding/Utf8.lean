import Mathlib.Tactic.SplitIfs
import ShaderInclude.Encoding.Utf8

/-!
# UTF-8 there and back

A lead byte says how many continuation bytes follow it, and for four lead bytes the first of them
has a range of its own. The bytes of a character keep to these ranges, so they are read as this
character, whatever comes behind them (`Utf8.step_encodeChar`). From this both decoders give back
every text (`Utf8.decodeFrom_encode`, `Utf8.decodeLenient_encode`).
-/

namespace ShaderInclude

namespace Utf8

variable {n v value taken : Nat} {low high : UInt8} {ranges : List (UInt8 × UInt8)}
  {bytes : List UInt8}

theorem ofNat_lt_iff (hn : n < 256) {b : UInt8} : UInt8.ofNat n < b ↔ n < b.toNat := by
  rw [UInt8.lt_iff_toNat_lt, UInt8.toNat_ofNat_of_lt' hn]

theorem ofNat_eq_iff (hn : n < 256) {b : UInt8} : UInt8.ofNat n = b ↔ n = b.toNat := by
  rw [← UInt8.toNat_inj, UInt8.toNat_ofNat_of_lt' hn]

/-- A byte within the range that is due is taken. -/
theorem tails_cons (hn : n < 256) (hlow : low.toNat ≤ n) (hhigh : n ≤ high.toNat) :
    tails value ((low, high) :: ranges) taken (UInt8.ofNat n :: bytes) =
      tails (value * 64 + (n - 0x80)) ranges (taken + 1) bytes := by
  have hrange : low ≤ UInt8.ofNat n ∧ UInt8.ofNat n ≤ high := by
    rw [UInt8.le_iff_toNat_le, UInt8.le_iff_toNat_le, UInt8.toNat_ofNat_of_lt' hn]
    exact ⟨hlow, hhigh⟩
  rw [tails, if_pos hrange, UInt8.toNat_ofNat_of_lt' hn]

theorem tails_nil : tails value [] taken bytes = .char (Char.ofNat value) taken := by
  rw [tails]

/-- What is read at a lead byte, by its number. -/
theorem step_ofNat (hn : n < 256) : step (UInt8.ofNat n) bytes =
    if n < 0x80 then .char (Char.ofNat n) 0
    else if n < 0xc2 then .fault .invalidStart 0
    else if n < 0xe0 then tails (n - 0xc0) [(0x80, 0xbf)] 0 bytes
    else if n = 0xe0 then tails 0 [(0xa0, 0xbf), (0x80, 0xbf)] 0 bytes
    else if n = 0xed then tails 0xd [(0x80, 0x9f), (0x80, 0xbf)] 0 bytes
    else if n < 0xf0 then tails (n - 0xe0) [(0x80, 0xbf), (0x80, 0xbf)] 0 bytes
    else if n = 0xf0 then tails 0 [(0x90, 0xbf), (0x80, 0xbf), (0x80, 0xbf)] 0 bytes
    else if n < 0xf4 then tails (n - 0xf0) [(0x80, 0xbf), (0x80, 0xbf), (0x80, 0xbf)] 0 bytes
    else if n = 0xf4 then tails 4 [(0x80, 0x8f), (0x80, 0xbf), (0x80, 0xbf)] 0 bytes
    else .fault .invalidStart 0 := by
  simp only [step, ofNat_lt_iff hn, ofNat_eq_iff hn, UInt8.toNat_ofNat_of_lt' hn]
  rfl

/-- Six bits of a number are taken where no range of its own is due. -/
theorem tails_cons_six (m : Nat) :
    tails value ((0x80, 0xbf) :: ranges) taken (UInt8.ofNat (m % 64 + 128) :: bytes) =
      tails (value * 64 + m % 64) ranges (taken + 1) bytes := by
  rw [tails_cons (by omega) (show 0x80 ≤ m % 64 + 128 by omega) (show m % 64 + 128 ≤ 0xbf by omega),
    Nat.add_sub_cancel]

theorem char_eq (h : value = v) : Step.char (Char.ofNat value) taken = .char (Char.ofNat v) taken := by
  rw [h]

/-- Eleven bits are read from two bytes. -/
theorem step_two (hlow : 0x80 ≤ v) (hhigh : v < 0x800) :
    step (UInt8.ofNat (v / 64 % 32 + 192)) (UInt8.ofNat (v % 64 + 128) :: bytes) =
      .char (Char.ofNat v) 1 := by
  rw [step_ofNat (by omega), if_neg (by omega), if_neg (by omega), if_pos (by omega), tails_cons_six,
    tails_nil]
  exact char_eq (by omega)

/-- Sixteen bits are read from three bytes, unless they are those of a surrogate. -/
theorem step_three (hlow : 0x800 ≤ v) (hhigh : v < 0x10000) (hvalid : v < 0xd800 ∨ 0xdfff < v) :
    step (UInt8.ofNat (v / 4096 % 16 + 224))
      (UInt8.ofNat (v / 64 % 64 + 128) :: UInt8.ofNat (v % 64 + 128) :: bytes) =
      .char (Char.ofNat v) 2 := by
  rw [step_ofNat (by omega), if_neg (by omega), if_neg (by omega), if_neg (by omega)]
  split_ifs with hlowest hsurrogates
  · -- no second byte that two bytes would do for
    rw [tails_cons (by omega) (show 0xa0 ≤ v / 64 % 64 + 128 by omega)
      (show v / 64 % 64 + 128 ≤ 0xbf by omega), tails_cons_six, tails_nil]
    exact char_eq (by omega)
  · -- no second byte of a surrogate
    rw [tails_cons (by omega) (show 0x80 ≤ v / 64 % 64 + 128 by omega)
      (show v / 64 % 64 + 128 ≤ 0x9f by omega), tails_cons_six, tails_nil]
    exact char_eq (by omega)
  · rw [tails_cons_six, tails_cons_six, tails_nil]
    exact char_eq (by omega)
  all_goals omega

/-- The other numbers of characters are read from four bytes. -/
theorem step_four (hlow : 0x10000 ≤ v) (hhigh : v < 0x110000) :
    step (UInt8.ofNat (v / 262144 % 8 + 240)) (UInt8.ofNat (v / 4096 % 64 + 128) ::
      UInt8.ofNat (v / 64 % 64 + 128) :: UInt8.ofNat (v % 64 + 128) :: bytes) =
      .char (Char.ofNat v) 3 := by
  rw [step_ofNat (by omega), if_neg (by omega), if_neg (by omega), if_neg (by omega),
    if_neg (by omega), if_neg (by omega), if_neg (by omega)]
  split_ifs with hlowest hmiddle hhighest
  · -- no second byte that three bytes would do for
    rw [tails_cons (by omega) (show 0x90 ≤ v / 4096 % 64 + 128 by omega)
      (show v / 4096 % 64 + 128 ≤ 0xbf by omega), tails_cons_six, tails_cons_six, tails_nil]
    exact char_eq (by omega)
  · rw [tails_cons_six, tails_cons_six, tails_cons_six, tails_nil]
    exact char_eq (by omega)
  · -- no second byte above the last character
    rw [tails_cons (by omega) (show 0x80 ≤ v / 4096 % 64 + 128 by omega)
      (show v / 4096 % 64 + 128 ≤ 0x8f by omega), tails_cons_six, tails_cons_six, tails_nil]
    exact char_eq (by omega)
  · omega

/-- **The bytes of a character are read as this character**, whatever comes behind them. -/
theorem step_encodeChar (c : Char) (rest : List UInt8) :
    ∃ lead more, String.utf8EncodeChar c = lead :: more ∧
      step lead (more ++ rest) = .char c more.length := by
  have hvalid : c.val.toNat < 0xd800 ∨ 0xdfff < c.val.toNat ∧ c.val.toNat < 0x110000 := c.valid
  have hchar : Char.ofNat c.val.toNat = c := Char.ofNat_toNat c
  simp only [String.utf8EncodeChar]
  split_ifs with hone htwo hthree
  · refine ⟨_, [], rfl, ?_⟩
    rw [step_ofNat (by omega), if_pos (by omega), hchar]
    rfl
  · exact ⟨_, _, rfl, (step_two (v := c.val.toNat) (by omega) (by omega)).trans
      (congrArg (Step.char · 1) hchar)⟩
  · exact ⟨_, _, rfl, (step_three (v := c.val.toNat) (by omega) (by omega) (by omega)).trans
      (congrArg (Step.char · 2) hchar)⟩
  · exact ⟨_, _, rfl, (step_four (v := c.val.toNat) (by omega) (by omega)).trans
      (congrArg (Step.char · 3) hchar)⟩

/-! ### Texts -/

theorem encode_cons (c : Char) (t : Text) : encode (c :: t) = String.utf8EncodeChar c ++ encode t :=
  List.flatMap_cons

/-- **What is encoded is decoded again.** -/
theorem decodeFrom_encode (offset : Nat) (t : Text) : decodeFrom offset (encode t) = .ok t := by
  induction t generalizing offset with
  | nil => rw [encode, List.flatMap_nil, decodeFrom]
  | cons c t ih =>
    obtain ⟨lead, more, hbytes, hstep⟩ := step_encodeChar c (encode t)
    rw [encode_cons, hbytes, List.cons_append, decodeFrom, hstep]
    simp only [List.drop_left, ih, Except.map]

/-- Nothing is replaced in what is encoded. -/
theorem decodeLenient_encode (t : Text) : decodeLenient (encode t) = t := by
  induction t with
  | nil => rw [encode, List.flatMap_nil, decodeLenient]
  | cons c t ih =>
    obtain ⟨lead, more, hbytes, hstep⟩ := step_encodeChar c (encode t)
    rw [encode_cons, hbytes, List.cons_append, decodeLenient, hstep]
    simp only [List.drop_left, ih]

end Utf8

end ShaderInclude
