import Mathlib.Data.List.TakeWhile
import ShaderInclude.Proofs.Encoding.Utf8
import ShaderInclude.Uri.Percent

/-!
# Percent encoding there and back

An encoded text is ASCII, so it is decoded in one stretch: its escapes give back the bytes of the
UTF-8 form of the text, and these the text. It has no percent signs but those of its escapes, so
nothing is decoded twice.

Main statement: `Percent.decode_encode`.
-/

namespace ShaderInclude

namespace Percent

variable {c : Char} {t : Text}

/-! ### What is written -/

/-- A character that may stand in an encoded text. -/
def IsWritten (c : Char) : Prop := isPlain c = true ∨ c = '%'

instance : DecidablePred IsWritten := fun c =>
  inferInstanceAs (Decidable (isPlain c = true ∨ c = '%'))

/-- A property of ASCII characters is checked number by number. -/
theorem forall_isAscii {P : Char → Prop} (h : ∀ n < 128, P (Char.ofNat n))
    (hc : isAscii c = true) : P c := by
  rw [← Char.ofNat_toNat c]
  exact h c.toNat (of_decide_eq_true hc)

theorem isAscii_of_isAlphanum (h : c.isAlphanum = true) : isAscii c = true := by
  change (((decide ('A'.val ≤ c.val ∧ c.val ≤ 'Z'.val)) || ('a'.val ≤ c.val && c.val ≤ 'z'.val)) ||
    ('0'.val ≤ c.val && c.val ≤ '9'.val)) = true at h
  simp only [Bool.or_eq_true, Bool.and_eq_true, decide_eq_true_eq, UInt32.le_iff_toNat_le] at h
  change ((65 ≤ c.toNat ∧ c.toNat ≤ 90) ∨ (97 ≤ c.toNat ∧ c.toNat ≤ 122)) ∨
    (48 ≤ c.toNat ∧ c.toNat ≤ 57) at h
  -- all three ranges end before the first number that is not ASCII
  rw [isAscii, decide_eq_true_eq]
  omega

theorem isAscii_of_isPlain (h : isPlain c = true) : isAscii c = true := by
  simp only [isPlain, Bool.or_eq_true, decide_eq_true_eq] at h
  obtain ((((h | rfl) | rfl) | rfl) | rfl) | rfl := h
  · exact isAscii_of_isAlphanum h
  all_goals decide

theorem IsWritten.isAscii (h : IsWritten c) : isAscii c = true := by
  obtain h | rfl := h
  · exact isAscii_of_isPlain h
  · rfl

theorem isPlain_digitChar : ∀ n < 16, isPlain (digitChar n) = true := by
  decide

theorem isWritten_of_mem_encode (h : c ∈ encode t) : IsWritten c := by
  obtain ⟨a, -, hc⟩ := List.mem_flatMap.mp h
  rw [encodeChar] at hc
  split at hc
  case isTrue hplain =>
    obtain rfl := List.mem_singleton.mp hc
    exact .inl hplain
  case isFalse =>
    obtain ⟨b, -, hc⟩ := List.mem_flatMap.mp hc
    have hb := b.toNat_lt
    simp only [escapeByte, List.mem_cons, List.not_mem_nil, or_false] at hc
    obtain rfl | rfl | rfl := hc
    · exact .inr rfl
    · exact .inl (isPlain_digitChar _ (by omega))
    · exact .inl (isPlain_digitChar _ (by omega))

/-! ### What is decoded -/

theorem hexValue?_digitChar : ∀ n < 16, Text.hexValue? (digitChar n) = some n := by
  decide

theorem byte?_digitChar (b : UInt8) :
    byte? (digitChar (b.toNat / 16)) (digitChar (b.toNat % 16)) = some b := by
  have hb := b.toNat_lt
  rw [byte?, hexValue?_digitChar _ (by omega), hexValue?_digitChar _ (by omega)]
  have hbyte : UInt8.ofNat (b.toNat / 16 * 16 + b.toNat % 16) = b := by
    rw [Nat.div_add_mod', UInt8.ofNat_toNat]
  exact congrArg some hbyte

/-- The bytes that were escaped come back. -/
theorem unescape_flatMap_escapeByte (bytes : List UInt8) (rest : Text) :
    unescape (bytes.flatMap escapeByte ++ rest) = bytes ++ unescape rest := by
  induction bytes with
  | nil => rfl
  | cons b bytes ih =>
    rw [List.flatMap_cons, escapeByte, List.append_assoc, List.cons_append, List.cons_append,
      List.cons_append, List.nil_append, unescape, byte?_digitChar, ih]
    rfl

theorem utf8EncodeChar_of_isAscii (h : isAscii c = true) :
    String.utf8EncodeChar c = [UInt8.ofNat c.toNat] := by
  have hc : c.val.toNat ≤ 0x7f := Nat.le_of_lt_succ (of_decide_eq_true h)
  rw [String.utf8EncodeChar, if_pos hc]
  rfl

/-- A plain character stands for its own byte. -/
theorem unescape_cons_of_isPlain (h : isPlain c = true) (rest : Text) :
    unescape (c :: rest) = String.utf8EncodeChar c ++ unescape rest := by
  rw [utf8EncodeChar_of_isAscii (isAscii_of_isPlain h), unescape]
  · rfl
  · rintro a b t rfl
    cases h

/-- **An encoded text gives back its bytes.** -/
theorem unescape_encode (t : Text) : unescape (encode t) = Utf8.encode t := by
  induction t with
  | nil => rfl
  | cons c t ih =>
    rw [encode, List.flatMap_cons, ← encode, Utf8.encode_cons, encodeChar]
    split
    case isTrue hplain => rw [List.singleton_append, unescape_cons_of_isPlain hplain, ih]
    case isFalse => rw [unescape_flatMap_escapeByte, ih]

/-- ASCII text is decoded in one stretch. -/
theorem decode_of_isAscii (ht : ∀ c ∈ t, isAscii c = true) :
    decode t = Utf8.decodeLenient (unescape t) := by
  cases t with
  | nil => rw [decode, unescape, Utf8.decodeLenient]
  | cons c t =>
    obtain ⟨hc, hrest⟩ := List.forall_mem_cons.mp ht
    have htake : (c :: t).takeWhile isAscii = c :: t := List.takeWhile_eq_self_iff.mpr ht
    have hdrop : t.dropWhile isAscii = [] := List.dropWhile_eq_nil_iff.mpr hrest
    rw [decode, if_pos hc, htake, hdrop, decode, List.append_nil]

/-- **What is encoded is decoded again.** -/
theorem decode_encode (t : Text) : decode (encode t) = t := by
  have hascii : ∀ c ∈ encode t, isAscii c = true := fun c hc => (isWritten_of_mem_encode hc).isAscii
  rw [decode_of_isAscii hascii, unescape_encode, Utf8.decodeLenient_encode]

end Percent

end ShaderInclude
