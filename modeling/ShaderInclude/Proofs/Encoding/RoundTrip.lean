import ShaderInclude.Proofs.Encoding.Utf16
import ShaderInclude.Proofs.Encoding.Utf8
import ShaderInclude.Storage.Source

/-!
# Texts that an encoding keeps

An encoding keeps a text if the text can be written in it and is read back as it was
(`Encoding.Keeps`). Two things can prevent that: a character that the encoding lacks, and a carriage
return, which reading turns into a newline. Nothing else can (`Encoding.keeps_iff`); in particular a
byte order mark at the start of a text is kept by every encoding, because the signed form of UTF-8
puts its own in front.

What is read from stored bytes has neither (`Encoding.mem_of_textOfBytes`), so whatever is put
together from the characters of such texts is kept.
-/

namespace ShaderInclude

/-! ### Line ends -/

namespace Text

variable {c : Char} {t : Text}

theorem unixLines_of_not_mem (h : '\r' ∉ t) : unixLines t = t := by
  induction t with
  | nil => rfl
  | cons c t ih =>
    obtain ⟨hc, ht⟩ := not_or.mp (mt List.mem_cons.mpr h)
    rw [unixLines.eq_def]
    split
    case h_1 heq => exact absurd (List.cons.inj heq).1.symm hc
    case h_2 heq => exact absurd (List.cons.inj heq).1.symm hc
    case h_3 heq => cases heq; rw [ih ht]
    case h_4 heq => cases heq

/-- A text with uniform line ends has the characters that it had before, possibly newlines, and no
carriage return. -/
theorem mem_unixLines (h : c ∈ unixLines t) : (c ∈ t ∨ c = '\n') ∧ c ≠ '\r' := by
  induction t using unixLines.induct with
  | case1 t ih =>
    rw [unixLines] at h
    rcases List.mem_cons.mp h with rfl | h
    · exact ⟨.inr rfl, by decide⟩
    · exact ⟨(ih h).1.imp_left fun h => by simp [h], (ih h).2⟩
  | case2 t hne ih =>
    rw [unixLines] at h
    rcases List.mem_cons.mp h with rfl | h
    · exact ⟨.inr rfl, by decide⟩
    · exact ⟨(ih h).1.imp_left fun h => by simp [h], (ih h).2⟩
    exact hne
  | case3 d t h₁ h₂ ih =>
    rw [unixLines] at h
    rcases List.mem_cons.mp h with rfl | h
    · exact ⟨.inl List.mem_cons_self, h₂⟩
    · exact ⟨(ih h).1.imp_left fun h => by simp [h], (ih h).2⟩
    exact h₁
    exact h₂
  | case4 => cases h

end Text

namespace Encoding

/-! ### Characters -/

/-- Whether an encoding has a character. -/
def HasChar : Encoding → Char → Prop
  | latin1, c => c.toNat < 256
  | ascii, c => c.toNat < 128
  | utf8, _ | utf8Signed, _ | utf16 _, _ => True

variable {e : Encoding} {c : Char} {t : Text} {bytes : List UInt8} {bound offset : Nat}

theorem hasChar_newline (e : Encoding) : e.HasChar '\n' := by
  cases e <;> simp [HasChar]

theorem toNat_ofNat_byte (b : UInt8) : (Char.ofNat b.toNat).toNat = b.toNat := by
  have hb : b.toNat.isValidChar := .inl (Nat.lt_trans b.toNat_lt (by decide))
  rw [Char.ofNat, dif_pos hb]
  rfl

/-- ASCII bytes are decoded to as many characters with the numbers of the bytes. -/
theorem toNat_lt_of_decodeAsciiFrom (h : decodeAsciiFrom offset bytes = .ok t) (hc : c ∈ t) :
    c.toNat < 128 := by
  induction bytes generalizing offset t with
  | nil =>
    cases h
    cases hc
  | cons b bytes ih =>
    rw [decodeAsciiFrom] at h
    split at h
    case isTrue hb =>
      cases hrest : decodeAsciiFrom (offset + 1) bytes with
      | error => simp [hrest, Except.map] at h
      | ok t' =>
        simp only [hrest, Except.map, Except.ok.injEq] at h
        subst h
        rcases List.mem_cons.mp hc with rfl | hc
        · rw [toNat_ofNat_byte]
          exact UInt8.lt_iff_toNat_lt.mp hb
        · exact ih hrest hc
    case isFalse => cases h

/-- **An encoding has all characters of what it decodes.** -/
theorem hasChar_of_decode (h : e.decode bytes = .ok t) (hc : c ∈ t) : e.HasChar c := by
  cases e with
  | utf8 | utf8Signed | utf16 => trivial
  | latin1 =>
    cases h
    obtain ⟨b, -, rfl⟩ := List.mem_map.mp hc
    change (Char.ofNat b.toNat).toNat < 256
    rw [toNat_ofNat_byte]
    exact b.toNat_lt
  | ascii => exact toNat_lt_of_decodeAsciiFrom h hc

/-! ### There and back -/

theorem ofNat_toNat_byte (hc : c.toNat < 256) : Char.ofNat (UInt8.ofNat c.toNat).toNat = c := by
  rw [UInt8.toNat_ofNat_of_lt' hc, Char.ofNat_toNat]

theorem encodeBelow?_eq (h : ∀ c ∈ t, c.toNat < bound) :
    encodeBelow? bound t = some (t.map fun c => UInt8.ofNat c.toNat) := by
  rw [encodeBelow?, if_pos]
  simpa using h

theorem decodeAsciiFrom_map (h : ∀ c ∈ t, c.toNat < 128) :
    decodeAsciiFrom offset (t.map fun c => UInt8.ofNat c.toNat) = .ok t := by
  induction t generalizing offset with
  | nil => rfl
  | cons c t ih =>
    obtain ⟨hc, ht⟩ := List.forall_mem_cons.mp h
    have hlt : UInt8.ofNat c.toNat < 0x80 := by
      rw [UInt8.lt_iff_toNat_lt, UInt8.toNat_ofNat_of_lt' (Nat.lt_trans hc (by decide))]
      exact hc
    rw [List.map_cons, decodeAsciiFrom, if_pos hlt, ih ht, ofNat_toNat_byte (by omega)]
    rfl

/-- The mark that is put in front is the one that is dropped. -/
theorem decode_utf8Signed_mark (t : Text) :
    decode utf8Signed (Utf8.mark ++ Utf8.encode t) = .ok t := by
  cases t with
  | nil => rfl
  | cons c t =>
    obtain ⟨lead, more, hbytes, -⟩ := Utf8.step_encodeChar c []
    have hlonger : ¬(Utf8.mark ++ Utf8.encode (c :: t)).isPrefixOf Utf8.mark = true := by
      rw [List.isPrefixOf_iff_prefix]
      intro h
      have hlength := h.length_le
      simp only [Utf8.encode_cons, hbytes, List.length_append, List.length_cons] at hlength
      omega
    have hmarked : Utf8.mark.isPrefixOf (Utf8.mark ++ Utf8.encode (c :: t)) = true :=
      List.isPrefixOf_iff_prefix.mpr (List.prefix_append _ _)
    have hdrop : (Utf8.mark ++ Utf8.encode (c :: t)).drop 3 = Utf8.encode (c :: t) := rfl
    simp only [decode, if_neg hlonger, if_pos hmarked, hdrop]
    exact Utf8.decodeFrom_encode 0 (c :: t)

/-- **A text whose characters an encoding has can be written in it, and is decoded again.** -/
theorem exists_encode? (h : ∀ c ∈ t, e.HasChar c) :
    ∃ bytes, e.encode? t = some bytes ∧ e.decode bytes = .ok t := by
  cases e with
  | utf8 => exact ⟨_, rfl, Utf8.decodeFrom_encode 0 t⟩
  | utf8Signed => exact ⟨_, rfl, decode_utf8Signed_mark t⟩
  | latin1 =>
    refine ⟨_, encodeBelow?_eq h, ?_⟩
    have hback : t.map (fun c => Char.ofNat (UInt8.ofNat c.toNat).toNat) = t :=
      (List.map_congr_left fun c hc => ofNat_toNat_byte (h c hc)).trans (List.map_id t)
    simp only [decode, List.map_map]
    exact congrArg Except.ok hback
  | ascii => exact ⟨_, encodeBelow?_eq h, decodeAsciiFrom_map h⟩
  | utf16 order => exact ⟨_, rfl, Utf16.decodeFrom_encode order 0 t⟩

/-! ### What is kept -/

/-- The text can be written, and is read back from its bytes as it was. -/
def Keeps (e : Encoding) (t : Text) : Prop :=
  ∃ bytes, e.encode? t = some bytes ∧ textOfBytes e bytes = .ok t

/-- What is read has only characters of the encoding, and no carriage return. -/
theorem mem_of_textOfBytes (h : textOfBytes e bytes = .ok t) (hc : c ∈ t) :
    e.HasChar c ∧ c ≠ '\r' := by
  rw [textOfBytes] at h
  cases hdecode : e.decode bytes with
  | error => simp [hdecode] at h
  | ok u =>
    simp only [hdecode, Except.ok.injEq] at h
    subst h
    obtain ⟨hmem | rfl, hne⟩ := Text.mem_unixLines hc
    · exact ⟨hasChar_of_decode hdecode hmem, hne⟩
    · exact ⟨hasChar_newline e, hne⟩

/-- **A text is kept exactly if the encoding has its characters and no carriage return is among
them.** -/
theorem keeps_iff : e.Keeps t ↔ ∀ c ∈ t, e.HasChar c ∧ c ≠ '\r' := by
  constructor
  · rintro ⟨bytes, -, hread⟩ c hc
    exact mem_of_textOfBytes hread hc
  · intro h
    obtain ⟨bytes, hencode, hdecode⟩ := exists_encode? fun c hc => (h c hc).1
    refine ⟨bytes, hencode, ?_⟩
    simp only [textOfBytes, hdecode]
    rw [Text.unixLines_of_not_mem fun hmem => (h _ hmem).2 rfl]

end Encoding

end ShaderInclude
