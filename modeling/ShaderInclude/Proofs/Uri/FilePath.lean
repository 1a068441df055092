import ShaderInclude.Proofs.Path.Place
import ShaderInclude.Proofs.Uri.Percent
import ShaderInclude.Uri.FilePath

/-!
# File paths as URIs and back

A writer is assumed to encode a path, behind `file://`. No character of an encoded path can be
mistaken for a delimiter, so such a URI is taken apart where it was put together: there is no
authority, because the path begins with a slash of its own, and the path part is the whole encoded
path.

Main statement: `Uri.exists_ofPath`, a canonical path from a root is led back to by its URI, if the
writer encodes it.
-/

namespace ShaderInclude

theorem Text.cutAt_of_not_mem {x : Char} {t : Text} (h : x ∉ t) : cutAt x t = (t, none) := by
  have hdrop : t.dropWhile (· ≠ x) = [] := by
    rw [List.dropWhile_eq_nil_iff]
    intro c hc
    exact decide_eq_true (ne_of_mem_of_not_mem hc h)
  rw [cutAt, hdrop]

/-- A path from a root is written with a slash in front. -/
theorem Path.exists_render_eq {p : Path} (hp : p.isAnchored = true) :
    ∃ t, p.render = '/' :: t := by
  obtain ⟨anchor, names⟩ := p
  cases anchor with
  | relative => cases hp
  | root => exact ⟨joinNames names, rfl⟩
  | doubleRoot => exact ⟨'/' :: joinNames names, rfl⟩

/-- Where a path leads that is written in a module below a root. -/
theorem Path.isAnchored_target {directory : Path} (h : directory.isAnchored = true)
    (written : Text) : (target directory written).isAnchored = true := by
  change (directory.join (parse written)).isAnchored = true
  rw [join]
  split
  case isTrue hwritten => exact hwritten
  case isFalse => exact h

namespace Uri

variable {c x : Char} {t : Text}

/-! ### Taking a URI apart -/

theorem not_mem_of_isWritten (ht : ∀ c ∈ t, Percent.IsWritten c) (hx : ¬ Percent.IsWritten x) :
    x ∉ t :=
  fun hmem => hx (ht x hmem)

/-- All characters that are written count, and so does a colon. -/
theorem counts_of_isWritten (h : Percent.IsWritten c ∨ c = ':') :
    ' ' < c ∧ c ≠ '\t' ∧ c ≠ '\r' ∧ c ≠ '\n' := by
  obtain h | rfl := h
  · exact Percent.forall_isAscii
      (P := fun c => Percent.IsWritten c → ' ' < c ∧ c ≠ '\t' ∧ c ≠ '\r' ∧ c ≠ '\n')
      (by decide) h.isAscii h
  · decide

theorem clean_of_isWritten (ht : ∀ c ∈ t, Percent.IsWritten c ∨ c = ':') : clean t = t := by
  have hdrop : t.dropWhile (fun c => c ≤ ' ') = t := by
    cases t with
    | nil => rfl
    | cons c t =>
      have hc := (counts_of_isWritten (ht c List.mem_cons_self)).1
      rw [List.dropWhile_cons_of_neg]
      simpa using hc
  rw [clean, hdrop, List.filter_eq_self]
  intro c hc
  simp [counts_of_isWritten (ht c hc)]

/-- **The URI of a file is taken apart** into the scheme and the path. -/
theorem parse_file (ht : ∀ c ∈ '/' :: t, Percent.IsWritten c) :
    parse ("file://".toList ++ '/' :: t) = .ok ⟨"file".toList, [], '/' :: t⟩ := by
  have hstart : "file://".toList.all (fun c => Percent.IsWritten c ∨ c = ':') = true := by decide
  have hclean : clean ("file://".toList ++ '/' :: t) = "file://".toList ++ '/' :: t := by
    refine clean_of_isWritten fun c hc => ?_
    rcases List.mem_append.mp hc with hc | hc
    · exact of_decide_eq_true (List.all_eq_true.mp hstart c hc)
    · exact .inl (ht c hc)
  have hscheme : splitScheme ("file://".toList ++ '/' :: t) =
      ("file".toList, '/' :: '/' :: '/' :: t) := by rfl
  have hauthority : splitAuthority ('/' :: '/' :: '/' :: t) = ([], '/' :: t) := by rfl
  have hhash : '#' ∉ '/' :: t := not_mem_of_isWritten ht (by decide)
  have hquestion : '?' ∉ '/' :: t := not_mem_of_isWritten ht (by decide)
  have hparameters : schemesWithParameters.contains (String.ofList "file".toList) = false := by
    decide
  simp only [parse, hclean, hscheme, hauthority, Text.cutAt_of_not_mem hhash,
    Text.cutAt_of_not_mem hquestion, hparameters]
  rfl

/-- **What the URI of a file names.** -/
theorem toPath_ofFile (t : Text) : toPath (ofFile ('/' :: t)) = .ok (Path.canonical ('/' :: t)) := by
  have hslash : Percent.encode ('/' :: t) = '/' :: Percent.encode t := by
    simp [Percent.encode, Percent.encodeChar, Percent.isPlain]
  have hwritten : ∀ c ∈ '/' :: Percent.encode t, Percent.IsWritten c := fun c hc =>
    Percent.isWritten_of_mem_encode (hslash ▸ hc)
  unfold toPath ofFile
  rw [hslash, parse_file hwritten]
  simp only [← hslash, Percent.decode_encode]

/-! ### Writers that encode -/

/-- What is assumed of a writer at a path: it encodes the whole path, behind `file://`. -/
def Writer.Encodes (write : Writer) (p : Path) : Prop :=
  write p.render = .ok (some (ofFile p.render))

variable {write : Writer} {p : Path}

theorem Writer.Encodes.ofPath_eq (h : write.Encodes p) : ofPath write p = .ok (ofFile p.render) := by
  rw [ofPath, h]
  rfl

/-- **A path is led back to** by its URI, if the writer encodes it. -/
theorem exists_ofPath (hp : p.IsCanonical) (hroot : p.isAnchored = true) (h : write.Encodes p) :
    ∃ a, ofPath write p = .ok a ∧ toPath a = .ok p := by
  obtain ⟨t, ht⟩ := Path.exists_render_eq hroot
  refine ⟨_, h.ofPath_eq, ?_⟩
  rw [ht, toPath_ofFile, ← ht, Path.canonical, Path.parse_render, hp]

end Uri

end ShaderInclude
