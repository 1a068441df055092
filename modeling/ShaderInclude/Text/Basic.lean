/-!
# Texts as lists of characters

Sources, paths, addresses and settings are handled as lists of characters, so that offsets count
characters and every function is a recursion on the list. `Text.isSpace` is the blank class of
the directive grammars (ASCII only) and `Text.isBlank` the class that `Text.strip` removes from
the ends of a text (all of Unicode's white space and the four information separators).
-/

namespace ShaderInclude

/-- A text, character by character. -/
abbrev Text := List Char

namespace Text

/-- The text of a literal. -/
def ofString (s : String) : Text := s.toList

/-! ### Blank characters -/

/-- Space, tab, newline, vertical tab, form feed and carriage return. -/
def isSpace (c : Char) : Bool := c = ' ' || ('\t' ≤ c && c ≤ '\r')

/-- White space in the sense of Unicode, together with the separators `U+001C` to `U+001F`.
The zero width space and the byte order mark do not belong to it. -/
def isBlank (c : Char) : Bool :=
  isSpace c || ('\x1c' ≤ c && c ≤ '\x1f') || c = '\u0085' || c = '\u00a0' || c = '\u1680' ||
    ('\u2000' ≤ c && c ≤ '\u200a') || c = '\u2028' || c = '\u2029' || c = '\u202f' ||
    c = '\u205f' || c = '\u3000'

/-- The text without the blanks at its two ends. -/
def strip (t : Text) : Text := ((t.dropWhile isBlank).reverse.dropWhile isBlank).reverse

/-! ### Cutting and searching -/

/-- The pieces between the occurrences of a separator; a text without any is its own only
piece. -/
def splitOn (sep : Char) : Text → List Text
  | [] => [[]]
  | c :: t =>
    if c = sep then [] :: splitOn sep t
    else match splitOn sep t with
      | [] => [[c]]
      | piece :: pieces => (c :: piece) :: pieces

/-- The part before the first occurrence of a separator and, if there is one, the part after. -/
def cutAt (sep : Char) (t : Text) : Text × Option Text :=
  match t.dropWhile (· ≠ sep) with
  | [] => (t, none)
  | _ :: rest => (t.takeWhile (· ≠ sep), some rest)

/-- The rest of the text after a given beginning. -/
def after? : (start t : Text) → Option Text
  | [], t => some t
  | _ :: _, [] => none
  | a :: start, c :: t => if a = c then after? start t else none

/-- Whether `part` is a run of consecutive characters of the text. -/
def hasPart (part : Text) : Text → Bool
  | [] => part.isEmpty
  | c :: t => part.isPrefixOf (c :: t) || hasPart part t

/-- ASCII capitals become small letters, all else stays. -/
def toLower (t : Text) : Text := t.map Char.toLower

/-- Texts are sorted by their code points, a proper beginning first. -/
def sort (texts : List Text) : List Text := texts.mergeSort fun a b => decide (¬ b < a)

/-! ### Laws -/

theorem after?_append (start t : Text) : after? start (start ++ t) = some t := by
  induction start with
  | nil => rfl
  | cons a start ih => simp [after?, ih]

theorem eq_append_of_after? {start t rest : Text} (h : after? start t = some rest) :
    t = start ++ rest := by
  induction start generalizing t with
  | nil => simpa [after?] using h
  | cons a start ih =>
    cases t with
    | nil => simp [after?] at h
    | cons c t =>
      simp only [after?] at h
      split at h
      · next hac => simp [hac, ih h]
      · simp at h

/-- A text without the separator is its own only piece. -/
theorem splitOn_of_not_mem {sep : Char} {t : Text} (h : sep ∉ t) : splitOn sep t = [t] := by
  induction t with
  | nil => rfl
  | cons c t ih =>
    obtain ⟨hc, ht⟩ := not_or.mp (mt List.mem_cons.mpr h)
    rw [splitOn, if_neg (Ne.symm hc), ih ht]

/-- A separator occurs in no piece. -/
theorem sep_not_mem_of_mem_splitOn {sep : Char} {t piece : Text} (h : piece ∈ splitOn sep t) :
    sep ∉ piece := by
  induction t generalizing piece with
  | nil => simp [splitOn] at h; simp [h]
  | cons c t ih =>
    simp only [splitOn] at h
    split at h
    · rcases List.mem_cons.1 h with rfl | h
      · simp
      · exact ih h
    · next hc =>
      split at h
      · simp at h; simp [h, Ne.symm hc]
      · next piece' pieces heq =>
        rw [heq] at ih
        rcases List.mem_cons.1 h with rfl | h
        · simp [Ne.symm hc, ih (List.mem_cons_self ..)]
        · exact ih (List.mem_cons_of_mem _ h)

end Text

end ShaderInclude
