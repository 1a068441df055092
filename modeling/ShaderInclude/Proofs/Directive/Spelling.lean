import Mathlib.Data.List.Infix
import ShaderInclude.Directive.Scan

/-!
# How directives are written

`Spelling` holds the parts of a directive in the order in which they are written, each of them with
the rule of the grammar for it, and `Spelling.text` puts them together. A `Site` is a spelling at an
offset; `Site.IsIn` says that a source has the spelling there, the anchor included. So the sites of
a source are the occurrences of the two grammars, however they lie, and nothing here says which of
them a scan reports.

Main statements: two stretches of a source without a common character lie apart (`apart`), and of
two sites the one whose `&` comes second has everything up to this `&` inside the path of the first
one, or begins behind the quote that ends this path (`Site.inPath_or_behind`).
-/

namespace ShaderInclude

namespace Directive

/-! ### The grammars -/

/-- A text of blanks. -/
def Blanks (t : Text) : Prop := ∀ c ∈ t, Text.isSpace c = true

/-- The word between `&` and the path. -/
def keyword : Text := ['i', 'n', 'c', 'l', 'u', 'd', 'e']

/-- What a form has between the blanks after the anchor and `&`. -/
def Opens : Form → Text → Prop
  | .line, t => ∃ blanks, Blanks blanks ∧ (t = blanks ∨ t = '/' :: '/' :: blanks)
  | .block, t => ∃ blanks, Blanks blanks ∧ t = '/' :: '*' :: blanks

/-- What a form has after the second quote: a closing, and a terminator that only lines have. -/
def Closes : Form → (closing terminator : Text) → Prop
  | .line, closing, terminator => Blanks closing ∧ (terminator = [';'] ∨ terminator = ['\n'])
  | .block, closing, terminator =>
    terminator = [] ∧ ∃ before after, Blanks before ∧ Blanks after ∧
      (closing = before ++ (after ++ ['*', '/']) ∨ closing = before ++ ';' :: (after ++ ['*', '/']))

/-- A directive as it is written, with the anchor before it. -/
structure Spelling (f : Form) where
  anchor : Text
  anchor_mem : anchor ∈ [[], ['\n'], ['}'], [';']]
  /-- The blanks after the anchor. -/
  indent : Text
  blanks_indent : Blanks indent
  opening : Text
  opens : Opens f opening
  /-- The blanks after `&`. -/
  gap : Text
  blanks_gap : Blanks gap
  /-- The blanks after the keyword. -/
  space : Text
  blanks_space : Blanks space
  space_ne_nil : space ≠ []
  openQuote : Char
  isQuote_openQuote : isQuote openQuote = true
  path : Text
  path_ne_nil : path ≠ []
  newline_not_mem_path : '\n' ∉ path
  closeQuote : Char
  isQuote_closeQuote : isQuote closeQuote = true
  closing : Text
  terminator : Text
  closes : Closes f closing terminator

namespace Spelling

variable {f : Form} (w : Spelling f)

/-- What comes before `&`. -/
def lead : Text := w.anchor ++ (w.indent ++ w.opening)

/-- From behind `&` to the first quote. -/
def key : Text := w.gap ++ (keyword ++ (w.space ++ [w.openQuote]))

/-- What comes after the second quote. -/
def ending : Text := w.closing ++ w.terminator

/-- All parts together. -/
def text : Text := w.lead ++ '&' :: (w.key ++ (w.path ++ w.closeQuote :: w.ending))

end Spelling

/-- A spelling at an offset. -/
structure Site (f : Form) extends Spelling f where
  offset : Nat

namespace Site

variable {f : Form} (x : Site f)

/-- A source has the spelling at the offset; only at its start it may be without an anchor. -/
def IsIn (source : Text) : Prop :=
  (x.anchor = [] → x.offset = 0) ∧ x.text <+: source.drop x.offset

/-- The offset of `&`. -/
def ampersand : Nat := x.offset + x.lead.length

/-- The offset of the first character of the path. -/
def pathStart : Nat := x.ampersand + 1 + x.key.length

/-- The offset of the quote after the path. -/
def pathStop : Nat := x.pathStart + x.path.length

/-- The offset after the last character. -/
def finish : Nat := x.offset + x.text.length

/-- Where a search goes on behind the site: its terminator is looked at again. -/
def resume : Nat := x.finish - x.terminator.length

/-- The directive of a site. It starts after the anchor, and after `}` and `;` also the blanks that
follow are left out; a newline that terminates it is left out as well. -/
def directive : Directive where
  form := f
  path := x.path
  start := x.offset + x.anchor.length +
    if x.anchor = ['}'] ∨ x.anchor = [';'] then x.indent.length else 0
  stop := x.finish - if x.terminator = ['\n'] then 1 else 0

end Site

/-! ### Characters of the parts -/

theorem Blanks.not_mem {t : Text} (ht : Blanks t) {c : Char} (hc : Text.isSpace c = false) :
    c ∉ t := by
  intro hmem
  rw [ht c hmem] at hc
  cases hc

theorem Blanks.nil : Blanks [] := by simp [Blanks]

theorem Blanks.singleton {c : Char} (hc : Text.isSpace c = true) : Blanks [c] := by
  simpa [Blanks] using hc

theorem Blanks.append {t u : Text} (ht : Blanks t) (hu : Blanks u) : Blanks (t ++ u) := by
  intro c hc
  exact (List.mem_append.mp hc).elim (ht c) (hu c)

/-- A terminator is one character or none. -/
theorem Closes.terminator_eq {f : Form} {closing terminator : Text}
    (h : Closes f closing terminator) : terminator = terminator.head?.toList := by
  cases f with
  | line => rcases h.2 with rfl | rfl <;> rfl
  | block =>
    rw [h.1]
    rfl

theorem Closes.length_terminator_le {f : Form} {closing terminator : Text}
    (h : Closes f closing terminator) : terminator.length ≤ 1 := by
  rw [h.terminator_eq]
  rcases terminator.head? <;> simp

theorem ne_of_isQuote {c d : Char} (hc : isQuote c = true) (hd : isQuote d = false) : c ≠ d := by
  rintro rfl
  rw [hc] at hd
  cases hd

namespace Spelling

variable {f : Form} (w : Spelling f)

theorem anchor_cases :
    w.anchor = [] ∨ w.anchor = ['\n'] ∨ w.anchor = ['}'] ∨ w.anchor = [';'] := by
  simpa using w.anchor_mem

/-- What stands between the blanks after the anchor and `&`, character by character. -/
theorem mem_opening {c : Char} (hc : c ∈ w.opening) :
    Text.isSpace c = true ∨ c = '/' ∨ f = .block ∧ c = '*' := by
  have hopens := w.opens
  cases f with
  | line =>
    obtain ⟨blanks, hblanks, h | h⟩ := hopens
    · exact .inl (hblanks c (h ▸ hc))
    · rw [h, List.mem_cons, List.mem_cons] at hc
      obtain rfl | rfl | hc := hc
      · exact .inr (.inl rfl)
      · exact .inr (.inl rfl)
      · exact .inl (hblanks c hc)
  | block =>
    obtain ⟨blanks, hblanks, h⟩ := hopens
    rw [h, List.mem_cons, List.mem_cons] at hc
    obtain rfl | rfl | hc := hc
    · exact .inr (.inl rfl)
    · exact .inr (.inr ⟨rfl, rfl⟩)
    · exact .inl (hblanks c hc)

/-- What stands before `&`, character by character. -/
theorem mem_lead {c : Char} (hc : c ∈ w.lead) :
    c = '}' ∨ c = ';' ∨ Text.isSpace c = true ∨ c = '/' ∨ f = .block ∧ c = '*' := by
  rcases List.mem_append.mp hc with hc | hc
  · rcases w.anchor_cases with h | h | h | h <;> rw [h] at hc <;> simp at hc <;> subst hc
    · exact .inr (.inr (.inl rfl))
    · exact .inl rfl
    · exact .inr (.inl rfl)
  · rcases List.mem_append.mp hc with hc | hc
    · exact .inr (.inr (.inl (w.blanks_indent c hc)))
    · exact .inr (.inr (w.mem_opening hc))

theorem ampersand_not_mem_key : '&' ∉ w.key := by
  simp only [key, keyword, List.mem_append, List.mem_cons, List.not_mem_nil, or_false, not_or]
  refine ⟨w.blanks_gap.not_mem rfl, by decide, w.blanks_space.not_mem rfl, ?_⟩
  exact (ne_of_isQuote w.isQuote_openQuote rfl).symm

/-- What stands behind the second quote, character by character. -/
theorem mem_ending {c : Char} (hc : c ∈ w.ending) :
    Text.isSpace c = true ∨ c = ';' ∨ f = .block ∧ (c = '*' ∨ c = '/') := by
  have hcloses := w.closes
  cases f with
  | line =>
    obtain ⟨hblanks, hterminator⟩ := hcloses
    rcases List.mem_append.mp hc with hc | hc
    · exact .inl (hblanks c hc)
    · rcases hterminator with h | h <;> rw [h, List.mem_singleton] at hc <;> subst hc
      · exact .inr (.inl rfl)
      · exact .inl rfl
  | block =>
    obtain ⟨hterminator, before, after, hbefore, hafter, h | h⟩ := hcloses
    all_goals
      simp only [ending, hterminator, h, List.append_nil, List.mem_append, List.mem_cons,
        List.not_mem_nil, or_false] at hc
    · obtain hc | hc | hc := hc
      · exact .inl (hbefore c hc)
      · exact .inl (hafter c hc)
      · exact .inr (.inr ⟨rfl, hc⟩)
    · obtain hc | hc | hc | hc := hc
      · exact .inl (hbefore c hc)
      · exact .inr (.inl hc)
      · exact .inl (hafter c hc)
      · exact .inr (.inr ⟨rfl, hc⟩)

theorem not_mem_lead_of_isQuote {c : Char} (hc : isQuote c = true) : c ∉ w.lead := by
  intro hmem
  simp only [isQuote, Bool.or_eq_true, decide_eq_true_eq] at hc
  rcases w.mem_lead hmem with h | h | h | h | ⟨-, h⟩ <;> rcases hc with rfl | rfl <;>
    revert h <;> decide

theorem ampersand_not_mem_lead : '&' ∉ w.lead := by
  intro hmem
  rcases w.mem_lead hmem with h | h | h | h | ⟨-, h⟩ <;> revert h <;> decide

theorem ampersand_not_mem_ending : '&' ∉ w.ending := by
  intro hmem
  rcases w.mem_ending hmem with h | h | ⟨-, h | h⟩ <;> revert h <;> decide

end Spelling

/-! ### Stretches of a source -/

/-- **Two stretches of a source without a common character lie apart.** -/
theorem apart {source y z : Text} {k l : Nat} (hy : y <+: source.drop k) (hz : z <+: source.drop l)
    (hyz : y.Disjoint z) :
    k + y.length ≤ l ∨ l + z.length ≤ k ∨ y.length = 0 ∨ z.length = 0 := by
  by_contra hmeet
  simp only [not_or, not_le] at hmeet
  obtain ⟨hkl, hlk, hy₀, hz₀⟩ := hmeet
  -- the later one of the two beginnings lies in both
  have hi : max k l - k < y.length := by omega
  have hj : max k l - l < z.length := by omega
  have hfst := List.prefix_iff_getElem?.mp hy _ hi
  have hsnd := List.prefix_iff_getElem?.mp hz _ hj
  rw [List.getElem?_drop, Nat.add_sub_cancel' (le_max_left k l)] at hfst
  rw [List.getElem?_drop, Nat.add_sub_cancel' (le_max_right k l)] at hsnd
  have hsame : y[max k l - k] = z[max k l - l] := Option.some.inj (hfst.symm.trans hsnd)
  exact hyz (List.getElem_mem hi) (hsame ▸ List.getElem_mem hj)

namespace Site

variable {f g : Form} {x : Site f} {y : Site g} {source : Text}

theorem finish_eq : x.finish = x.pathStop + 1 + x.ending.length := by
  simp only [finish, pathStop, pathStart, ampersand, Spelling.text, List.length_append,
    List.length_cons]
  omega

/-- The terminator is the last thing that a spelling has. -/
theorem resume_eq : x.resume = x.pathStop + 1 + x.closing.length := by
  rw [resume, finish_eq, Spelling.ending, List.length_append]
  omega

theorem ampersand_lt_pathStart : x.ampersand < x.pathStart :=
  Nat.lt_add_right _ (Nat.lt_succ_self _)

theorem pathStart_lt_pathStop : x.pathStart < x.pathStop :=
  Nat.lt_add_of_pos_right (List.length_pos_of_ne_nil x.path_ne_nil)

/-- A search goes forward. -/
theorem offset_lt_resume (x : Site f) : x.offset < x.resume := by
  have hpath := x.pathStart_lt_pathStop
  have hamp := x.ampersand_lt_pathStart
  rw [resume_eq]
  rw [Site.ampersand] at hamp
  omega

theorem ampersand_lt_resume (x : Site f) : x.ampersand < x.resume := by
  have hpath := x.pathStart_lt_pathStop
  have hamp := x.ampersand_lt_pathStart
  rw [resume_eq]
  omega

theorem offset_le_start (x : Site f) : x.offset ≤ x.directive.start :=
  (Nat.le_add_right _ _).trans (Nat.le_add_right _ _)

/-- What a directive leaves out at its beginning is the anchor and blanks. -/
theorem start_le_ampersand (x : Site f) : x.directive.start ≤ x.ampersand := by
  simp only [directive, ampersand, Spelling.lead, List.length_append]
  split <;> omega

/-- What a directive leaves out at its end is a terminator. -/
theorem resume_le_stop (x : Site f) : x.resume ≤ x.directive.stop := by
  simp only [directive, resume]
  split
  case isTrue h => rw [h, List.length_singleton]
  case isFalse => omega

theorem start_lt_stop (x : Site f) : x.directive.start < x.directive.stop :=
  (x.start_le_ampersand.trans_lt x.ampersand_lt_resume).trans_le x.resume_le_stop

theorem stop_le_finish (x : Site f) : x.directive.stop ≤ x.finish := Nat.sub_le _ _

/-- A part of a spelling is found in the source behind the parts before it. -/
theorem IsIn.part (h : x.IsIn source) (before part after : Text)
    (htext : x.text = before ++ (part ++ after)) {k : Nat} (hk : k = x.offset + before.length) :
    part <+: source.drop k := by
  obtain ⟨rest, hrest⟩ := h.2
  refine ⟨after ++ rest, ?_⟩
  rw [hk, ← List.drop_drop, ← hrest, htext, List.append_assoc, List.drop_left, List.append_assoc]

theorem IsIn.lead (h : x.IsIn source) : x.lead <+: source.drop x.offset :=
  h.part [] x.lead _ rfl rfl

theorem IsIn.anchor (h : x.IsIn source) : x.anchor <+: source.drop x.offset :=
  (List.prefix_append _ _).trans h.lead

theorem IsIn.ampersand (h : x.IsIn source) : ['&'] <+: source.drop x.ampersand :=
  h.part x.lead ['&'] _ rfl rfl

theorem IsIn.key (h : x.IsIn source) : x.key <+: source.drop (x.ampersand + 1) := by
  refine h.part (x.lead ++ ['&']) x.key (x.path ++ x.closeQuote :: x.ending)
    (by simp [Spelling.text]) ?_
  simp only [Site.ampersand, List.length_append, List.length_singleton]
  omega

theorem IsIn.openQuote (h : x.IsIn source) : [x.openQuote] <+: source.drop (x.pathStart - 1) := by
  refine h.part (x.lead ++ '&' :: (x.gap ++ (keyword ++ x.space))) [x.openQuote]
    (x.path ++ x.closeQuote :: x.ending) (by simp [Spelling.text, Spelling.key]) ?_
  simp only [pathStart, Site.ampersand, Spelling.key, List.length_append, List.length_cons,
    List.length_nil]
  omega

theorem IsIn.closeQuote (h : x.IsIn source) : [x.closeQuote] <+: source.drop x.pathStop := by
  refine h.part (x.lead ++ '&' :: (x.key ++ x.path)) [x.closeQuote] x.ending
    (by simp [Spelling.text]) ?_
  simp only [pathStop, pathStart, Site.ampersand, List.length_append, List.length_cons]
  omega

theorem IsIn.ending (h : x.IsIn source) : x.ending <+: source.drop (x.pathStop + 1) := by
  refine h.part (x.lead ++ '&' :: (x.key ++ (x.path ++ [x.closeQuote]))) x.ending []
    (by simp [Spelling.text]) ?_
  simp only [pathStop, pathStart, Site.ampersand, List.length_append, List.length_cons,
    List.length_nil]
  omega

theorem IsIn.closing (h : x.IsIn source) : x.closing <+: source.drop (x.pathStop + 1) :=
  (List.prefix_append _ _).trans h.ending

theorem IsIn.text_append (h : x.IsIn source) :
    x.text ++ source.drop x.finish = source.drop x.offset := by
  obtain ⟨rest, hrest⟩ := h.2
  rw [finish, ← List.drop_drop, ← hrest, List.drop_left]

/-- A site lies in its source. -/
theorem IsIn.finish_le (h : x.IsIn source) : x.finish ≤ source.length := by
  have hlength := h.2.length_le
  rw [List.length_drop] at hlength
  have htext : 0 < x.text.length := by
    rw [Spelling.text, List.length_append, List.length_cons]
    omega
  rw [finish]
  omega

/-! ### Two sites of a source -/

/-- Behind the start of the source a directive leaves out its anchor. -/
theorem IsIn.offset_lt_start (h : x.IsIn source) (hpos : 0 < x.offset) :
    x.offset < x.directive.start := by
  have hanchor : 0 < x.anchor.length :=
    List.length_pos_of_ne_nil fun hnil => hpos.ne' (h.1 hnil)
  simp only [directive]
  omega

/-- A directive that is found behind another one begins behind it. -/
theorem stop_le_start_of_resume_le (hy : y.IsIn source) (h : x.resume ≤ y.offset) :
    x.directive.stop ≤ y.directive.start := by
  have hstart := hy.offset_lt_start (x.offset.zero_le.trans_lt (x.offset_lt_resume.trans_le h))
  have hterminator := x.closes.length_terminator_le
  have hstop := x.stop_le_finish
  rw [resume] at h
  omega

/-- **Of two sites, of whichever forms, the one whose `&` comes second has everything up to this `&`
inside the path of the first one, or begins behind the quote that ends this path.** -/
theorem inPath_or_behind (hx : x.IsIn source) (hy : y.IsIn source)
    (hxy : x.ampersand < y.ampersand) :
    x.pathStart ≤ y.offset ∧ y.ampersand < x.pathStop ∨ x.pathStop < y.offset := by
  -- no `&` stands between that of `x` and its path, no quote before the `&` of `y`
  have hkey := apart hy.ampersand hx.key (List.singleton_disjoint.mpr x.ampersand_not_mem_key)
  have hopen := apart hx.openQuote hy.lead
    (List.singleton_disjoint.mpr (y.not_mem_lead_of_isQuote x.isQuote_openQuote))
  have hclose := apart hx.closeQuote hy.lead
    (List.singleton_disjoint.mpr (y.not_mem_lead_of_isQuote x.isQuote_closeQuote))
  have hquote := apart hx.closeQuote hy.ampersand
    (List.singleton_disjoint.mpr (by simpa using ne_of_isQuote x.isQuote_closeQuote rfl))
  have hlength : 0 < x.key.length := by
    rw [Spelling.key, List.length_append, List.length_append, keyword, List.length_cons]
    omega
  have hstart : x.pathStart = x.ampersand + 1 + x.key.length := rfl
  have hstop : x.pathStop = x.pathStart + x.path.length := rfl
  have hamp : y.ampersand = y.offset + y.lead.length := rfl
  simp only [List.length_singleton] at hkey hopen hclose hquote
  omega

end Site

end Directive

end ShaderInclude
