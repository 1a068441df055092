import ShaderInclude.Proofs.Directive.Order

/-!
# A directive between two texts

`framed f x p y` is a source with one directive on lines of its own, written in the form `f` with
the path `p`, after the text `x` and before the text `y`; `Framed` says what is asked of the three.

Nothing in such a source but the `&` of the directive can be that of a site
(`Framed.ampersand_eq`), so every site, of whichever form, has the path `p`
(`Framed.parts_eq`), and a scan finds at most one directive of each form (`Framed.scanForm_cases`).
Where a site begins and where it ends is left open by this: `x` and `y` are any texts, and a site may
take a part of them.
-/

namespace ShaderInclude

namespace Directive

/-! ### Texts that are cut at a character -/

section Cut

variable {a b s t u : Text} {c d : Char} {i : Nat}

/-- A character that is found behind a text without it is found in what follows this text. -/
theorem drop_append_of_not_mem (h : (a ++ b).drop i = c :: t) (hc : c ∉ a) :
    a.length ≤ i ∧ b.drop (i - a.length) = c :: t := by
  by_cases hi : a.length ≤ i
  · refine ⟨hi, ?_⟩
    rw [← h, List.drop_append, List.drop_of_length_le hi, List.nil_append]
  · refine absurd ?_ hc
    obtain ⟨e, r, her⟩ : ∃ e r, a.drop i = e :: r := List.exists_cons_of_ne_nil (by simpa using hi)
    rw [List.drop_append_of_le_length (by omega), her] at h
    obtain rfl : e = c := (List.cons.inj h).1
    exact List.drop_subset i a (her ▸ List.mem_cons_self)

/-- A text is cut in one way only at its first quote. -/
theorem append_quote_inj (h : a ++ c :: s = b ++ d :: t) (ha : ∀ e ∈ a, isQuote e = false)
    (hb : ∀ e ∈ b, isQuote e = false) (hc : isQuote c = true) (hd : isQuote d = true) :
    a = b ∧ c = d ∧ s = t := by
  induction a generalizing b with
  | nil =>
    cases b with
    | nil => exact ⟨rfl, List.cons.inj h⟩
    | cons e b =>
      obtain rfl : c = e := (List.cons.inj h).1
      exact absurd hc (by simp [hb c List.mem_cons_self])
  | cons e a ih =>
    obtain ⟨he, ha⟩ := List.forall_mem_cons.mp ha
    cases b with
    | nil =>
      obtain rfl : e = d := (List.cons.inj h).1
      exact absurd hd (by simp [he])
    | cons e' b =>
      obtain ⟨rfl, htail⟩ := List.cons.inj h
      obtain ⟨rfl, hrest⟩ := ih htail ha (List.forall_mem_cons.mp hb).2
      exact ⟨rfl, hrest⟩

/-- What follows a text without a newline stands before the first newline. -/
theorem mem_of_append_cons_eq (h : a ++ c :: s = b ++ '\n' :: t) (ha : '\n' ∉ a) (hc : c ≠ '\n') :
    c ∈ b := by
  induction a generalizing b with
  | nil =>
    cases b with
    | nil => exact absurd (List.cons.inj h).1 hc
    | cons e b => exact (List.cons.inj h).1 ▸ List.mem_cons_self
  | cons e a ih =>
    obtain ⟨he, ha⟩ := not_or.mp (mt List.mem_cons.mpr ha)
    cases b with
    | nil => exact absurd (List.cons.inj h).1.symm he
    | cons e' b => exact List.mem_cons_of_mem e' (ih (List.cons.inj h).2 ha)

/-- What is not in the second part of a text is found before it. -/
theorem length_lt_of_append_cons_eq (h : a ++ c :: s = b ++ t) (hc : c ∉ t) :
    a.length < b.length := by
  obtain ⟨b', rfl, hb⟩ | ⟨a', rfl, ht⟩ := List.append_eq_append_iff.mp h
  · cases b' with
    | nil =>
      rw [List.nil_append] at hb
      exact absurd (hb ▸ List.mem_cons_self) hc
    | cons e b' => simp
  · exact absurd (by simp [ht]) hc

end Cut

/-! ### Directives as they are usually written -/

/-- What a form has before its `&`. -/
def mark : Form → Text
  | .line => []
  | .block => "/* ".toList

/-- What a form has behind its path. -/
def unmark : Form → Text
  | .line => []
  | .block => " */".toList

/-- A directive in a given form. -/
def usual (f : Form) (p : Text) : Text := mark f ++ ("& include \"".toList ++ (p ++ '"' :: unmark f))

/-- A source with a directive in it. -/
def framed (f : Form) (x p y : Text) : Text := x ++ (usual f p ++ y)

/-- **A directive on lines of its own**: the text before it is empty or ends a line, the text behind
it begins with the end of a line, both have no `&`, and the path is on one line and has no quotes. -/
structure Framed (x p y : Text) : Prop where
  before : x = [] ∨ ∃ front, x = front ++ ['\n']
  behind : ∃ rest, y = '\n' :: rest
  ampersand_not_mem_before : '&' ∉ x
  ampersand_not_mem_behind : '&' ∉ y
  path_ne_nil : p ≠ []
  path_plain : ∀ c ∈ p, isQuote c = false ∧ c ≠ '\n'

variable {f g : Form} {x p y : Text}

theorem framed_eq (f : Form) (x p y : Text) : framed f x p y =
    (x ++ mark f) ++ '&' :: (" include \"".toList ++ (p ++ '"' :: (unmark f ++ y))) := by
  simp [framed, usual]

theorem framed_eq_append (f : Form) (x p y : Text) :
    framed f x p y = (x ++ usual f p) ++ y := by
  rw [framed, List.append_assoc]

theorem length_framed (f : Form) (x p y : Text) :
    (framed f x p y).length = x.length + (usual f p).length + y.length := by
  rw [framed_eq_append, List.length_append, List.length_append]

theorem length_usual (f : Form) (p : Text) :
    (usual f p).length = (mark f).length + 1 + 10 + p.length + 1 + (unmark f).length := by
  simp only [usual, List.length_append, List.length_cons]
  have hkey : ("& include \"".toList).length = 11 := rfl
  omega

/-- What a form has around its directive is `/`, `*` and a blank. -/
theorem not_mem_mark {c : Char} (hc : c ∉ ['/', '*', ' ']) (f : Form) :
    c ∉ mark f ∧ c ∉ unmark f := by
  simp only [List.mem_cons, List.not_mem_nil, or_false, not_or] at hc
  cases f <;> simp [mark, unmark, hc]

/-- A quote behind the path would have to stand on another line. -/
theorem Framed.false_of_path_behind (h : Framed x p y) {path s : Text} {q : Char}
    (hnewline : '\n' ∉ path) (hq : isQuote q = true) (hbehind : path ++ q :: s = unmark f ++ y) :
    False := by
  obtain ⟨rest, rfl⟩ := h.behind
  have hmark : q ∉ ['/', '*', ' '] := by
    rintro hmem
    simp only [List.mem_cons, List.not_mem_nil, or_false] at hmem
    rcases hmem with rfl | rfl | rfl <;> cases hq
  exact (not_mem_mark hmark f).2 (mem_of_append_cons_eq hbehind hnewline (ne_of_isQuote hq rfl))

/-! ### The only `&` -/

/-- Behind its `&` a site has its parts up to the end. -/
theorem Site.IsIn.drop_ampersand {source : Text} {z : Site g} (hz : z.IsIn source) :
    source.drop z.ampersand = '&' :: (z.key ++ (z.path ++ z.closeQuote :: (z.ending ++
      source.drop z.finish))) := by
  rw [Site.ampersand, ← List.drop_drop, ← hz.text_append, Spelling.text, List.append_assoc,
    List.drop_left]
  simp

theorem Spelling.isQuote_eq_false_of_mem_key (w : Spelling g) :
    ∀ c ∈ w.gap ++ (keyword ++ w.space), isQuote c = false := by
  intro c hc
  have hblank : Text.isSpace c = true → isQuote c = false := by
    intro hspace
    by_contra hquote
    rw [isSpace_of_isQuote (Bool.not_eq_false _ ▸ hquote)] at hspace
    cases hspace
  rw [List.mem_append, List.mem_append] at hc
  obtain hc | hc | hc := hc
  · exact hblank (w.blanks_gap c hc)
  · have hkeyword : keyword.all fun c => !isQuote c := by decide
    simpa using List.all_eq_true.mp hkeyword c hc
  · exact hblank (w.blanks_space c hc)

/-- No site has its `&` in the path: it would open its own path with the quote that ends it. -/
theorem Framed.false_of_ampersand_mem_path (h : Framed x p y) {z : Site g} {p₁ p₂ s : Text}
    (hp : p = p₁ ++ '&' :: p₂) (hkey : z.key ++ (z.path ++ z.closeQuote :: s) =
      p₂ ++ '"' :: (unmark f ++ y)) : False := by
  have hplain : ∀ c ∈ p₂, isQuote c = false := fun c hc => (h.path_plain c (by simp [hp, hc])).1
  have hsplit : (z.gap ++ (keyword ++ z.space)) ++ z.openQuote :: (z.path ++ z.closeQuote :: s) =
      p₂ ++ '"' :: (unmark f ++ y) := by
    rw [← hkey, Spelling.key]
    simp
  obtain ⟨-, -, hbehind⟩ := append_quote_inj hsplit z.isQuote_eq_false_of_mem_key hplain
    z.isQuote_openQuote rfl
  exact h.false_of_path_behind z.newline_not_mem_path z.isQuote_closeQuote hbehind

/-- **Every site has the `&` of the directive.** -/
theorem Framed.ampersand_eq (h : Framed x p y) {z : Site g} (hz : z.IsIn (framed f x p y)) :
    z.ampersand = x.length + (mark f).length := by
  have hbefore : '&' ∉ x ++ mark f := by
    rw [List.mem_append, not_or]
    exact ⟨h.ampersand_not_mem_before, (not_mem_mark (by decide) f).1⟩
  have hbehind : '&' ∉ '"' :: (unmark f ++ y) := by
    rw [List.mem_cons, List.mem_append, not_or, not_or]
    exact ⟨by decide, (not_mem_mark (by decide) f).2, h.ampersand_not_mem_behind⟩
  have hz_drop := hz.drop_ampersand
  rw [framed_eq] at hz_drop
  obtain ⟨hle, hdrop⟩ := drop_append_of_not_mem hz_drop hbefore
  rw [List.length_append] at hle hdrop
  by_contra hne
  -- otherwise the `&` is found further behind, and only the path can have it
  obtain ⟨j, hj⟩ : ∃ j, z.ampersand - (x.length + (mark f).length) = j + 1 :=
    Nat.exists_eq_succ_of_ne_zero (by omega)
  rw [hj, List.drop_succ_cons] at hdrop
  obtain ⟨-, hdrop⟩ := drop_append_of_not_mem hdrop (by decide)
  generalize j - (" include \"".toList).length = k at hdrop
  by_cases hk : k < p.length
  · obtain ⟨c, p₂, hp₂⟩ : ∃ c p₂, p.drop k = c :: p₂ :=
      List.exists_cons_of_ne_nil (by simpa using hk)
    rw [List.drop_append_of_le_length hk.le, hp₂] at hdrop
    obtain ⟨rfl, hkey⟩ := List.cons.inj hdrop
    have hp : p = p.take k ++ '&' :: p₂ := by rw [← hp₂, List.take_append_drop]
    exact h.false_of_ampersand_mem_path hp hkey.symm
  · rw [List.drop_append, List.drop_of_length_le (not_lt.mp hk), List.nil_append] at hdrop
    have hmem : '&' ∈ ('"' :: (unmark f ++ y)).drop (k - p.length) := hdrop ▸ List.mem_cons_self
    exact hbehind (List.drop_subset _ _ hmem)

/-- **Every site has the path of the directive**, and its ending begins where that of the directive
does. -/
theorem Framed.parts_eq (h : Framed x p y) {z : Site g} (hz : z.IsIn (framed f x p y)) :
    z.key.length = 10 ∧ z.path = p ∧
      z.ending ++ (framed f x p y).drop z.finish = unmark f ++ y := by
  have hdrop : (framed f x p y).drop z.ampersand =
      '&' :: (" include ".toList ++ '"' :: (p ++ '"' :: (unmark f ++ y))) := by
    rw [h.ampersand_eq hz, ← List.length_append, framed_eq, List.drop_left]
    rfl
  rw [hz.drop_ampersand] at hdrop
  have hsplit : (z.gap ++ (keyword ++ z.space)) ++ z.openQuote :: (z.path ++ z.closeQuote ::
      (z.ending ++ (framed f x p y).drop z.finish)) =
      " include ".toList ++ '"' :: (p ++ '"' :: (unmark f ++ y)) := by
    rw [← (List.cons.inj hdrop).2, Spelling.key]
    simp
  obtain ⟨hkey, -, htail⟩ := append_quote_inj hsplit z.isQuote_eq_false_of_mem_key
    (by simp [isQuote]) z.isQuote_openQuote rfl
  have hlength : z.key.length = 10 := by
    have hkey_length := congrArg List.length hkey
    have hkeyword : (" include ".toList).length = 9 := rfl
    simp only [Spelling.key, List.length_append, List.length_singleton] at hkey_length ⊢
    omega
  refine ⟨hlength, ?_⟩
  obtain ⟨p₂, hp, hquote⟩ | ⟨path₂, hpath, hquote⟩ := List.append_eq_append_iff.mp htail
  · cases p₂ with
    | nil =>
      rw [List.append_nil] at hp
      exact ⟨hp.symm, (List.cons.inj hquote).2⟩
    | cons c p₂ =>
      -- the path would end at a quote inside that of the directive
      obtain rfl : z.closeQuote = c := (List.cons.inj hquote).1
      have hplain := (h.path_plain z.closeQuote (by simp [hp])).1
      exact absurd z.isQuote_closeQuote (by simp [hplain])
  · cases path₂ with
    | nil =>
      rw [List.append_nil] at hpath
      exact ⟨hpath, ((List.cons.inj hquote).2).symm⟩
    | cons c path₂ =>
      have hnewline : '\n' ∉ path₂ := fun hmem =>
        z.newline_not_mem_path (by simp [hpath, hmem])
      exact (h.false_of_path_behind hnewline z.isQuote_closeQuote
        (List.cons.inj hquote).2.symm).elim

/-- Behind the second quote of a site comes what follows the path of the directive. -/
theorem Framed.pathStop_eq (h : Framed x p y) {z : Site g} (hz : z.IsIn (framed f x p y)) :
    z.pathStop + 1 + (unmark f).length = x.length + (usual f p).length := by
  obtain ⟨hkey, hpath, -⟩ := h.parts_eq hz
  rw [Site.pathStop, Site.pathStart, h.ampersand_eq hz, hkey, hpath, length_usual]
  omega

/-! ### The beginning of a site -/

/-- A text ends in an anchor with blanks behind it, where `u` comes before the anchor; only a text
that has nothing else may be without an anchor. -/
structure Anchored (t u anchor indent : Text) : Prop where
  anchor_mem : anchor ∈ [[], ['\n'], ['}'], [';']]
  eq_nil : anchor = [] → u = []
  blanks : Blanks indent
  eq_append : t = u ++ (anchor ++ indent)

/-- A site has its anchor and its opening before its `&`, where the directive has its mark. -/
theorem Framed.exists_anchored (h : Framed x p y) {z : Site g} (hz : z.IsIn (framed f x p y)) :
    ∃ t u, Anchored t u z.anchor z.indent ∧ u.length = z.offset ∧ x ++ mark f = t ++ z.opening := by
  have htake : (framed f x p y).take z.ampersand = x ++ mark f := by
    rw [h.ampersand_eq hz, ← List.length_append, framed_eq, List.take_left]
  have hle := z.offset_lt_resume.le.trans ((Nat.sub_le _ _).trans hz.finish_le)
  have hlength := List.length_take_of_le hle
  refine ⟨_, (framed f x p y).take z.offset, ⟨z.anchor_mem, fun hnil => ?_, z.blanks_indent, rfl⟩,
    hlength, ?_⟩
  · rw [hz.1 hnil, List.take_zero]
  · rw [← htake, Site.ampersand, List.take_add, ← List.prefix_iff_eq_take.mp hz.lead,
      Spelling.lead]
    simp

/-- Where the text up to the `&` and the text behind the path can be read as parts of a site, there
is one. -/
theorem Framed.exists_site (h : Framed x p y) {t u anchor indent opening : Text}
    (hanchored : Anchored t u anchor indent) (hopens : Opens g opening)
    (hbefore : x ++ mark f = t ++ opening) {closing terminator rest : Text}
    (hcloses : Closes g closing terminator)
    (hbehind : unmark f ++ y = closing ++ (terminator ++ rest)) :
    ∃ z : Site g, z.IsIn (framed f x p y) ∧ z.offset = u.length ∧ z.anchor = anchor := by
  let z : Site g := {
    anchor := anchor, anchor_mem := hanchored.anchor_mem
    indent := indent, blanks_indent := hanchored.blanks
    opening := opening, opens := hopens
    gap := [' '], blanks_gap := .singleton rfl
    space := [' '], blanks_space := .singleton rfl
    space_ne_nil := List.cons_ne_nil _ _
    openQuote := '"', isQuote_openQuote := rfl
    path := p, path_ne_nil := h.path_ne_nil
    newline_not_mem_path := fun hmem => (h.path_plain _ hmem).2 rfl
    closeQuote := '"', isQuote_closeQuote := rfl
    closing := closing, terminator := terminator, closes := hcloses
    offset := u.length }
  refine ⟨z, ⟨fun hnil => by simp [z, hanchored.eq_nil hnil], rest, ?_⟩, rfl, rfl⟩
  have htext : u ++ (z.text ++ rest) = framed f x p y := by
    rw [framed_eq, hbefore, hbehind, hanchored.eq_append, Spelling.text_eq]
    simp [z, Spelling.key, keyword]
  rw [← htext, List.drop_left]

/-! ### What a scan finds -/

theorem opens_mark (f : Form) : Opens f (mark f) := by
  cases f with
  | line => exact ⟨[], .nil, .inl rfl⟩
  | block => exact ⟨[' '], .singleton rfl, rfl⟩

/-- The directive closes: a line with the newline that follows it. -/
theorem Framed.exists_closes (h : Framed x p y) (f : Form) : ∃ closing terminator rest,
    Closes f closing terminator ∧ unmark f ++ y = closing ++ (terminator ++ rest) := by
  cases f with
  | line =>
    obtain ⟨rest, rfl⟩ := h.behind
    exact ⟨[], ['\n'], rest, ⟨.nil, .inr rfl⟩, rfl⟩
  | block =>
    have hclosing : unmark .block = [' '] ++ ([] ++ ['*', '/']) := rfl
    exact ⟨unmark .block, [], y, ⟨rfl, [' '], [], .singleton rfl, .nil, .inl hclosing⟩, rfl⟩

/-- However the text before it ends, there is a site of the directive in its own form. -/
theorem Framed.exists_usual (h : Framed x p y) (f : Form) {u anchor indent : Text}
    (hanchored : Anchored x u anchor indent) :
    ∃ z : Site f, z.IsIn (framed f x p y) ∧ z.offset = u.length ∧ z.anchor = anchor := by
  obtain ⟨closing, terminator, rest, hcloses, hbehind⟩ := h.exists_closes f
  exact h.exists_site hanchored (opens_mark f) rfl hcloses hbehind

/-- The text before the directive ends in an anchor. -/
theorem Framed.anchored (h : Framed x p y) : ∃ u anchor indent, Anchored x u anchor indent := by
  obtain rfl | ⟨u, rfl⟩ := h.before
  · exact ⟨[], [], [], by simp, fun _ => rfl, .nil, rfl⟩
  · exact ⟨u, ['\n'], [], by simp, by simp, .nil, rfl⟩

/-- **A scan finds at most one directive of each form**: that of the first site. -/
theorem Framed.scanForm_cases (h : Framed x p y) (g f : Form) :
    scanForm g (framed f x p y) = [] ∧ (∀ z : Site g, ¬z.IsIn (framed f x p y)) ∨
      ∃ z : Site g, z.IsNext (framed f x p y) 0 ∧ scanForm g (framed f x p y) = [z.directive] := by
  obtain ⟨zs, hzs, hscan⟩ := (scanForm_eq_iff_searched g (framed f x p y) _).mp rfl
  rw [hscan]
  cases hzs with
  | stop hnone => exact .inl ⟨rfl, fun z hz => absurd (hnone z hz) (Nat.not_lt_zero _)⟩
  | @next _ z zs hr hfirst hchosen hrest =>
    refine .inr ⟨z, ⟨hr, hfirst, hchosen⟩, ?_⟩
    cases hrest with
    | stop => rfl
    | @next _ z' _ hr' _ hchosen' =>
      -- the search goes on behind the only `&`
      have hamp := (h.ampersand_eq hchosen.isIn).trans (h.ampersand_eq hchosen'.isIn).symm
      have hlt := z.ampersand_lt_resume
      have hle : z'.offset ≤ z'.ampersand := Nat.le_add_right _ _
      omega

/-- The directive is found. -/
theorem Framed.exists_scanForm_eq (h : Framed x p y) (f : Form) :
    ∃ z : Site f, z.IsNext (framed f x p y) 0 ∧ scanForm f (framed f x p y) = [z.directive] := by
  obtain ⟨u, anchor, indent, hanchored⟩ := h.anchored
  obtain ⟨z, hz, -⟩ := h.exists_usual f hanchored
  exact (h.scanForm_cases f f).resolve_left fun hnone => hnone.2 z hz

end Directive

end ShaderInclude
