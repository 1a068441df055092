import ShaderInclude.Proofs.Directive.Reading

/-!
# Searching a source for directives

A source may have many sites of a form, which overlap and which can be divided into parts in more
than one way. `Site.IsChosen` says which site at an offset a source is read to have, and `Searched`
is the search of one form as a procedure on sites: from where it stands it goes to the first offset
at which some site begins, takes the chosen one there, and goes on at the terminator of this site,
until no site is left.

Main statement: a scan reports exactly the directives of the sites that the procedure finds
(`scan_eq_iff_searched`). So no site is missed but those that begin inside a site found before
(`Searched.exists_of_isIn`).
-/

namespace ShaderInclude

namespace Directive

variable {f : Form} {source : Text}

/-! ### The site at an offset -/

/-- The site that a source is read to have at an offset: an anchor is preferred to none, all blanks
after the anchor are taken, then the shortest path after which the form closes, and a `;` behind the
blanks after the path before their last newline. -/
structure Site.IsChosen (x : Site f) (source : Text) : Prop where
  isIn : x.IsIn source
  anchor : x.anchor = [] → ∀ y : Site f, y.IsIn source → y.offset = x.offset → y.anchor = []
  indent : x.indent = (source.drop (x.offset + x.anchor.length)).takeWhile Text.isSpace
  path : ∀ y : Site f, y.IsIn source → y.offset = x.offset → y.anchor = x.anchor →
    x.path.length ≤ y.path.length
  terminator : Terminates x.terminator (source.drop x.finish)

/-- The text from the path on, for a text that begins after an anchor. -/
def pathText? (f : Form) (t : Text) : Option Text :=
  (afterOpening? f (skipSpace t)).bind afterKeyword?

private theorem afterAnchor?_eq (f : Form) (anchor : Option Char) (t : Text) :
    afterAnchor? f anchor t = (pathText? f t).bind fun u => (path? f u).map fun (path, closing) =>
      ⟨anchor, t.takeWhile Text.isSpace, path, closing⟩ := by
  simp only [afterAnchor?, pathText?, Option.bind_eq_bind, Option.bind_assoc]
  congr 1
  funext body
  congr 1
  funext u
  cases path? f u <;> rfl

namespace Spelling

variable (w : Spelling f)

theorem text_eq : w.text = w.anchor ++ (w.indent ++ (w.opening ++ '&' :: (w.key ++
    (w.path ++ w.closeQuote :: (w.closing ++ w.terminator))))) := by
  simp [text, lead, ending]

/-- Up to its path a spelling is read as it is written. -/
theorem pathText?_eq {t rest : Text} (h : w.text ++ rest = w.anchor ++ t) :
    pathText? f t =
      some (w.path ++ w.closeQuote :: (w.closing ++ (w.terminator ++ rest))) := by
  rw [text_eq, List.append_assoc, List.append_cancel_left_eq] at h
  simp only [List.append_assoc, List.cons_append] at h
  rw [pathText?, ← h, w.opens.afterOpening?_eq w.blanks_indent, Option.bind_some,
    w.afterKeyword?_eq]

/-- A form closes behind the path of a spelling. -/
theorem quoteClosing?_ne_none (rest : Text) :
    quoteClosing? f (w.closeQuote :: (w.closing ++ (w.terminator ++ rest))) ≠ none := by
  rw [quoteClosing?_cons w.isQuote_closeQuote]
  exact w.closes.closing?_ne_none rest

theorem afterAnchor?_ne_none (anchor : Option Char) {t : Text} (h : w.text <+: w.anchor ++ t) :
    afterAnchor? f anchor t ≠ none := by
  obtain ⟨rest, hrest⟩ := h
  rw [afterAnchor?_eq, w.pathText?_eq hrest, Option.bind_some]
  simpa using path?_ne_none w.path_ne_nil w.newline_not_mem_path (w.quoteClosing?_ne_none rest)

end Spelling

/-- An occurrence has the parts of a spelling, and what is left behind it is `rest`. -/
structure Occurrence.Reads (o : Occurrence) (w : Spelling f) (rest : Text) : Prop where
  anchor : w.anchor = o.anchor.toList
  indent : w.indent = o.indent
  path : w.path = o.path
  terminator : w.terminator = o.closing.terminator.toList
  rest : rest = o.closing.rest

/-- What is read after an anchor is spelled there, with all blanks after the anchor, the shortest
path of all spellings, and a proper terminator. -/
theorem exists_reads_of_afterAnchor? {anchor : Option Char} {t : Text} {o : Occurrence}
    (hanchor : anchor.toList ∈ [[], ['\n'], ['}'], [';']]) (h : afterAnchor? f anchor t = some o) :
    ∃ (w : Spelling f) (rest : Text), w.text ++ rest = anchor.toList ++ t ∧
      o.anchor = anchor ∧ o.Reads w rest ∧ w.indent = t.takeWhile Text.isSpace ∧
      Terminates w.terminator rest ∧
      ∀ v : Spelling f, v.text <+: v.anchor ++ t → w.path.length ≤ v.path.length := by
  rw [afterAnchor?_eq] at h
  obtain ⟨u, hu, h⟩ := Option.bind_eq_some_iff.mp h
  obtain ⟨⟨path, c⟩, hpath, rfl⟩ := Option.map_eq_some_iff.mp h
  obtain ⟨body, hopening, hkey⟩ := Option.bind_eq_some_iff.mp hu
  obtain ⟨opening, hopens, ht⟩ := exists_opens_of_afterOpening? hopening
  obtain ⟨gap, space, quote, hgap, hspace, hne, hquote, rfl⟩ := exists_key_of_afterKeyword? hkey
  obtain ⟨hpath_ne, hnewline, ⟨rest, rfl, hclosing⟩, hmin⟩ := isShortest_of_path? hpath
  obtain ⟨closeQuote, v, rfl, hcloseQuote, hclosing⟩ := exists_of_quoteClosing? hclosing
  obtain ⟨closing, terminator, hcloses, rfl, rfl, hterminates⟩ := exists_closes_of_closing? hclosing
  let w : Spelling f := {
    anchor := anchor.toList, anchor_mem := hanchor
    indent := t.takeWhile Text.isSpace, blanks_indent := blanks_takeWhile t
    opening := opening, opens := hopens
    gap := gap, blanks_gap := hgap
    space := space, blanks_space := hspace, space_ne_nil := hne
    openQuote := quote, isQuote_openQuote := hquote
    path := path, path_ne_nil := hpath_ne, newline_not_mem_path := hnewline
    closeQuote := closeQuote, isQuote_closeQuote := hcloseQuote
    closing := closing, terminator := c.terminator.toList, closes := hcloses }
  have htext : w.text ++ c.rest = anchor.toList ++ t := by
    conv_rhs => rw [ht]
    simp [Spelling.text_eq, Spelling.key, w]
  refine ⟨w, c.rest, htext, rfl, ⟨rfl, rfl, rfl, rfl, rfl⟩, rfl, hterminates, ?_⟩
  rintro v ⟨rest', hv⟩
  have hsame := (v.pathText?_eq hv).symm.trans hu
  exact hmin v.path _ v.path_ne_nil (Option.some.inj hsame).symm (v.quoteClosing?_ne_none rest')

namespace Site

variable {x y : Site f}

/-- Where a site begins, the text that is left is not empty, and it begins with the anchor. -/
theorem IsIn.exists_cons (h : x.IsIn source) :
    ∃ c t, source.drop x.offset = c :: t ∧
      (x.anchor = [] ∧ x.offset = 0 ∨ x.anchor = [c] ∧ isAnchor c = true) := by
  obtain ⟨rest, hrest⟩ := h.2
  rcases x.anchor_cases with hanchor | hanchor | hanchor | hanchor
  · obtain ⟨c, t, hct⟩ : ∃ c t, source.drop x.offset = c :: t := by
      apply List.exists_cons_of_ne_nil
      rw [← hrest]
      simp [Spelling.text]
    exact ⟨c, t, hct, .inl ⟨hanchor, h.1 hanchor⟩⟩
  all_goals
    rw [x.text_eq, hanchor] at hrest
    exact ⟨_, _, hrest.symm, .inr ⟨hanchor, rfl⟩⟩

/-- Where a site begins, an occurrence is found. -/
theorem IsIn.occurrence?_ne_none (h : x.IsIn source) :
    occurrence? f (x.offset == 0) (source.drop x.offset) ≠ none := by
  obtain ⟨c, t, hct, ⟨hanchor, hoffset⟩ | ⟨hanchor, hc⟩⟩ := h.exists_cons
  · have hnone : afterAnchor? f none (c :: t) ≠ none :=
      x.afterAnchor?_ne_none none (by simpa [hanchor, ← hct] using h.2)
    rw [hct, hoffset, occurrence?]
    split
    case isTrue =>
      split
      · exact Option.some_ne_none _
      · exact hnone
    case isFalse => exact hnone
  · have hsome : afterAnchor? f (some c) t ≠ none :=
      x.afterAnchor?_ne_none (some c) (by simpa [hanchor, ← hct] using h.2)
    rw [hct, occurrence?, if_pos hc]
    split
    · exact Option.some_ne_none _
    case h_2 hnone => exact absurd hnone hsome

/-- A site with an anchor leaves nothing to be looked for without one. -/
private theorem IsIn.afterAnchor?_ne_none (h : x.IsIn source) {c : Char} {t : Text}
    (hct : source.drop x.offset = c :: t) (hanchor : x.anchor ≠ []) :
    isAnchor c = true ∧ afterAnchor? f (some c) t ≠ none := by
  obtain ⟨c', t', hct', ⟨hnil, -⟩ | ⟨hsome, hc⟩⟩ := h.exists_cons
  · exact absurd hnil hanchor
  · obtain ⟨rfl, rfl⟩ := List.cons.inj (hct.symm.trans hct')
    exact ⟨hc, x.toSpelling.afterAnchor?_ne_none (some c) (by simpa [hsome, ← hct] using h.2)⟩

/-- What is read after an anchor is the chosen site, if nothing is spelled there with an anchor
where it has none. -/
private theorem exists_isChosen_of_afterAnchor? {k : Nat} {anchor : Option Char} {t : Text}
    {o : Occurrence} (hanchor : anchor.toList ∈ [[], ['\n'], ['}'], [';']])
    (ht : source.drop k = anchor.toList ++ t)
    (hnone : anchor = none → k = 0 ∧ ∀ y : Site f, y.IsIn source → y.offset = k → y.anchor = [])
    (h : afterAnchor? f anchor t = some o) :
    ∃ x : Site f, x.offset = k ∧ x.IsChosen source ∧
      o.Reads x.toSpelling (source.drop x.finish) := by
  obtain ⟨w, rest, htext, rfl, hreads, hindent, hterminates, hmin⟩ :=
    exists_reads_of_afterAnchor? hanchor h
  have hnil : w.anchor = [] → o.anchor = none := fun hw => by
    simpa [hw] using hreads.anchor.symm
  have hrest : source.drop (k + w.text.length) = rest := by
    rw [← List.drop_drop, ht, ← htext, List.drop_left]
  have hbehind : source.drop (k + w.anchor.length) = t := by
    rw [← List.drop_drop, ht, hreads.anchor, List.drop_left]
  refine ⟨{ w with offset := k }, rfl, ⟨⟨fun hw => (hnone (hnil hw)).1, rest, ?_⟩,
    fun hw => (hnone (hnil hw)).2, ?_, ?_, ?_⟩, ?_⟩
  · rw [ht]
    exact htext
  · exact hindent.trans (congrArg _ hbehind.symm)
  · intro y hy hoffset hsame
    have hsite : y.text <+: source.drop k := (show y.offset = k from hoffset) ▸ hy.2
    refine hmin y.toSpelling ?_
    rwa [show y.anchor = o.anchor.toList from hsame.trans hreads.anchor, ← ht]
  · rw [← hrest] at hterminates
    exact hterminates
  · rw [← hrest] at hreads
    exact hreads

/-- **What is found at an offset is the site that the source is read to have there.** -/
theorem exists_isChosen_of_occurrence? {k : Nat} {o : Occurrence}
    (h : occurrence? f (k == 0) (source.drop k) = some o) :
    ∃ x : Site f, x.offset = k ∧ x.IsChosen source ∧
      o.Reads x.toSpelling (source.drop x.finish) := by
  cases hct : source.drop k with
  | nil =>
    rw [hct] at h
    cases h
  | cons c t =>
    rw [hct, occurrence?] at h
    have hstart : (if (k == 0) = true then afterAnchor? f none (c :: t) else none) = some o →
        (isAnchor c = true → afterAnchor? f (some c) t = none) →
        ∃ x : Site f, x.offset = k ∧ x.IsChosen source ∧
          o.Reads x.toSpelling (source.drop x.finish) := by
      intro h hnot
      split at h
      case isFalse => cases h
      case isTrue hk =>
        refine exists_isChosen_of_afterAnchor? (by simp) hct
          (fun _ => ⟨by simpa using hk, fun y hy hoffset => ?_⟩) h
        by_contra hanchor
        obtain ⟨hc, hsome⟩ := hy.afterAnchor?_ne_none (hoffset ▸ hct) hanchor
        exact hsome (hnot hc)
    split at h
    case isFalse hc => exact hstart h fun hc' => absurd hc' hc
    case isTrue hc =>
      split at h
      case h_2 hnone => exact hstart h fun _ => hnone
      case h_1 o' hsome =>
        cases h
        have hsplit : source.drop k = (some c).toList ++ t := hct
        refine exists_isChosen_of_afterAnchor? ?_ hsplit (by simp) hsome
        simp only [isAnchor, Bool.or_eq_true, decide_eq_true_eq] at hc
        rcases hc with (rfl | rfl) | rfl <;> simp

/-- Up to its path a site is read as it is written. -/
private theorem IsIn.pathText?_eq (h : x.IsIn source) {t : Text}
    (ht : source.drop x.offset = x.anchor ++ t) : pathText? f t =
      some (x.path ++ x.closeQuote :: (x.closing ++ (x.terminator ++ source.drop x.finish))) :=
  x.toSpelling.pathText?_eq (h.text_append.trans ht)

/-- **The chosen site at an offset is unique**, as far as a scan can tell. -/
theorem IsChosen.unique (hx : x.IsChosen source) (hy : y.IsChosen source)
    (hoffset : x.offset = y.offset) : x.directive = y.directive ∧ x.resume = y.resume := by
  have hanchor : x.anchor = y.anchor := by
    obtain ⟨c, t, hct, ⟨hxnil, -⟩ | ⟨hxsome, -⟩⟩ := hx.isIn.exists_cons
    · rw [hxnil, hx.anchor hxnil y hy.isIn hoffset.symm]
    · obtain ⟨c', t', hct', ⟨hynil, -⟩ | ⟨hysome, -⟩⟩ := hy.isIn.exists_cons
      · rw [hynil, hy.anchor hynil x hx.isIn hoffset]
      · rw [hoffset, hct'] at hct
        rw [hxsome, hysome, (List.cons.inj hct).1]
  have hindent : x.indent = y.indent := by rw [hx.indent, hy.indent, hoffset, hanchor]
  have hlength : x.path.length = y.path.length :=
    le_antisymm (hx.path y hy.isIn hoffset.symm hanchor.symm) (hy.path x hx.isIn hoffset hanchor)
  -- both paths begin at the same place, and what closes behind them is read in one way only
  obtain ⟨t, ht⟩ : ∃ t, source.drop x.offset = x.anchor ++ t :=
    ⟨_, hx.isIn.text_append.symm.trans (by rw [x.text_eq, List.append_assoc])⟩
  have hxt := hx.isIn.pathText?_eq ht
  have hyt := hy.isIn.pathText?_eq (hanchor ▸ hoffset ▸ ht)
  obtain ⟨hpath, htail⟩ := List.append_inj (Option.some.inj (hxt.symm.trans hyt)) hlength
  have hclosing := x.closes.closing?_eq hx.terminator
  rw [(List.cons.inj htail).2, y.closes.closing?_eq hy.terminator, Option.some.injEq,
    Closing.mk.injEq] at hclosing
  have hterminator : x.terminator = y.terminator := by
    rw [x.closes.terminator_eq, y.closes.terminator_eq, hclosing.1]
  have hfinish : x.finish = y.finish := by
    have hlengths := congrArg List.length hclosing.2
    have hx_le := hx.isIn.finish_le
    have hy_le := hy.isIn.finish_le
    simp only [List.length_drop] at hlengths
    omega
  constructor
  · simp only [directive, hpath, hoffset, hanchor, hindent, hfinish, hterminator]
  · simp only [resume, hfinish, hterminator]

end Site

/-! ### The search as a procedure -/

/-- **The search of a form**, from an offset on. It takes the chosen site at the first offset at
which a site begins and goes on at this site's terminator, until no site is left. -/
inductive Searched (f : Form) (source : Text) : Nat → List (Site f) → Prop
  | stop {r : Nat} (hnone : ∀ y : Site f, y.IsIn source → y.offset < r) : Searched f source r []
  | next {r : Nat} {x : Site f} {xs : List (Site f)} (hr : r ≤ x.offset)
      (hfirst : ∀ y : Site f, y.IsIn source → r ≤ y.offset → x.offset ≤ y.offset)
      (hchosen : x.IsChosen source) (hrest : Searched f source x.resume xs) :
    Searched f source r (x :: xs)

namespace Searched

variable {r : Nat} {xs ys : List (Site f)}

/-- The procedure leaves no choice. -/
theorem unique (hx : Searched f source r xs) (hy : Searched f source r ys) :
    xs.map Site.directive = ys.map Site.directive := by
  induction hx generalizing ys with
  | stop hnone =>
    cases hy with
    | stop => rfl
    | next hr _ hchosen _ => exact absurd (hnone _ hchosen.isIn) (not_lt.mpr hr)
  | @next r x xs hr hfirst hchosen _ ih =>
    cases hy with
    | stop hnone => exact absurd (hnone x hchosen.isIn) (not_lt.mpr hr)
    | @next _ y ys hr' hfirst' hchosen' hrest' =>
      have hoffset : x.offset = y.offset :=
        le_antisymm (hfirst y hchosen'.isIn hr') (hfirst' x hchosen.isIn hr)
      obtain ⟨hdirective, hresume⟩ := hchosen.unique hchosen' hoffset
      rw [List.map_cons, List.map_cons, hdirective, ih (hresume ▸ hrest')]

/-- Where no site begins, the search may as well start one character later. -/
theorem of_succ (h : Searched f source (r + 1) xs)
    (hnone : ∀ y : Site f, y.IsIn source → y.offset ≠ r) : Searched f source r xs := by
  cases h with
  | stop hstop =>
    refine .stop fun y hy => ?_
    have hlt := hstop y hy
    have hne := hnone y hy
    omega
  | next hr hfirst hchosen hrest =>
    refine .next (Nat.le_of_succ_le hr) (fun y hy hry => hfirst y hy ?_) hchosen hrest
    have hne := hnone y hy
    omega

/-- The sites that the procedure finds are chosen sites of the source. -/
theorem isChosen (h : Searched f source r xs) {x : Site f} (hx : x ∈ xs) : x.IsChosen source := by
  induction h with
  | stop => cases hx
  | next _ _ hchosen _ ih =>
    obtain rfl | hx := List.mem_cons.mp hx
    · exact hchosen
    · exact ih hx

/-- **No site is missed** but those that begin inside a site found before. -/
theorem exists_of_isIn (h : Searched f source r xs) {y : Site f} (hy : y.IsIn source)
    (hr : r ≤ y.offset) : ∃ x ∈ xs, x.offset ≤ y.offset ∧ y.offset < x.resume := by
  induction h with
  | stop hnone => exact absurd (hnone y hy) (not_lt.mpr hr)
  | @next _ x _ _ hfirst hchosen _ ih =>
    by_cases hresume : y.offset < x.resume
    · exact ⟨x, List.mem_cons_self, hfirst y hy hr, hresume⟩
    · obtain ⟨z, hz, hzy⟩ := ih (not_lt.mp hresume)
      exact ⟨z, List.mem_cons_of_mem x hz, hzy⟩

end Searched

/-! ### The scan follows the procedure -/

/-- An occurrence that has the parts of a site reports its directive, and the search goes on behind
it where it does behind the site. -/
private theorem Occurrence.Reads.directive_eq {o : Occurrence} {x : Site f} (hx : x.IsIn source)
    (h : o.Reads x.toSpelling (source.drop x.finish)) :
    o.length (source.drop x.offset) = x.text.length ∧ o.shared = x.terminator.length ∧
      o.directive f x.offset (source.drop x.offset) = x.directive := by
  have hlength : o.length (source.drop x.offset) = x.text.length := by
    rw [Occurrence.length, ← h.rest, ← hx.text_append, List.length_append, Nat.add_sub_cancel]
  have hshared : o.shared = x.terminator.length := by
    rw [Occurrence.shared, h.terminator]
    cases o.closing.terminator <;> rfl
  have hlead : o.lead = x.anchor.length +
      if x.anchor = ['}'] ∨ x.anchor = [';'] then x.indent.length else 0 := by
    have hanchor := h.anchor
    rw [Occurrence.lead, ← h.indent]
    cases ho : o.anchor with
    | none => simp [hanchor, ho]
    | some c =>
      rw [ho, Option.toList_some] at hanchor
      have hcases := x.anchor_cases
      rw [hanchor] at hcases ⊢
      simp only [List.cons_ne_nil, List.cons.injEq, and_true, false_or] at hcases
      rcases hcases with rfl | rfl | rfl <;> simp
  have htrail : o.trail = if x.terminator = ['\n'] then 1 else 0 := by
    rw [Occurrence.trail, h.terminator]
    cases o.closing.terminator <;> simp
  refine ⟨hlength, hshared, ?_⟩
  rw [Occurrence.directive, hlength, hlead, htrail, ← h.path, ← Nat.add_assoc]
  rfl

/-- The search of a form finds what the procedure finds. -/
theorem exists_searched (f : Form) (source : Text) (k : Nat) :
    ∃ xs : List (Site f), Searched f source k xs ∧
      scanFrom f 0 k (source.drop k) = xs.map Site.directive := by
  -- a search goes on at the resume offset, which may lie anywhere behind the first character
  induction hn : source.length - k using Nat.strong_induction_on generalizing k with
  | _ n ih =>
    cases hct : source.drop k with
    | nil =>
      refine ⟨[], .stop fun y hy => ?_, rfl⟩
      have hle := hy.finish_le
      have hpos := y.offset_lt_resume
      have hk : source.length ≤ k := List.drop_eq_nil_iff.mp hct
      rw [Site.resume] at hpos
      omega
    | cons c t =>
      have hk : k < source.length := by
        by_contra hk
        rw [List.drop_eq_nil_of_le (not_lt.mp hk)] at hct
        cases hct
      have ht : t = source.drop (k + 1) := by rw [← List.drop_drop, hct]; rfl
      rw [scanFrom, ← hct]
      cases ho : occurrence? f (k == 0) (source.drop k) with
      | none =>
        obtain ⟨xs, hxs, hscan⟩ := ih (source.length - (k + 1)) (by omega) (k + 1) rfl
        refine ⟨xs, hxs.of_succ fun y hy hoffset => ?_, ht ▸ hscan⟩
        exact hy.occurrence?_ne_none (hoffset ▸ ho)
      | some o =>
        obtain ⟨x, rfl, hchosen, hreads⟩ := Site.exists_isChosen_of_occurrence? ho
        obtain ⟨hlength, hshared, hdirective⟩ := hreads.directive_eq hchosen.isIn
        have hresume := x.offset_lt_resume
        have hnext : x.offset + 1 + (x.text.length - x.terminator.length - 1) = x.resume := by
          rw [Site.resume, Site.finish] at hresume ⊢
          omega
        obtain ⟨xs, hxs, hscan⟩ := ih (source.length - x.resume) (by omega) x.resume rfl
        refine ⟨x :: xs, .next le_rfl (fun _ _ h => h) hchosen hxs, ?_⟩
        dsimp only
        rw [hlength, hshared, hdirective, List.map_cons, ← hscan, scanFrom_eq_drop, ht,
          List.drop_drop, hnext]

theorem Searched.le_offset {r : Nat} {xs : List (Site f)} (h : Searched f source r xs) {x : Site f}
    (hx : x ∈ xs) : r ≤ x.offset := by
  induction h with
  | stop => cases hx
  | @next _ y _ hr _ _ _ ih =>
    obtain rfl | hx := List.mem_cons.mp hx
    · exact hr
    · have hresume := y.offset_lt_resume
      have hle := ih hx
      omega

/-- The directives of one form follow one another. -/
theorem Searched.pairwise {r : Nat} {xs : List (Site f)} (h : Searched f source r xs) :
    xs.Pairwise fun x y => x.directive.stop ≤ y.directive.start := by
  induction h with
  | stop => exact List.Pairwise.nil
  | next _ _ _ hrest ih =>
    refine List.pairwise_cons.mpr ⟨fun y hy => ?_, ih⟩
    exact Site.stop_le_start_of_resume_le (hrest.isChosen hy).isIn (hrest.le_offset hy)

theorem scanForm_eq_iff_searched (f : Form) (source : Text) (ds : List Directive) :
    scanForm f source = ds ↔
      ∃ xs : List (Site f), Searched f source 0 xs ∧ ds = xs.map Site.directive := by
  obtain ⟨xs, hxs, hscan⟩ := exists_searched f source 0
  rw [List.drop_zero] at hscan
  rw [scanForm, hscan]
  constructor
  · rintro rfl
    exact ⟨xs, hxs, rfl⟩
  · rintro ⟨ys, hys, rfl⟩
    exact hxs.unique hys

/-- Each directive of a form is that of a chosen site. -/
theorem exists_isChosen_of_mem_scanForm {d : Directive} (h : d ∈ scanForm f source) :
    ∃ x : Site f, x.IsChosen source ∧ d = x.directive := by
  obtain ⟨xs, hxs, hscan⟩ := (scanForm_eq_iff_searched f source _).mp rfl
  rw [hscan] at h
  obtain ⟨x, hx, rfl⟩ := List.mem_map.mp h
  exact ⟨x, hxs.isChosen hx, rfl⟩

theorem form_of_mem_scanForm {d : Directive} (h : d ∈ scanForm f source) : d.form = f := by
  obtain ⟨x, -, rfl⟩ := exists_isChosen_of_mem_scanForm h
  rfl

theorem filter_scanForm (f g : Form) (source : Text) :
    (scanForm g source).filter (fun d => d.form = f) = if g = f then scanForm g source else [] := by
  split
  case isTrue hfg =>
    exact List.filter_eq_self.mpr fun d hd => decide_eq_true (hfg ▸ form_of_mem_scanForm hd)
  case isFalse hfg =>
    refine List.filter_eq_nil_iff.mpr fun d hd hform => hfg ?_
    exact (form_of_mem_scanForm hd).symm.trans (of_decide_eq_true hform)

/-- The directives of a scan are those of the two forms. -/
theorem scan_perm (source : Text) :
    (scan source).Perm (scanForm .line source ++ scanForm .block source) :=
  List.mergeSort_perm _ _

theorem mem_scan {d : Directive} : d ∈ scan source ↔ ∃ f, d ∈ scanForm f source := by
  rw [(scan_perm source).mem_iff, List.mem_append]
  constructor
  · rintro (h | h)
    · exact ⟨.line, h⟩
    · exact ⟨.block, h⟩
  · rintro ⟨_ | _, h⟩
    · exact .inl h
    · exact .inr h

/-- The order of a merge is that of the starts. -/
private theorem merge_order :
    (∀ d e e' : Directive, decide (d.start ≤ e.start) = true → decide (e.start ≤ e'.start) = true →
      decide (d.start ≤ e'.start) = true) ∧
    ∀ d e : Directive, (decide (d.start ≤ e.start) || decide (e.start ≤ d.start)) = true := by
  simp only [decide_eq_true_eq, Bool.or_eq_true]
  exact ⟨fun _ _ _ => le_trans, fun _ _ => le_total _ _⟩

theorem pairwise_start_le_scan (source : Text) :
    (scan source).Pairwise fun d e => d.start ≤ e.start :=
  (List.pairwise_mergeSort merge_order.1 merge_order.2 _).imp of_decide_eq_true

/-- There is nothing to merge where each line comes before each block. -/
theorem scan_eq_append (h : (scanForm .line source ++ scanForm .block source).Pairwise
      fun d e => d.start ≤ e.start) :
    scan source = scanForm .line source ++ scanForm .block source :=
  List.mergeSort_of_pairwise (h.imp decide_eq_true)

/-- Merging the two forms leaves the directives of each in their order. -/
theorem filter_scan (f : Form) (source : Text) :
    (scan source).filter (fun d => d.form = f) = scanForm f source := by
  let both := scanForm .line source ++ scanForm .block source
  have hboth : both.filter (fun d => d.form = f) = scanForm f source := by
    rw [List.filter_append, filter_scanForm, filter_scanForm]
    cases f <;> simp
  have hsorted : (scanForm f source).Pairwise fun d e => decide (d.start ≤ e.start) = true := by
    obtain ⟨xs, hxs, hscan⟩ := (scanForm_eq_iff_searched f source _).mp rfl
    rw [hscan]
    exact List.pairwise_map.mpr
      (hxs.pairwise.imp fun {x _} h => decide_eq_true (x.start_lt_stop.le.trans h))
  have hsub : List.Sublist (scanForm f source) both := hboth ▸ List.filter_sublist
  have hmerged : List.Sublist (scanForm f source) (scan source) :=
    List.sublist_mergeSort merge_order.1 merge_order.2 hsorted hsub
  have hfiltered := hmerged.filter (fun d => d.form = f)
  rw [filter_scanForm, if_pos rfl] at hfiltered
  refine (hfiltered.eq_of_length ?_).symm
  rw [← hboth]
  exact ((scan_perm source).filter _).length_eq.symm

/-- **A scan reports exactly what the procedure finds.** The directives of a form in a scan are, in
their order, those of the sites that the search of this form takes from the start of the source on;
and the procedure has only one outcome. -/
theorem scan_eq_iff_searched (f : Form) (source : Text) (ds : List Directive) :
    (scan source).filter (fun d => d.form = f) = ds ↔
      ∃ xs : List (Site f), Searched f source 0 xs ∧ ds = xs.map Site.directive := by
  rw [filter_scan]
  exact scanForm_eq_iff_searched f source ds

end Directive

end ShaderInclude
