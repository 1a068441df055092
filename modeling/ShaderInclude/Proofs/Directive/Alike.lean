import ShaderInclude.Proofs.Directive.Framed

/-!
# What the two forms replace

A line and a block on lines of their own need not replace the same, although they should. `Alike`
says when they do, for the text before the directive and the text behind it: the first one must not
end in an anchored `//`, which a line takes for its own; no further newline and no `;` may follow
the newline behind the directive, since a line takes everything up to it; and the two must not make
a block comment around the line, which is a second directive then (`Enclosed`).

`fill` replaces all directives of a source by one text. Main statements: the two forms are filled
alike by every text if they are `Alike` (`Framed.fill_eq`), and if not, they are filled differently
by every text, or at least by the empty one if the line is enclosed (`Framed.fill_ne`).
-/

namespace ShaderInclude

namespace Directive

variable {f g : Form} {source x p y t u u' anchor anchor' indent indent' : Text}

/-! ### When the two forms replace the same -/

/-- A text ends in a mark with blanks behind it, at a place where an opening may stand. -/
def LeavesOpen (mark x : Text) : Prop := ∃ t u anchor indent blanks,
  Anchored t u anchor indent ∧ Blanks blanks ∧ x = t ++ (mark ++ blanks)

/-- What comes between the two texts stands in a comment that is opened and closed as a block is. -/
def Enclosed (x y : Text) : Prop :=
  LeavesOpen ['/', '*'] x ∧ ∃ closing rest, Closes .block closing [] ∧ y = closing ++ rest

/-- **What makes a line replace no more than a block**, and nothing else be replaced. -/
structure Alike (x y : Text) : Prop where
  not_leavesOpen : ¬LeavesOpen ['/', '/'] x
  terminates : Terminates ['\n'] y.tail
  not_enclosed : ¬Enclosed x y

theorem LeavesOpen.slash_mem {mark : Text} (h : LeavesOpen ('/' :: mark) x) : '/' ∈ x := by
  obtain ⟨t, -, -, -, blanks, -, -, rfl⟩ := h
  simp

/-- With no `/` before the directive, all depends on the text behind it. -/
theorem Alike.of_slash_not_mem (hx : '/' ∉ x) (hy : Terminates ['\n'] y.tail) : Alike x y :=
  ⟨fun h => hx h.slash_mem, hy, fun h => hx h.1.slash_mem⟩

/-! ### The first anchor -/

namespace Anchored

theorem slash_not_mem (h : Anchored t u anchor indent) : '/' ∉ anchor ++ indent := by
  rw [List.mem_append, not_or]
  refine ⟨?_, h.blanks.not_mem rfl⟩
  have hanchor := h.anchor_mem
  simp only [List.mem_cons, List.not_mem_nil, or_false] at hanchor
  rcases hanchor with rfl | rfl | rfl | rfl <;> decide

/-- The anchor comes behind each `/`. -/
theorem length_lt_of_slash (h : Anchored t u anchor indent) {a s : Text} (ht : t = a ++ '/' :: s) :
    a.length < u.length :=
  length_lt_of_append_cons_eq (ht.symm.trans h.eq_append) h.slash_not_mem

theorem length_eq (h : Anchored t u anchor indent) :
    t.length = u.length + (anchor.length + indent.length) := by
  rw [h.eq_append, List.length_append, List.length_append]

end Anchored

/-- The anchor that a search comes upon first. -/
structure IsFirstAnchored (t u anchor indent : Text) : Prop extends Anchored t u anchor indent where
  le : ∀ {u' anchor' indent'}, Anchored t u' anchor' indent' → u.length ≤ u'.length
  /-- At the place of the first anchor, one that is there is preferred to none. -/
  preferred : ∀ {u' anchor' indent'}, Anchored t u' anchor' indent' → u'.length = u.length →
    anchor = [] → anchor' = []

theorem IsFirstAnchored.unique (h : IsFirstAnchored t u anchor indent)
    (h' : IsFirstAnchored t u' anchor' indent') : u = u' ∧ anchor = anchor' ∧ indent = indent' := by
  have hlength : u.length = u'.length :=
    le_antisymm (h.le h'.toAnchored) (h'.le h.toAnchored)
  obtain ⟨hu, htail⟩ := List.append_inj (h.eq_append.symm.trans h'.eq_append) hlength
  have hanchor_length : anchor.length = anchor'.length := by
    have hnil := h.preferred h'.toAnchored hlength.symm
    have hnil' := h'.preferred h.toAnchored hlength
    have hmem := h.anchor_mem
    have hmem' := h'.anchor_mem
    simp only [List.mem_cons, List.not_mem_nil, or_false] at hmem hmem'
    rcases hmem with rfl | rfl | rfl | rfl <;> rcases hmem' with rfl | rfl | rfl | rfl <;>
      simp at hnil hnil' ⊢
  exact ⟨hu, List.append_inj htail hanchor_length⟩

/-! ### The opening -/

/-- A line has its blanks all in one place: before `//`, or before `&`. -/
theorem Site.IsChosen.opening_cases {z : Site .line} (hz : z.IsChosen source) :
    z.opening = [] ∨ ∃ blanks, Blanks blanks ∧ z.opening = ['/', '/'] ++ blanks := by
  obtain ⟨blanks, hblanks, hopening | hopening⟩ := z.opens
  · left
    obtain ⟨s, hdrop⟩ := hz.isIn.exists_drop_anchor
    have hindent := hz.indent
    rw [hdrop, z.blanks_indent.takeWhile_append, hopening, hblanks.takeWhile_append,
      List.takeWhile_cons_of_neg (by decide), List.append_nil, List.self_eq_append_right] at hindent
    rw [hopening, hindent]
  · exact .inr ⟨blanks, hblanks, hopening⟩

/-- A text is cut in one way only at a mark with blanks behind it. -/
theorem eq_of_append_mark_block {blanks : Text} (hblanks : Blanks blanks)
    (h : x ++ mark .block = t ++ '/' :: '*' :: blanks) : t = x := by
  have hreverse := congrArg (fun t => skipSpace t.reverse) h
  have hblanks : Blanks blanks.reverse := fun c hc => hblanks c (List.mem_reverse.mp hc)
  have hmark : skipSpace (x ++ mark .block).reverse = '*' :: '/' :: x.reverse := by
    rw [List.reverse_append]
    rfl
  have hend : skipSpace (t ++ '/' :: '*' :: blanks).reverse = '*' :: '/' :: t.reverse := by
    rw [List.reverse_append, List.reverse_cons, List.reverse_cons, List.append_assoc,
      List.append_assoc, hblanks.skipSpace_append]
    exact skipSpace_cons rfl _
  rw [hmark, hend] at hreverse
  exact (List.reverse_injective (List.cons.inj (List.cons.inj hreverse).2).2).symm

namespace Framed

/-- A block has the opening that is written for it. -/
theorem opening_block (h : Framed x p y) {w : Site .block} (hw : w.IsIn (framed .block x p y)) :
    w.opening = mark .block := by
  obtain ⟨t, u, -, -, hbefore⟩ := h.exists_anchored hw
  obtain ⟨blanks, hblanks, hopening⟩ := w.opens
  rw [hopening] at hbefore
  rw [hopening]
  exact (List.append_cancel_left (eq_of_append_mark_block hblanks hbefore ▸ hbefore)).symm

/-- No line is found where a block is written. -/
theorem not_isIn_line (h : Framed x p y) (z : Site .line) : ¬z.IsIn (framed .block x p y) := by
  intro hz
  obtain ⟨t, u, hanchored, -, hbefore⟩ := h.exists_anchored hz
  have hlead : '*' ∉ z.anchor ++ (z.indent ++ z.opening) := by
    intro hmem
    rcases z.mem_lead hmem with h | h | h | h | ⟨h, -⟩ <;> revert h <;> decide
  rw [hanchored.eq_append, List.append_assoc, List.append_assoc] at hbefore
  have hsplit : (x ++ ['/']) ++ '*' :: [' '] = u ++ (z.anchor ++ (z.indent ++ z.opening)) := by
    rw [← hbefore]
    simp [mark]
  have hlt := length_lt_of_append_cons_eq hsplit hlead
  have hle : (x ++ ['/'] ++ ['*']).length ≤ u.length := by
    rw [List.length_append]
    exact hlt
  -- only the blank behind `/*` is left for the anchor
  have hblank : ∀ c ∈ z.anchor, c = ' ' := by
    intro c hc
    have hdrop := congrArg (List.drop u.length) hsplit
    rw [List.drop_left, List.append_cons, List.drop_append, List.drop_of_length_le hle,
      List.nil_append] at hdrop
    have hmem : c ∈ [' '].drop _ := hdrop ▸ List.mem_append_left _ hc
    simpa using List.drop_subset _ _ hmem
  rcases z.anchor_cases with hanchor | hanchor | hanchor | hanchor
  · simp [hanchored.eq_nil hanchor] at hlt
  all_goals
    rw [hanchor] at hblank
    exact absurd (hblank _ List.mem_cons_self) (by decide)

/-! ### The starts -/

/-- A site with the opening that is written for it begins at the first anchor. -/
theorem isFirstAnchored (h : Framed x p y) {z : Site f} (hz : z.IsNext (framed f x p y) 0)
    (hopening : z.opening = mark f) :
    ∃ u, u.length = z.offset ∧ IsFirstAnchored x u z.anchor z.indent := by
  obtain ⟨t, u, hanchored, hoffset, hbefore⟩ := h.exists_anchored hz.isChosen.isIn
  rw [hopening, List.append_cancel_right_eq] at hbefore
  subst hbefore
  refine ⟨u, hoffset, hanchored, fun {u' anchor' indent'} hanchored' => ?_,
    fun {u' anchor' indent'} hanchored' hlength hnil => ?_⟩
  · obtain ⟨z', hz', hoffset', -⟩ := h.exists_usual f hanchored'
    rw [hoffset, ← hoffset']
    exact hz.first z' hz' (Nat.zero_le _)
  · obtain ⟨z', hz', hoffset', hanchor'⟩ := h.exists_usual f hanchored'
    rw [← hanchor']
    exact hz.isChosen.anchor hnil z' hz' (by rw [hoffset', hlength, hoffset])

/-- A directive starts before its opening, or with it. -/
theorem exists_start_le (h : Framed x p y) {z : Site g} (hz : z.IsIn (framed f x p y)) :
    ∃ t, z.directive.start ≤ t.length ∧ x ++ mark f = t ++ z.opening := by
  obtain ⟨t, u, hanchored, hoffset, hbefore⟩ := h.exists_anchored hz
  refine ⟨t, ?_, hbefore⟩
  rw [hanchored.length_eq, hoffset]
  simp only [Site.directive]
  split <;> omega

/-- A site that takes a comment mark from the text before it starts before the block, which does
not. -/
theorem start_lt_of_slash (h : Framed x p y) {z : Site g} (hz : z.IsIn (framed .line x p y))
    {s : Text} (hopening : z.opening = '/' :: s) {w : Site .block}
    (hw : w.IsIn (framed .block x p y)) : z.directive.start < w.directive.start := by
  obtain ⟨t, hstart, hbefore⟩ := h.exists_start_le hz
  obtain ⟨t', u, hanchored, hoffset, hbefore'⟩ := h.exists_anchored hw
  rw [hopening, mark, List.append_nil] at hbefore
  rw [h.opening_block hw, List.append_cancel_right_eq] at hbefore'
  have hlt := hanchored.length_lt_of_slash (hbefore'.symm.trans hbefore)
  have hle := w.offset_le_start
  omega

/-- **A line starts with the block or before it**: before it, if the text before the two ends in a
mark of a line comment. -/
theorem start_cases (h : Framed x p y) {z : Site .line} {w : Site .block}
    (hz : z.IsNext (framed .line x p y) 0) (hw : w.IsNext (framed .block x p y) 0) :
    ¬LeavesOpen ['/', '/'] x ∧ z.directive.start = w.directive.start ∨
      LeavesOpen ['/', '/'] x ∧ z.directive.start < w.directive.start := by
  obtain hopening | ⟨blanks, hblanks, hopening⟩ := hz.isChosen.opening_cases
  · left
    obtain ⟨u, hu, hw_first⟩ := h.isFirstAnchored hw (h.opening_block hw.isChosen.isIn)
    obtain ⟨u', hu', hz_first⟩ := h.isFirstAnchored hz hopening
    constructor
    · rintro ⟨t, u'', anchor, indent, blanks, hanchored, hblanks, hx⟩
      obtain ⟨closing, terminator, rest, hcloses, hbehind⟩ := h.exists_closes .line
      obtain ⟨z', hz', hoffset, -⟩ := h.exists_site (g := .line) (f := .line) hanchored
        ⟨blanks, hblanks, .inr rfl⟩ (by rw [mark, List.append_nil, hx]; rfl) hcloses hbehind
      -- this site would begin before the first one
      have hfirst := hz.first z' hz' (Nat.zero_le _)
      have hlt := hz_first.length_lt_of_slash hx
      have hlength := hanchored.length_eq
      omega
    · obtain ⟨rfl, hanchor, hindent⟩ := hz_first.unique hw_first
      simp only [Site.directive, hanchor, hindent, ← hu, ← hu']
  · right
    refine ⟨?_, h.start_lt_of_slash hz.isChosen.isIn hopening hw.isChosen.isIn⟩
    obtain ⟨t, u, hanchored, -, hbefore⟩ := h.exists_anchored hz.isChosen.isIn
    rw [hopening, mark, List.append_nil] at hbefore
    exact ⟨t, u, _, _, blanks, hanchored, hblanks, hbefore⟩

/-! ### The stops -/

/-- A site of a line source stops behind its closing, which begins behind the directive. -/
theorem le_stop_line (h : Framed x p y) {z : Site g} (hz : z.IsIn (framed .line x p y)) :
    x.length + (usual .line p).length + z.closing.length ≤ z.directive.stop := by
  have hpathStop := h.pathStop_eq hz
  rw [unmark, List.length_nil, Nat.add_zero] at hpathStop
  rw [← hpathStop, ← z.resume_eq]
  exact z.resume_le_stop

/-- A block stops behind its own closing. -/
theorem stop_block (h : Framed x p y) {w : Site .block} (hw : w.IsIn (framed .block x p y)) :
    w.directive.stop = x.length + (usual .block p).length := by
  obtain ⟨-, -, hbehind⟩ := h.parts_eq hw
  have hterminator : w.terminator = [] := w.closes.1
  -- what is read as a closing behind the path leaves `y`
  have husual : closing? .block (unmark .block ++ y) = some ⟨none, y⟩ := rfl
  rw [← hbehind, Spelling.ending, List.append_assoc,
    w.closes.closing?_eq (by simp [Terminates, hterminator]), Option.some.injEq,
    Closing.mk.injEq] at husual
  have hlength := congrArg List.length husual.2
  have hle := hw.finish_le
  rw [List.length_drop] at hlength
  rw [framed_eq_append, List.length_append, List.length_append] at hlength hle
  have hstop : w.directive.stop = w.finish := by simp [Site.directive, hterminator]
  omega

/-- **A line stops behind its path or further on**: further on, if the newline that follows the
directive does not terminate it. -/
theorem stop_cases (h : Framed x p y) {z : Site .line} (hz : z.IsChosen (framed .line x p y)) :
    Terminates ['\n'] y.tail ∧ z.directive.stop = x.length + (usual .line p).length ∨
      ¬Terminates ['\n'] y.tail ∧ x.length + (usual .line p).length < z.directive.stop := by
  obtain ⟨-, -, hbehind⟩ := h.parts_eq hz.isIn
  obtain ⟨rest, rfl⟩ := h.behind
  rw [Spelling.ending, List.append_assoc, unmark, List.nil_append] at hbehind
  by_cases hterminates : Terminates ['\n'] rest
  · refine .inl ⟨hterminates, ?_⟩
    have hcloses : Closes .line [] ['\n'] := ⟨.nil, .inr rfl⟩
    have hread := hcloses.closing?_eq hterminates
    rw [show [] ++ (['\n'] ++ rest) = '\n' :: rest from rfl, ← hbehind,
      z.closes.closing?_eq hz.terminator, Option.some.injEq, Closing.mk.injEq] at hread
    have hterminator : z.terminator = ['\n'] := by
      rw [z.closes.terminator_eq, hread.1]
      rfl
    rw [hread.2, hterminator] at hbehind
    have hclosing : z.closing = [] := List.append_left_eq_self.mp hbehind
    have hfinish : z.finish = z.pathStop + 1 + 1 := by
      rw [z.finish_eq, Spelling.ending, hclosing, hterminator]
      rfl
    have hpathStop := h.pathStop_eq hz.isIn
    rw [unmark, List.length_nil] at hpathStop
    simp only [Site.directive, if_pos hterminator]
    omega
  · refine .inr ⟨hterminates, ?_⟩
    by_contra hle
    have hstop := h.le_stop_line hz.isIn
    have hclosing : z.closing = [] := List.eq_nil_of_length_eq_zero (by omega)
    rw [hclosing, List.nil_append] at hbehind
    obtain hsemicolon | hnewline := z.closes.2
    · rw [hsemicolon] at hbehind
      exact absurd (List.cons.inj hbehind).1 (by decide)
    · have hlast := hz.terminator
      rw [hnewline] at hbehind hlast
      exact hterminates ((List.cons.inj hbehind).2 ▸ hlast)

/-! ### The two scans -/

/-- The directive that is written as a block is the only one. -/
theorem exists_scan_block (h : Framed x p y) : ∃ w : Site .block,
    w.IsNext (framed .block x p y) 0 ∧ scan (framed .block x p y) = [w.directive] := by
  obtain ⟨w, hw, hscan⟩ := h.exists_scanForm_eq .block
  refine ⟨w, hw, ?_⟩
  obtain ⟨hline, -⟩ | ⟨z, hz, -⟩ := h.scanForm_cases .line .block
  · rw [scan, hline, hscan, List.nil_append, List.mergeSort_singleton]
  · exact absurd hz.isChosen.isIn (h.not_isIn_line z)

/-- A block is found around a line exactly if the line is enclosed. -/
theorem exists_isIn_block_iff (h : Framed x p y) :
    (∃ w : Site .block, w.IsIn (framed .line x p y)) ↔ Enclosed x y := by
  constructor
  · rintro ⟨w, hw⟩
    obtain ⟨t, u, hanchored, -, hbefore⟩ := h.exists_anchored hw
    obtain ⟨-, -, hbehind⟩ := h.parts_eq hw
    obtain ⟨blanks, hblanks, hopening⟩ := w.opens
    have hcloses := w.closes
    rw [hcloses.1] at hcloses
    rw [mark, List.append_nil, hopening] at hbefore
    rw [Spelling.ending, w.closes.1, List.append_nil, unmark, List.nil_append] at hbehind
    exact ⟨⟨t, u, _, _, blanks, hanchored, hblanks, hbefore⟩, w.closing, _, hcloses, hbehind.symm⟩
  · rintro ⟨⟨t, u, anchor, indent, blanks, hanchored, hblanks, hx⟩, closing, rest, hcloses, hy⟩
    obtain ⟨w, hw, -⟩ := h.exists_site (g := .block) (f := .line) hanchored ⟨blanks, hblanks, rfl⟩
      (by rw [mark, List.append_nil, hx]; rfl) hcloses hy
    exact ⟨w, hw⟩

/-- Unless it is enclosed, the directive that is written as a line is the only one as well. -/
theorem exists_scan_line (h : Framed x p y) (henclosed : ¬Enclosed x y) : ∃ z : Site .line,
    z.IsNext (framed .line x p y) 0 ∧ scan (framed .line x p y) = [z.directive] := by
  obtain ⟨z, hz, hscan⟩ := h.exists_scanForm_eq .line
  refine ⟨z, hz, ?_⟩
  obtain ⟨hblock, -⟩ | ⟨w, hw, -⟩ := h.scanForm_cases .block .line
  · rw [scan, hblock, hscan, List.append_nil, List.mergeSort_singleton]
  · exact absurd (h.exists_isIn_block_iff.mp ⟨w, hw.isChosen.isIn⟩) henclosed

/-- If it is enclosed, there is a block around it that starts before the one that is written
instead of it. -/
theorem exists_mem_scan_of_enclosed (h : Framed x p y) (henclosed : Enclosed x y)
    {w : Site .block} (hw : w.IsIn (framed .block x p y)) :
    ∃ d ∈ scan (framed .line x p y), d.start < w.directive.start ∧
      x.length + (usual .line p).length ≤ d.stop := by
  obtain ⟨w₀, hw₀⟩ := h.exists_isIn_block_iff.mpr henclosed
  obtain ⟨-, hnone⟩ | ⟨w', hw', hscan⟩ := h.scanForm_cases .block .line
  · exact absurd hw₀ (hnone w₀)
  obtain ⟨blanks, -, hopening⟩ := w'.opens
  refine ⟨w'.directive, mem_scan.mpr ⟨.block, by simp [hscan]⟩,
    h.start_lt_of_slash hw'.isChosen.isIn hopening hw, ?_⟩
  exact (Nat.le_add_right _ _).trans (h.le_stop_line hw'.isChosen.isIn)

theorem scan_ne_nil (h : Framed x p y) (f : Form) : scan (framed f x p y) ≠ [] := by
  obtain ⟨z, -, hscan⟩ := h.exists_scanForm_eq f
  have hmem : z.directive ∈ scan (framed f x p y) := mem_scan.mpr ⟨f, by simp [hscan]⟩
  exact List.ne_nil_of_mem hmem

/-- Every directive has the path. -/
theorem path_of_mem_scan (h : Framed x p y) {d : Directive} (hd : d ∈ scan (framed f x p y)) :
    d.path = p := by
  obtain ⟨g, hd⟩ := mem_scan.mp hd
  obtain ⟨z, hz, rfl⟩ := exists_isChosen_of_mem_scanForm hd
  exact (h.parts_eq hz.isIn).2.1

end Framed

/-! ### What the sources become -/

/-- Put a text in place of all directives of a source, from the last to the first. -/
def fill (insert source : Text) : Text :=
  (scan source).foldr (fun d code => d.splice insert code) source

theorem length_splice_nil (d : Directive) (code : Text) :
    (d.splice [] code).length = min d.start code.length + (code.length - d.stop) := by
  simp [splice, Text.splice]

theorem length_foldr_splice_nil_le {ds : List Directive} (h : ∀ d ∈ ds, d.start ≤ d.stop) :
    (ds.foldr (fun d code => d.splice [] code) source).length ≤ source.length := by
  induction ds with
  | nil => exact le_rfl
  | cons d ds ih =>
    obtain ⟨hd, hds⟩ := List.forall_mem_cons.mp h
    have hrest := ih hds
    rw [List.foldr_cons, length_splice_nil]
    omega

/-- With nothing in their place, directives that are replaced leave no more of a source than any one
of them. -/
theorem length_foldr_splice_nil_le_of_mem {ds : List Directive} (h : ∀ d ∈ ds, d.start ≤ d.stop)
    {d : Directive} (hd : d ∈ ds) :
    (ds.foldr (fun d code => d.splice [] code) source).length ≤
      d.start + (source.length - d.stop) := by
  induction ds with
  | nil => cases hd
  | cons e ds ih =>
    obtain ⟨he, hds⟩ := List.forall_mem_cons.mp h
    rw [List.foldr_cons, length_splice_nil]
    obtain rfl | hd := List.mem_cons.mp hd
    · have hrest : (ds.foldr (fun d code => d.splice [] code) source).length ≤ source.length :=
        length_foldr_splice_nil_le hds
      omega
    · have hrest := ih hds hd
      omega

theorem length_fill_nil_le {d : Directive} (hd : d ∈ scan source) :
    (fill [] source).length ≤ d.start + (source.length - d.stop) :=
  length_foldr_splice_nil_le_of_mem (fun _ hd => (bounds_of_mem_scan hd).1.le) hd

namespace Framed

variable {insert : Text}

/-- Where a scan finds one directive that starts in `x` and stops in `y`, the rest of the two is what
is left around the text put in its place. -/
theorem fill_eq_append {d : Directive} (hscan : scan (framed f x p y) = [d])
    (hstart : d.start ≤ x.length) (hstop : x.length + (usual f p).length ≤ d.stop) :
    fill insert (framed f x p y) = x.take d.start ++ insert ++
      y.drop (d.stop - (x.length + (usual f p).length)) := by
  rw [fill, hscan, List.foldr_cons, List.foldr_nil, splice, Text.splice]
  congr 1
  · rw [framed, List.take_append_of_le_length hstart]
  · rw [framed_eq_append, List.drop_append, List.length_append, List.drop_of_length_le,
      List.nil_append]
    simpa using hstop

theorem start_block_le (h : Framed x p y) {w : Site .block} (hw : w.IsIn (framed .block x p y)) :
    w.directive.start ≤ x.length := by
  obtain ⟨t, hstart, hbefore⟩ := h.exists_start_le hw
  rw [h.opening_block hw, List.append_cancel_right_eq] at hbefore
  rwa [hbefore]

/-- What is left of the source with the block. -/
theorem fill_block (h : Framed x p y) {w : Site .block} (hw : w.IsIn (framed .block x p y))
    (hscan : scan (framed .block x p y) = [w.directive]) (insert : Text) :
    fill insert (framed .block x p y) = x.take w.directive.start ++ insert ++ y := by
  have hstop := h.stop_block hw
  rw [fill_eq_append hscan (h.start_block_le hw) hstop.ge, hstop, Nat.sub_self, List.drop_zero]

/-- **The two forms become the same code**, whatever is put in the place of their directives. -/
theorem fill_eq (h : Framed x p y) (halike : Alike x y) (insert : Text) :
    fill insert (framed .line x p y) = fill insert (framed .block x p y) := by
  obtain ⟨w, hw, hblock⟩ := h.exists_scan_block
  obtain ⟨z, hz, hline⟩ := h.exists_scan_line halike.not_enclosed
  have hstart := ((h.start_cases hz hw).resolve_right fun hopen =>
    halike.not_leavesOpen hopen.1).2
  have hstop := ((h.stop_cases hz.isChosen).resolve_right fun hfurther =>
    hfurther.1 halike.terminates).2
  have hle := h.start_block_le hw.isChosen.isIn
  rw [h.fill_block hw.isChosen.isIn hblock, fill_eq_append hline (hstart.trans_le hle) hstop.ge,
    hstart, hstop, Nat.sub_self, List.drop_zero]

/-- **If they are not alike, the two forms become different codes**, if the line is enclosed at least
with nothing in the place of the directives. -/
theorem fill_ne (h : Framed x p y) (halike : ¬Alike x y) (hinsert : Enclosed x y → insert = []) :
    fill insert (framed .line x p y) ≠ fill insert (framed .block x p y) := by
  obtain ⟨w, hw, hblock⟩ := h.exists_scan_block
  have hle := h.start_block_le hw.isChosen.isIn
  -- less is left of the source with the line
  refine fun heq => (?_ : (fill insert (framed .line x p y)).length <
    (fill insert (framed .block x p y)).length).ne (congrArg List.length heq)
  rw [h.fill_block hw.isChosen.isIn hblock, List.length_append, List.length_append,
    List.length_take_of_le hle]
  by_cases henclosed : Enclosed x y
  · obtain rfl := hinsert henclosed
    obtain ⟨d, hd, hstart, hstop⟩ := h.exists_mem_scan_of_enclosed henclosed hw.isChosen.isIn
    have hlength := length_fill_nil_le hd
    rw [length_framed] at hlength
    omega
  · obtain ⟨z, hz, hline⟩ := h.exists_scan_line henclosed
    have hy : 0 < y.length := by
      obtain ⟨rest, rfl⟩ := h.behind
      exact Nat.succ_pos _
    have hstart := h.start_cases hz hw
    have hstop := h.stop_cases hz.isChosen
    have hbounds := z.stop_le_finish.trans hz.isChosen.isIn.finish_le
    rw [length_framed] at hbounds
    rw [fill_eq_append hline (by omega) (by omega), List.length_append, List.length_append,
      List.length_take_of_le (by omega), List.length_drop]
    have hshorter : z.directive.start < w.directive.start ∨
        x.length + (usual .line p).length < z.directive.stop := by
      by_contra hsame
      exact halike ⟨(hstart.resolve_right (by omega)).1, (hstop.resolve_right (by omega)).1,
        henclosed⟩
    omega

end Framed

end Directive

end ShaderInclude
