import ShaderInclude.Proofs.Directive.Overlap

/-!
# The order of directives

A search goes forward: every round of it goes on behind the place where it started and not behind
the end of the source, so no search is endless (`wellFounded_isNext`). And a line and a block never
start together, because behind the start of a directive come blanks and then the opening of its
form, which tells the two apart (`Site.start_ne_start`).

Main statement: `scan_wellFormed`. The directives of a scan lie inside the source, each of them
replaces something, they start one after the other, and those of one form are disjoint.
-/

namespace ShaderInclude

namespace Directive

variable {f : Form} {source : Text}

/-! ### The rounds of a search -/

/-- The site that a search takes which stands at an offset. -/
structure Site.IsNext (x : Site f) (source : Text) (r : Nat) : Prop where
  le_offset : r ≤ x.offset
  first : ∀ y : Site f, y.IsIn source → r ≤ y.offset → x.offset ≤ y.offset
  isChosen : x.IsChosen source

theorem Site.IsIn.resume_le {x : Site f} (hx : x.IsIn source) : x.resume ≤ source.length :=
  (Nat.sub_le _ _).trans hx.finish_le

/-- A round brings a search forward, inside the source. -/
theorem Site.IsNext.lt_resume {x : Site f} {r : Nat} (h : x.IsNext source r) :
    r < x.resume ∧ x.resume ≤ source.length :=
  ⟨h.le_offset.trans_lt x.offset_lt_resume, h.isChosen.isIn.resume_le⟩

/-- **No search is endless.** -/
theorem wellFounded_isNext (f : Form) (source : Text) :
    WellFounded fun r' r => ∃ x : Site f, x.IsNext source r ∧ r' = x.resume := by
  -- what is left of the source gets shorter
  refine Subrelation.wf ?_ (measure fun r => source.length - r).wf
  rintro r' r ⟨x, hx, rfl⟩
  have hlt := hx.lt_resume
  change source.length - x.resume < source.length - r
  omega

/-- The offsets at which a search goes on get greater from round to round. -/
theorem Searched.pairwise_resume {r : Nat} {xs : List (Site f)} (h : Searched f source r xs) :
    (r :: xs.map Site.resume).Pairwise (· < ·) := by
  induction h with
  | stop => exact List.pairwise_singleton _ _
  | @next r x xs hr _ _ _ ih =>
    have hlt : r < x.resume := hr.trans_lt x.offset_lt_resume
    have hrest := List.pairwise_cons.mp ih
    refine List.pairwise_cons.mpr ⟨?_, ih⟩
    rw [List.map_cons, List.forall_mem_cons]
    exact ⟨hlt, fun s hs => hlt.trans (hrest.1 s hs)⟩

/-! ### The starts of directives -/

namespace Site

/-- Behind the anchor of a site come its blanks, its opening and `&`. -/
theorem IsIn.exists_drop_anchor {x : Site f} (hx : x.IsIn source) :
    ∃ t, source.drop (x.offset + x.anchor.length) = x.indent ++ (x.opening ++ '&' :: t) := by
  refine ⟨x.key ++ (x.path ++ x.closeQuote :: (x.closing ++ (x.terminator ++
    source.drop x.finish))), ?_⟩
  rw [← List.drop_drop, ← hx.text_append, x.text_eq, List.append_assoc, List.drop_left]
  simp

/-- Behind the start of a directive come blanks and the opening of its form. -/
theorem IsIn.exists_drop_start {x : Site f} (hx : x.IsIn source) :
    ∃ blanks t, Blanks blanks ∧
      source.drop x.directive.start = blanks ++ (x.opening ++ '&' :: t) := by
  obtain ⟨t, hbehind⟩ := hx.exists_drop_anchor
  simp only [directive]
  split
  case isTrue =>
    refine ⟨[], t, .nil, ?_⟩
    rw [← List.drop_drop, hbehind, List.drop_left]
    rfl
  case isFalse => exact ⟨x.indent, t, x.blanks_indent, hbehind⟩

/-- The opening of a line is not that of a block. -/
theorem afterOpening?_line_ne_of_block {t : Text} {rest rest' : Text}
    (h : afterOpening? .block t = some rest) : afterOpening? .line t ≠ some ('&' :: rest') := by
  obtain ⟨u, hu, -⟩ := Option.map_eq_some_iff.mp h
  rw [Text.eq_append_of_after? hu]
  have hline : afterOpening? .line (['/', '*'] ++ u) = some (['/', '*'] ++ u) := by
    simp [afterOpening?, Text.after?, skipSpace, Text.isSpace]
  rw [hline]
  simp

/-- **A line and a block never start together.** -/
theorem start_ne_start {x : Site .line} {y : Site .block} (hx : x.IsIn source)
    (hy : y.IsIn source) : x.directive.start ≠ y.directive.start := by
  intro hstart
  obtain ⟨blanks, t, hblanks, ht⟩ := hx.exists_drop_start
  obtain ⟨blanks', t', hblanks', ht'⟩ := hy.exists_drop_start
  have hline := x.opens.afterOpening?_eq hblanks (t := t)
  have hblock := y.opens.afterOpening?_eq hblanks' (t := t')
  rw [← ht] at hline
  rw [← ht', ← hstart] at hblock
  exact afterOpening?_line_ne_of_block hblock hline

end Site

/-- The directives of a scan start one after the other. -/
theorem pairwise_start_lt_scan (source : Text) :
    (scan source).Pairwise fun d e => d.start < e.start := by
  have hform : ∀ f, (scanForm f source).Pairwise fun d e => d.start ≠ e.start := by
    intro f
    obtain ⟨xs, hxs, hscan⟩ := (scanForm_eq_iff_searched f source _).mp rfl
    rw [hscan]
    exact List.pairwise_map.mpr (hxs.pairwise.imp fun {x y} h => (x.start_lt_stop.trans_le h).ne)
  have hne : (scan source).Pairwise fun d e => d.start ≠ e.start := by
    rw [(scan_perm source).pairwise_iff fun h => h.symm, List.pairwise_append]
    refine ⟨hform .line, hform .block, fun d hd e he => ?_⟩
    obtain ⟨x, hx, rfl⟩ := exists_isChosen_of_mem_scanForm hd
    obtain ⟨y, hy, rfl⟩ := exists_isChosen_of_mem_scanForm he
    exact Site.start_ne_start hx.isIn hy.isIn
  exact (hne.and (pairwise_start_le_scan source)).imp fun ⟨hne, hle⟩ => lt_of_le_of_ne hle hne

/-- **What a scan reports is well formed.** The search of each form ends: no sequence of its rounds
is endless, and the rounds from the start of the source on, which find the directives of the form,
go on at greater and greater offsets. Each directive of the scan replaces at least one character and
lies inside the source. The directives start one after the other, so no two of them, of whichever
forms, start together; and two directives of one form have no character in common. -/
theorem scan_wellFormed (source : Text) :
    (∀ f, WellFounded fun r' r => ∃ x : Site f, x.IsNext source r ∧ r' = x.resume) ∧
    (∀ f, ∃ xs : List (Site f), Searched f source 0 xs ∧
      (scan source).filter (fun d => d.form = f) = xs.map Site.directive ∧
      (0 :: xs.map Site.resume).Pairwise (· < ·)) ∧
    (∀ d ∈ scan source, d.start < d.stop ∧ d.stop ≤ source.length) ∧
    (scan source).Pairwise (fun d e => d.start < e.start) ∧
    ∀ f, ((scan source).filter fun d => d.form = f).Pairwise Disjoint := by
  refine ⟨fun f => wellFounded_isNext f source, fun f => ?_, fun d => bounds_of_mem_scan,
    pairwise_start_lt_scan source, fun f => ?_⟩
  · obtain ⟨xs, hxs, hscan⟩ := (scanForm_eq_iff_searched f source _).mp rfl
    exact ⟨xs, hxs, (filter_scan f source).trans hscan, hxs.pairwise_resume⟩
  · rw [filter_scan]
    exact pairwise_disjoint_scanForm f source

/-- A line on a line of its own in a block: the block starts first, and ends last. -/
theorem scan_wellFormed_nested :
    let source := "/*\n& include \"p\";\n*/".toList
    let line : Directive := ⟨.line, ['p'], 3, 17⟩
    let block : Directive := ⟨.block, ['p'], 0, 20⟩
    line ∈ scan source ∧ block ∈ scan source ∧ ¬line.Disjoint block ∧
      (line.start < line.stop ∧ line.stop ≤ source.length) ∧
      (block.start < block.stop ∧ block.stop ≤ source.length) := by
  intro source line block
  have hline : line ∈ scan source := mem_scan.mpr ⟨.line, by decide +kernel⟩
  have hblock : block ∈ scan source := mem_scan.mpr ⟨.block, by decide +kernel⟩
  obtain ⟨-, -, hbounds, -⟩ := scan_wellFormed source
  exact ⟨hline, hblock, by decide, hbounds line hline, hbounds block hblock⟩

end Directive

end ShaderInclude
