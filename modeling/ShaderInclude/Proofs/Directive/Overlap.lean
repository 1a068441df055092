import ShaderInclude.Proofs.Directive.Search

/-!
# Directives that overlap

The two forms are searched one without regard to the other, so nothing keeps a line and a block of
one scan from having characters in common. There are four ways to get there, and `Entangled` lists
them: one of the two begins inside the path of the other, both have the same `&`, or the block is
anchored behind the path of the line and begins before the line ends.

Main statements: a line and a block of a scan are disjoint if and only if they are not entangled,
and then replacing the second one leaves the characters of the first one alone
(`exists_disjoint_iff_not_entangled`). `scan_overlapping` is a source with an entangled pair, of
which a part of what replaces the block is lost when the line is replaced. Two directives of one
form are always disjoint (`pairwise_disjoint_scanForm`).
-/

namespace ShaderInclude

namespace Directive

/-- The character at an offset is one that the directive replaces. -/
def Covers (d : Directive) (i : Nat) : Prop := d.start ≤ i ∧ i < d.stop

/-- No character is replaced by both directives. -/
def Disjoint (d e : Directive) : Prop := ∀ i, ¬(d.Covers i ∧ e.Covers i)

/-! ### Disjoint directives -/

section Disjoint

variable {d e : Directive}

theorem Disjoint.symm (h : d.Disjoint e) : e.Disjoint d := fun i hi => h i hi.symm

theorem Disjoint.of_le (h : d.stop ≤ e.start) : d.Disjoint e :=
  fun _ ⟨hd, he⟩ => absurd (hd.2.trans_le h) (not_lt.mpr he.1)

theorem disjoint_iff :
    d.Disjoint e ↔ d.stop ≤ d.start ∨ e.stop ≤ e.start ∨ d.stop ≤ e.start ∨ e.stop ≤ d.start := by
  constructor
  · intro h
    by_contra hmeet
    -- the later one of the two starts is covered by both
    refine h (max d.start e.start) ⟨⟨le_max_left _ _, ?_⟩, le_max_right _ _, ?_⟩ <;> omega
  · rintro h i ⟨⟨hd, hd'⟩, he, he'⟩
    omega

instance (d e : Directive) : Decidable (d.Disjoint e) := decidable_of_iff _ disjoint_iff.symm

/-- Replacing the second of two disjoint directives leaves the characters of the first one alone, in
every code that still is the source up to the second one. -/
theorem Disjoint.getElem?_splice {source code : Text} (h : d.Disjoint e) (hde : d.start ≤ e.start)
    (he : e.start < e.stop) (hsource : e.start ≤ source.length)
    (hcode : code.take e.start = source.take e.start) (insert : Text) {i : Nat} (hi : d.Covers i) :
    (e.splice insert code)[i]? = source[i]? := by
  have hlt : i < e.start := by
    have hcases := disjoint_iff.mp h
    obtain ⟨hstart, hstop⟩ := hi
    omega
  have hlength : i < (source.take e.start).length := by
    rwa [List.length_take, Nat.min_eq_left hsource]
  rw [splice, Text.splice, hcode, List.append_assoc, List.getElem?_append_left hlength,
    List.getElem?_take_of_lt hlt]

end Disjoint

variable {f g : Form} {source : Text}

namespace Site

variable {x : Site f} {y : Site g}

/-- A directive replaces its `&`. -/
theorem covers_ampersand (x : Site f) : x.directive.Covers x.ampersand :=
  ⟨x.start_le_ampersand, x.ampersand_lt_resume.trans_le x.resume_le_stop⟩

theorem not_disjoint_of_covers (h : x.directive.Covers y.ampersand) :
    ¬x.directive.Disjoint y.directive := fun hdisjoint => hdisjoint _ ⟨h, y.covers_ampersand⟩

end Site

/-! ### A line and a block -/

/-- A site begins inside the path of another one. -/
def Site.BeginsInPath (y : Site g) (x : Site f) : Prop :=
  x.pathStart ≤ y.offset ∧ y.offset < x.pathStop

/-- The ways in which a line and a block can meet. -/
inductive Entangled (x : Site .line) (y : Site .block) : Prop
  /-- The line begins inside the comment that the block is, behind `/*`. -/
  | shared (h : x.ampersand = y.ampersand)
  | lineInPath (h : x.BeginsInPath y)
  | blockInPath (h : y.BeginsInPath x)
  /-- The block is anchored at a newline behind the path of the line, and begins before the end of
  the line. -/
  | blockBehind (h : x.pathStop < y.offset) (h' : y.offset + 1 < x.directive.stop)

namespace Site

/-- What begins inside a path has its `&` there. -/
theorem IsIn.not_disjoint_of_beginsInPath {x : Site f} {y : Site g} (hx : x.IsIn source)
    (hy : y.IsIn source) (h : y.BeginsInPath x) : ¬x.directive.Disjoint y.directive := by
  have hx_lt := x.ampersand_lt_pathStart
  have hy_le : y.offset ≤ y.ampersand := Nat.le_add_right _ _
  have hstart := x.start_le_ampersand
  have hstop := x.resume_le_stop
  rw [resume_eq] at hstop
  obtain ⟨hafter, hbefore⟩ := h
  obtain ⟨-, hlt⟩ | hbehind := inPath_or_behind hx hy (by omega)
  · exact not_disjoint_of_covers ⟨by omega, by omega⟩
  · omega

variable {x : Site .line} {y : Site .block}

/-- A block behind the path of a line begins inside the line only at a newline that the line does
not leave out. -/
theorem start_lt_stop_iff (hx : x.IsIn source) (hy : y.IsIn source) (h : x.pathStop < y.offset) :
    y.directive.start < x.directive.stop ↔ y.offset + 1 < x.directive.stop := by
  have hstart := hy.offset_lt_start (x.pathStop.zero_le.trans_lt h)
  refine ⟨fun hlt => by omega, fun hlt => ?_⟩
  have hstop := x.stop_le_finish
  have hfinish := x.finish_eq
  have hresume := x.resume_eq
  have hterminator := x.closes.length_terminator_le
  have hending : x.ending.length = x.closing.length + x.terminator.length := List.length_append
  rcases y.anchor_cases with hanchor | hanchor | hanchor | hanchor
  · exact absurd (hy.1 hanchor) (by omega)
  · simpa [directive, hanchor] using hlt
  · -- no `}` stands behind a path
    have hbrace : '}' ∉ x.ending := by
      intro hmem
      rcases x.mem_ending hmem with h | h | ⟨h, -⟩ <;> revert h <;> decide
    have hapart := apart (hanchor ▸ hy.anchor) hx.ending (List.singleton_disjoint.mpr hbrace)
    simp only [List.length_singleton] at hapart
    omega
  · -- a `;` can only be what terminates the line
    have hapart := apart (hanchor ▸ hy.anchor) hx.closing
      (List.singleton_disjoint.mpr (x.closes.1.not_mem rfl))
    simp only [List.length_singleton] at hapart
    omega

/-- A block ends in `*/`. -/
theorem IsIn.star (hy : y.IsIn source) :
    y.pathStop + 2 < y.finish ∧ ['*'] <+: source.drop (y.finish - 2) := by
  obtain ⟨hterminator, before, after, -, -, hclosing⟩ := y.closes
  obtain ⟨front, hfront⟩ : ∃ front, y.ending = front ++ ['*', '/'] := by
    rw [Spelling.ending, hterminator, List.append_nil]
    rcases hclosing with h | h
    · exact ⟨before ++ after, by rw [h, List.append_assoc]⟩
    · exact ⟨before ++ ';' :: after, by rw [h, List.append_assoc, List.cons_append]⟩
  have hlength : y.ending.length = front.length + 2 := by rw [hfront]; exact List.length_append
  have hfinish := y.finish_eq
  refine ⟨by omega, ?_⟩
  obtain ⟨rest, hrest⟩ := hy.ending
  refine ⟨'/' :: rest, ?_⟩
  have hoffset : y.finish - 2 = y.pathStop + 1 + front.length := by omega
  rw [hoffset, ← List.drop_drop, ← hrest, hfront, List.append_assoc, List.drop_left]
  rfl

/-- A line behind the path of a block begins behind the block. -/
theorem stop_le_start_of_behind (hx : x.IsIn source) (hy : y.IsIn source)
    (h : y.pathStop < x.offset) : y.directive.stop ≤ x.directive.start := by
  have hstart := hx.offset_lt_start (y.pathStop.zero_le.trans_lt h)
  have hstop := y.stop_le_finish
  obtain ⟨hpath, hstar⟩ := hy.star
  have hlead : '*' ∉ x.lead := by
    intro hmem
    rcases x.mem_lead hmem with h | h | h | h | ⟨h, -⟩ <;> revert h <;> decide
  -- the `&` of the line lies behind the block, and no `*` comes between its anchor and its `&`
  have hbehind := apart hy.ending hx.ampersand
    (List.disjoint_singleton.mpr y.ampersand_not_mem_ending)
  have hapart := apart hstar hx.lead (List.singleton_disjoint.mpr hlead)
  have hamp : x.ampersand = x.offset + x.lead.length := rfl
  have hfinish := y.finish_eq
  simp only [List.length_singleton] at hbehind hapart
  omega

/-- **A line and a block of a source are disjoint exactly if they are not entangled.** -/
theorem IsIn.disjoint_iff (hx : x.IsIn source) (hy : y.IsIn source) :
    x.directive.Disjoint y.directive ↔ ¬Entangled x y := by
  constructor
  · rintro hdisjoint (h | h | h | ⟨h, h'⟩)
    · exact not_disjoint_of_covers (h ▸ x.covers_ampersand) hdisjoint
    · exact hy.not_disjoint_of_beginsInPath hx h hdisjoint.symm
    · exact hx.not_disjoint_of_beginsInPath hy h hdisjoint
    · have hlt := (start_lt_stop_iff hx hy h).mpr h'
      have hx_lt := x.start_lt_stop
      have hy_lt := y.start_lt_stop
      have hstart := x.start_le_ampersand
      have hstart' := y.offset_le_start
      have hbefore := x.ampersand_lt_pathStart.trans x.pathStart_lt_pathStop
      have hcases := Directive.disjoint_iff.mp hdisjoint
      omega
  · intro hfree
    -- the one whose `&` comes second lies in the path of the other, or behind it
    rcases lt_trichotomy x.ampersand y.ampersand with hlt | heq | hlt
    · obtain ⟨hstart, hstop⟩ | hbehind := inPath_or_behind hx hy hlt
      · exact absurd (.blockInPath ⟨hstart, (Nat.le_add_right _ _).trans_lt hstop⟩) hfree
      · refine .of_le (not_lt.mp fun h => hfree (.blockBehind hbehind ?_))
        exact (start_lt_stop_iff hx hy hbehind).mp h
    · exact absurd (.shared heq) hfree
    · obtain ⟨hstart, hstop⟩ | hbehind := inPath_or_behind hy hx hlt
      · exact absurd (.lineInPath ⟨hstart, (Nat.le_add_right _ _).trans_lt hstop⟩) hfree
      · exact (Disjoint.of_le (stop_le_start_of_behind hx hy hbehind)).symm

end Site

/-! ### The directives of a scan -/

/-- Two directives of one form are disjoint. -/
theorem pairwise_disjoint_scanForm (f : Form) (source : Text) :
    (scanForm f source).Pairwise Disjoint := by
  obtain ⟨xs, hxs, hscan⟩ := (scanForm_eq_iff_searched f source _).mp rfl
  rw [hscan]
  exact List.pairwise_map.mpr (hxs.pairwise.imp Disjoint.of_le)

/-- Each directive of a scan replaces something, inside the source. -/
theorem bounds_of_mem_scan {d : Directive} (h : d ∈ scan source) :
    d.start < d.stop ∧ d.stop ≤ source.length := by
  obtain ⟨f, hd⟩ := mem_scan.mp h
  obtain ⟨x, hx, rfl⟩ := exists_isChosen_of_mem_scanForm hd
  exact ⟨x.start_lt_stop, x.stop_le_finish.trans hx.isIn.finish_le⟩

/-- Where the directives of a scan are disjoint, they follow one another. -/
theorem pairwise_stop_le_scan (h : (scan source).Pairwise Disjoint) :
    (scan source).Pairwise fun d e => d.stop ≤ e.start := by
  have hboth := h.and (pairwise_start_le_scan source)
  refine hboth.imp_of_mem fun {d e} hd he ⟨hdisjoint, hle⟩ => ?_
  have hd_bounds := bounds_of_mem_scan hd
  have he_bounds := bounds_of_mem_scan he
  have hcases := disjoint_iff.mp hdisjoint
  omega

/-- **Lines and blocks overlap exactly where they are entangled.** The directives of a scan are
those of the lines and of the blocks that the two searches find. A line and a block among them are
disjoint if and only if they are not entangled; so all directives of the scan are disjoint if and
only if no pair is entangled. Of two disjoint directives the second one can be replaced, in every
code that still is the source up to it, with no effect on the characters of the first one. -/
theorem exists_disjoint_iff_not_entangled (source : Text) :
    ∃ (lines : List (Site .line)) (blocks : List (Site .block)),
      Searched .line source 0 lines ∧ Searched .block source 0 blocks ∧
      (scan source).Perm (lines.map Site.directive ++ blocks.map Site.directive) ∧
      (∀ x ∈ lines, ∀ y ∈ blocks, x.directive.Disjoint y.directive ↔ ¬Entangled x y) ∧
      ((scan source).Pairwise Disjoint ↔ ∀ x ∈ lines, ∀ y ∈ blocks, ¬Entangled x y) ∧
      ∀ d ∈ scan source, ∀ e ∈ scan source, d.Disjoint e → d.start ≤ e.start →
        ∀ (code insert : Text) (i : Nat), code.take e.start = source.take e.start → d.Covers i →
          (e.splice insert code)[i]? = source[i]? := by
  obtain ⟨lines, hlines, hline⟩ := (scanForm_eq_iff_searched .line source _).mp rfl
  obtain ⟨blocks, hblocks, hblock⟩ := (scanForm_eq_iff_searched .block source _).mp rfl
  have hperm : (scan source).Perm (lines.map Site.directive ++ blocks.map Site.directive) := by
    rw [← hline, ← hblock]
    exact scan_perm source
  have hdisjoint : ∀ x ∈ lines, ∀ y ∈ blocks,
      (x.directive.Disjoint y.directive ↔ ¬Entangled x y) := fun x hx y hy =>
    (hlines.isChosen hx).isIn.disjoint_iff (hblocks.isChosen hy).isIn
  refine ⟨lines, blocks, hlines, hblocks, hperm, hdisjoint, ?_, ?_⟩
  · have hline_apart := pairwise_disjoint_scanForm .line source
    have hblock_apart := pairwise_disjoint_scanForm .block source
    rw [hline] at hline_apart
    rw [hblock] at hblock_apart
    rw [hperm.pairwise_iff Disjoint.symm, List.pairwise_append]
    simp only [hline_apart, hblock_apart, true_and, List.forall_mem_map]
    exact forall₂_congr fun x hx => forall₂_congr fun y hy => hdisjoint x hx y hy
  · intro d _ e he hde hstart code insert i hcode hi
    obtain ⟨hlt, hle⟩ := bounds_of_mem_scan he
    exact hde.getElem?_splice hstart hlt (hlt.le.trans hle) hcode insert hi

/-- A block anchored at the first of three newlines behind the path of a line begins inside the
line, and when the line is replaced, a part of what has replaced the block is lost. -/
theorem scan_overlapping :
    let source := "& include \"x\"\n\n\n/* & include \"y\" */".toList
    let line : Directive := ⟨.line, ['x'], 0, 15⟩
    let block : Directive := ⟨.block, ['y'], 14, 35⟩
    scan source = [line, block] ∧ ¬line.Disjoint block ∧
      line.splice "X".toList (block.splice "Y;".toList source) = "X;".toList := by
  intro source line block
  have hline : scanForm .line source = [line] := by decide +kernel
  have hblock : scanForm .block source = [block] := by decide +kernel
  refine ⟨?_, by decide +kernel, by decide +kernel⟩
  rw [scan_eq_append (by rw [hline, hblock]; decide), hline, hblock]
  rfl

end Directive

end ShaderInclude
