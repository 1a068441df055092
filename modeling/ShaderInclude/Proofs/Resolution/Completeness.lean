import ShaderInclude.Proofs.Resolution.Substitution

/-!
# What is left of directives in flattened code

Each source is scanned on its own, and its directives are replaced. So the code of a module is put
together of pieces of sources, `IncludeTree.pieces`. Each of them is a gap between the directives of
its source, and none of them has an occurrence of a directive in it. But where two pieces meet, the
end of one source may get the anchor or the terminator that it lacked, and a piece at the start of
the code needs no anchor any more. `Site.Joined` says that an occurrence in the code is of one of
these two kinds.

Main statement: every occurrence of a directive in flattened code is joined, if in no source of it
directives overlap; so a scan of the code finds nothing if and only if no occurrence was joined, and
then the code is left as it is when it is resolved again (`exists_pieces_joined`).
`scan_flattened_joined` is a module whose newline behind a directive terminates another one.
-/

namespace ShaderInclude

/-! ### Between the directives of a source -/

namespace Directive

variable {f : Form} {source : Text}

/-- Every occurrence begins before the end of some directive that has begun by its `&`. -/
theorem exists_mem_scan_of_isIn {x : Site f} (hx : x.IsIn source) :
    ∃ d ∈ scan source, x.offset < d.stop ∧ d.start ≤ x.ampersand := by
  obtain ⟨xs, hxs, hscan⟩ := (scanForm_eq_iff_searched f source _).mp rfl
  obtain ⟨y, hy, hle, hlt⟩ := hxs.exists_of_isIn hx x.offset.zero_le
  have hmem : y.directive ∈ scanForm f source := hscan ▸ List.mem_map_of_mem hy
  refine ⟨y.directive, mem_scan.mpr ⟨f, hmem⟩, hlt.trans_le y.resume_le_stop, ?_⟩
  -- no `&` stands between the beginning of a site and its own `&`
  have hlead := apart hx.ampersand (hxs.isChosen hy).isIn.lead
    (List.singleton_disjoint.mpr y.ampersand_not_mem_lead)
  have hstart := y.start_le_ampersand
  have hx_amp : x.ampersand = x.offset + x.lead.length := rfl
  have hy_amp : y.ampersand = y.offset + y.lead.length := rfl
  rw [List.length_singleton] at hlead
  omega

/-- Where a source has no directive it has no occurrence of one. -/
theorem scan_eq_nil_iff : scan source = [] ↔ ∀ f (x : Site f), ¬x.IsIn source := by
  constructor
  · intro hnil f x hx
    obtain ⟨d, hd, -⟩ := exists_mem_scan_of_isIn hx
    rw [hnil] at hd
    cases hd
  · intro hnone
    refine List.eq_nil_iff_forall_not_mem.mpr fun d hd => ?_
    obtain ⟨f, hd⟩ := mem_scan.mp hd
    obtain ⟨x, hx, -⟩ := exists_isChosen_of_mem_scanForm hd
    exact hnone f x hx.isIn

end Directive

/-! ### The pieces of a code -/

/-- A stretch of a source that is taken over as it is. -/
structure Piece where
  source : Text
  start : Nat
  stop : Nat

namespace Piece

def text (a : Piece) : Text := a.source.between a.start a.stop

/-- The texts of pieces in a row. -/
def join (pieces : List Piece) : Text := pieces.flatMap text

/-- The piece lies between the directives of its source. -/
def IsGap (a : Piece) : Prop :=
  ∀ d ∈ Directive.scan a.source, d.stop ≤ a.start ∨ a.stop ≤ d.start

theorem join_append (before after : List Piece) :
    join (before ++ after) = join before ++ join after := List.flatMap_append

theorem join_cons (a : Piece) (pieces : List Piece) : join (a :: pieces) = a.text ++ join pieces :=
  rfl

theorem join_singleton (a : Piece) : join [a] = a.text := List.append_nil _

theorem join_flatten (rows : List (List Piece)) : join rows.flatten = (rows.map join).flatten := by
  induction rows with
  | nil => rfl
  | cons row rows ih => rw [List.flatten_cons, join_append, ih, List.map_cons, List.flatten_cons]

theorem length_text_le (a : Piece) : a.text.length ≤ a.stop - a.start := by
  rw [text, Text.between, List.length_take]
  exact Nat.min_le_left _ _

/-- What is found in a piece is found in its source. -/
theorem drop_text_prefix (a : Piece) (k : Nat) : a.text.drop k <+: a.source.drop (a.start + k) := by
  rw [text, Text.between, List.drop_take, List.drop_drop]
  exact List.take_prefix _ _

/-- What a stretch of a code has within one piece, the source of the piece has. -/
theorem prefix_drop_source {before after : List Piece} {a : Piece} {t : Text} {i : Nat}
    (ht : t <+: (join (before ++ a :: after)).drop i) (hi : (join before).length ≤ i)
    (hstop : i + t.length ≤ (join before).length + a.text.length) :
    t <+: a.source.drop (a.start + (i - (join before).length)) := by
  obtain ⟨k, rfl⟩ := Nat.exists_eq_add_of_le hi
  rw [join_append, join_cons, ← List.drop_drop, List.drop_left,
    List.drop_append_of_le_length (by omega)] at ht
  rw [Nat.add_sub_cancel_left]
  refine (List.prefix_of_prefix_length_le ht (List.prefix_append _ _) ?_).trans
    (a.drop_text_prefix k)
  rw [List.length_drop]
  omega

/-- A stretch of joined pieces has a border of two pieces inside it, or it lies in one piece. -/
theorem border_or_piece {pieces : List Piece} {i j : Nat} (hij : i < j)
    (hj : j ≤ (join pieces).length) :
    (∃ before after, pieces = before ++ after ∧ i < (join before).length ∧
      (join before).length < j) ∨
    ∃ before a after, pieces = before ++ a :: after ∧ (join before).length ≤ i ∧
      j ≤ (join before).length + a.text.length := by
  induction pieces generalizing i j with
  | nil => exact absurd (hij.trans_le hj) (Nat.not_lt_zero i)
  | cons a pieces ih =>
    rw [join_cons, List.length_append] at hj
    have hsingle : (join [a]).length = a.text.length := by rw [join_singleton]
    by_cases hin : j ≤ a.text.length
    · exact .inr ⟨[], a, pieces, rfl, i.zero_le, by rw [Nat.add_comm]; exact hin⟩
    by_cases hborder : i < a.text.length
    · exact .inl ⟨[a], pieces, rfl, by omega, by omega⟩
    -- the stretch lies behind the first piece
    obtain ⟨before, after, rfl, hi, hj⟩ | ⟨before, b, after, rfl, hi, hj⟩ :=
      ih (i := i - a.text.length) (j := j - a.text.length) (by omega) (by omega)
    · refine .inl ⟨a :: before, after, rfl, ?_⟩
      rw [join_cons, List.length_append]
      omega
    · refine .inr ⟨a :: before, b, after, rfl, ?_⟩
      rw [join_cons, List.length_append]
      omega

end Piece

namespace IncludeTree

mutual

/-- The pieces of which the code of a tree is put together: the gaps between the directives of its
source, with the pieces of its children between them. -/
def pieces : IncludeTree → List Piece
  | node _ source children =>
    (Directive.weave (fun start stop => [⟨source, start, stop⟩]) source.length 0
      ((Directive.scan source).zip (piecesOf children))).flatten

/-- The pieces of trees in a row. -/
def piecesOf : List IncludeTree → List (List Piece)
  | [] => []
  | t :: ts => t.pieces :: piecesOf ts

end

theorem piecesOf_eq_map (ts : List IncludeTree) : piecesOf ts = ts.map pieces := by
  induction ts with
  | nil => rfl
  | cons t ts ih => rw [piecesOf, ih, List.map_cons]

variable {provided : Path → Text → Prop} {t : IncludeTree}

/-- **The code of a tree consists of its pieces**, and all of them are gaps, if in no source of the
tree directives overlap. -/
theorem Follows.code_eq_join (ht : t.Follows provided)
    (hdisjoint : ∀ q source, provided q source →
      (Directive.scan source).Pairwise Directive.Disjoint) :
    t.code = Piece.join t.pieces ∧ ∀ a ∈ t.pieces, a.IsGap := by
  induction ht with
  | @node p directory source children _ hprovided _ hpaths _ ih =>
    have hrow := Directive.consecutive_scan (hdisjoint p source hprovided)
    have hlength : (Directive.scan source).length = children.length := by
      simpa using (congrArg List.length hpaths).symm
    have hfst : ∀ {α : Type} (g : IncludeTree → α),
        ((Directive.scan source).zip (children.map g)).map Prod.fst = Directive.scan source :=
      fun g => List.map_fst_zip (by rw [hlength, List.length_map])
    constructor
    -- a weave of the children's codes is one of their pieces, each row of pieces joined
    · have hchildren : children.map code = (children.map pieces).map Piece.join := by
        rw [List.map_map]
        exact List.map_congr_left fun t ht => (ih t ht).1
      have hgap : (fun i j => Piece.join [⟨source, i, j⟩]) = source.between :=
        funext₂ fun i j => Piece.join_singleton ⟨source, i, j⟩
      have hcode := Directive.foldr_splice_eq 0 ((Directive.scan source).zip (children.map code))
        (by rw [hfst]; exact hrow)
      rw [List.take_zero, List.nil_append] at hcode
      rw [code, spliceAll, codes_eq_map, hcode, pieces, piecesOf_eq_map, Piece.join_flatten,
        Directive.map_weave, hgap, hchildren, List.zip_map_right]
    · intro a ha
      rw [pieces, piecesOf_eq_map] at ha
      obtain ⟨as, has, ha⟩ := List.mem_flatten.mp ha
      obtain hmem | ⟨i, j, rfl, -, hgap⟩ := Directive.mem_weave (by rw [hfst]; exact hrow) has
      · rw [List.map_snd_zip (by rw [hlength, List.length_map])] at hmem
        obtain ⟨t, ht, rfl⟩ := List.mem_map.mp hmem
        exact (ih t ht).2 a ha
      · obtain rfl := List.mem_singleton.mp ha
        rw [hfst] at hgap
        exact hgap

end IncludeTree

/-! ### Joined occurrences -/

namespace Directive

variable {f : Form} {pieces : List Piece}

/-- **An occurrence is joined** when the code is put together: a border between two pieces lies
inside it, or it stands without an anchor at the start of the code, in a piece that does not stand
at the start of its source. -/
inductive Site.Joined (x : Site f) (pieces : List Piece) : Prop
  | across {before after : List Piece} (hpieces : pieces = before ++ after)
      (hstart : x.offset < (Piece.join before).length)
      (hstop : (Piece.join before).length < x.finish)
  | first {before after : List Piece} {a : Piece} (hpieces : pieces = before ++ a :: after)
      (hbefore : Piece.join before = []) (hstop : x.finish ≤ a.text.length)
      (hanchor : x.anchor = []) (hstart : 0 < a.start)

/-- A stretch between the directives of a source has no occurrence in it. -/
theorem Site.not_isIn_of_isGap {x : Site f} {a : Piece} (ha : a.IsGap)
    (hstart : a.start ≤ x.offset) (hstop : x.finish ≤ a.stop) : ¬x.IsIn a.source := by
  intro hx
  obtain ⟨d, hd, hlt, hle⟩ := exists_mem_scan_of_isIn hx
  have hamp : x.ampersand < x.finish := x.ampersand_lt_resume.trans_le (Nat.sub_le _ _)
  have hcases := ha d hd
  omega

/-- **What occurs in joined gaps is joined.** -/
theorem Site.IsIn.joined {x : Site f} (hx : x.IsIn (Piece.join pieces))
    (hgaps : ∀ a ∈ pieces, a.IsGap) : x.Joined pieces := by
  have hlt : x.offset < x.finish := x.offset_lt_resume.trans_le (Nat.sub_le _ _)
  obtain ⟨before, after, hpieces, hstart, hstop⟩ | ⟨before, a, after, hpieces, hstart, hstop⟩ :=
    Piece.border_or_piece hlt hx.finish_le
  · exact .across hpieces hstart hstop
  · -- the piece's source has the same text, but not the occurrence
    let y : Site f := { x with offset := a.start + (x.offset - (Piece.join before).length) }
    have hfinish : x.finish = x.offset + x.text.length := rfl
    have hlength := a.length_text_le
    have htext : x.text <+: a.source.drop y.offset :=
      Piece.prefix_drop_source (hpieces ▸ hx.2) hstart (by omega)
    have hy : ¬y.IsIn a.source := by
      refine Site.not_isIn_of_isGap (hgaps a ?_) (Nat.le_add_right _ _) ?_
      · rw [hpieces]
        exact List.mem_append_right before List.mem_cons_self
      · have hfinish' : y.finish = y.offset + x.text.length := rfl
        have hoffset : y.offset = a.start + (x.offset - (Piece.join before).length) := rfl
        omega
    have hanchor : x.anchor = [] ∧ y.offset ≠ 0 := by
      by_contra hnot
      exact hy ⟨fun hnil => not_not.mp fun hne => hnot ⟨hnil, hne⟩, htext⟩
    have hzero : x.offset = 0 := hx.1 hanchor.1
    have hbefore : (Piece.join before).length = 0 := by omega
    refine .first hpieces (List.eq_nil_of_length_eq_zero hbefore) (by omega) hanchor.1 ?_
    have hoffset : y.offset = a.start + (x.offset - (Piece.join before).length) := rfl
    omega

end Directive

/-- **Flattening leaves no occurrence of a directive but joined ones.** Let a root be loaded from
its path into a new cache, and let no source of it, its own and those of its dependencies, have
directives that overlap. Then the code consists of the pieces of the root's include tree, all of
them gaps between the directives of their sources, and every occurrence in the code, of either form,
is joined. So the code has no directive if and only if no joined occurrence is in it; and then it
stays as it is when it is resolved again, with whatever resolver and in whatever directory. -/
theorem exists_pieces_joined (l : Loader) (p : Path) (m : Module) (s : CacheState)
    (hload : l.loadFromPath p .initial = (.ok m, s))
    (hdisjoint : ∀ q source, q = p.normal ∨ q ∈ m.dependencies → l.reader q = .ok source →
      (Directive.scan source).Pairwise Directive.Disjoint) :
    ∃ t : IncludeTree, t.path = p.normal ∧
      t.Follows (fun q source => l.reader q = .ok source) ∧ t.Explains m ∧
      m.code = Piece.join t.pieces ∧ (∀ a ∈ t.pieces, a.IsGap) ∧
      (∀ f (x : Directive.Site f), x.IsIn m.code → x.Joined t.pieces) ∧
      (Directive.scan m.code = [] ↔
        ∀ f (x : Directive.Site f), x.Joined t.pieces → ¬x.IsIn m.code) ∧
      (Directive.scan m.code = [] → ∀ resolver directory s',
        expandSource resolver directory m.code s' = (.ok (.raw m.code), s')) := by
  have hloads := loads_loadCanonical l p.normal none .initial
  rw [show l.loadCanonical p.normal none .initial = _ from hload] at hloads
  have hprovided : ∀ q source, .read q ∈ s.events → l.reader q = .ok source →
      l.reader q = .ok source ∧ (Directive.scan source).Pairwise Directive.Disjoint := by
    intro q source hq hread
    have hsource := (hloads.mem_dependencies_of_read hq).imp_left And.right
    exact ⟨hread, hdisjoint q source hsource hread⟩
  obtain ⟨t, hpath, hfollows, hexplains⟩ :=
    (hloads.explained (Path.normal_isCanonical p) nofun hprovided nofun).2 m rfl
  obtain ⟨hcode, hgaps⟩ := hfollows.code_eq_join fun _ _ h => h.2
  rw [← hexplains.code_eq] at hcode
  have hjoined : ∀ f (x : Directive.Site f), x.IsIn m.code → x.Joined t.pieces :=
    fun f x hx => Directive.Site.IsIn.joined (hcode ▸ hx) hgaps
  refine ⟨t, hpath, hfollows.mono fun _ _ h => h.1, hexplains, hcode, hgaps, hjoined, ?_, ?_⟩
  · rw [Directive.scan_eq_nil_iff]
    exact ⟨fun hnone f x _ => hnone f x, fun h f x hx => h f x (hjoined f x hx) hx⟩
  · intro hnone resolver directory s'
    simp only [expandSource, Module.raw, Module.unresolved, hnone]
    rfl

/-- A module that ends a line behind what it includes, and a module with a directive that nothing
terminates. -/
def unterminatedTable : OrderedMap Path Text :=
  .ofList [(.parse "a".toList, "& include 'b';\n".toList),
    (.parse "b".toList, "& include 'x'".toList)]

/-- What becomes of the first one. -/
def joinedModule : Module :=
  ⟨"& include 'b';\n".toList, [⟨.line, ['b'], 0, 14⟩], "& include 'x'\n".toList,
    [.parse "b".toList]⟩

/-- The occurrence in its code has the border between the two sources inside it. -/
theorem exists_pieces_joined_unterminated :
    let a := Path.parse "a".toList
    let l : Loader := ⟨.ofTable unterminatedTable, none, Loader.defaultLimit⟩
    ∃ s, l.loadFromPath a .initial = (.ok joinedModule, s) ∧
      (∀ q source, q = a.normal ∨ q ∈ joinedModule.dependencies → l.reader q = .ok source →
        (Directive.scan source).Pairwise Directive.Disjoint) ∧
      ∃ t : IncludeTree, t.Explains joinedModule ∧
        ∀ f (x : Directive.Site f), x.IsIn joinedModule.code → x.Joined t.pieces := by
  intro a l
  have hload : l.loadFromPath a .initial = (.ok joinedModule, (l.loadFromPath a .initial).2) :=
    Prod.ext (by decide +kernel) rfl
  have hdisjoint : ∀ q source, q = a.normal ∨ q ∈ joinedModule.dependencies →
      l.reader q = .ok source → (Directive.scan source).Pairwise Directive.Disjoint := by
    intro q source hq hread
    obtain rfl | rfl : q = a.normal ∨ q = .parse "b".toList :=
      hq.imp_right List.mem_singleton.mp
    · obtain rfl : "& include 'b';\n".toList = source :=
        Except.ok.inj ((show l.reader a.normal = _ by decide +kernel).symm.trans hread)
      rw [show Directive.scan "& include 'b';\n".toList = [⟨.line, ['b'], 0, 14⟩] by decide +kernel]
      exact List.pairwise_singleton _ _
    · obtain rfl : "& include 'x'".toList = source :=
        Except.ok.inj ((show l.reader (.parse "b".toList) = _ by decide +kernel).symm.trans hread)
      rw [show Directive.scan "& include 'x'".toList = [] by decide +kernel]
      exact List.Pairwise.nil
  obtain ⟨t, -, -, hexplains, -, -, hjoined, -⟩ :=
    exists_pieces_joined l a joinedModule _ hload hdisjoint
  exact ⟨_, hload, hdisjoint, t, hexplains, hjoined⟩

/-- The newline behind a directive terminates what stands at the end of the included module: the
code has a directive, and resolving it again asks for a file that no source includes. -/
theorem scan_flattened_joined :
    let a := Path.parse "a".toList
    let l : Loader := ⟨.ofTable unterminatedTable, none, Loader.defaultLimit⟩
    (l.loadFromPath a .initial).1 = .ok joinedModule ∧
      Directive.scan joinedModule.code = [⟨.line, ['x'], 0, 13⟩] ∧
      (l.load a joinedModule.code .initial).1 =
        .error (.finding (.unreadable (.parse "x".toList) (.access (.system .noEntry)))) := by
  decide +kernel

end ShaderInclude
