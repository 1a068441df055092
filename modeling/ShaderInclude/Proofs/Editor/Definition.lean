import Mathlib.Data.List.Permutation
import ShaderInclude.Editor.Navigation
import ShaderInclude.Proofs.Directive.Overlap
import ShaderInclude.Proofs.Text.Position
import ShaderInclude.Uri.Writer

/-!
# The directive under the cursor

A definition is asked for at a position, and the first directive whose span contains the position
gives it. Directives that have no character in common may still touch, and a position between two
characters is then contained in both: the end of a span belongs to it.

The main statement is `definition_of_covered`: at a character of a directive the definition is the
target of this directive, unless another one ends right before the character, which then is the
first of its directive. In that case it is the target of the other one. The links of the document
lead to the same places. All of this is for any writer of addresses; a target that has none is a
fault of the definition, and of the links as a whole.
-/

namespace ShaderInclude

namespace Editor

variable {s : Session} {write : Uri.Writer} {uri : Address} {text : Text} {p : Path}
  {d e : Directive} {i j o : Nat} {position : Position} {earlier later : List Directive}

/-- Where a directive of a document leads: the start of the module that it names. -/
def leadsTo (write : Uri.Writer) (p : Path) (d : Directive) : Except Fault (Option Location) :=
  (Uri.ofPath write (Path.target p.parent d.path)).map fun a => some ⟨a, .atOrigin⟩

/-! ### Links -/

section

variable {α β : Type} {f : α → Except Fault β} {as : List α} {bs : List β} {a : α} {fault : Fault}

theorem mapM_cons_eq_ok_iff : (a :: as).mapM f = .ok bs ↔
    ∃ b bs', f a = .ok b ∧ as.mapM f = .ok bs' ∧ bs = b :: bs' := by
  rw [List.mapM_cons]
  cases f a <;> cases as.mapM f <;> simp [bind, Except.bind, pure, Except.pure, eq_comm]

theorem mapM_cons_eq_error_iff : (a :: as).mapM f = .error fault ↔
    f a = .error fault ∨ (∃ b, f a = .ok b) ∧ as.mapM f = .error fault := by
  rw [List.mapM_cons]
  cases f a <;> cases as.mapM f <;> simp [bind, Except.bind, pure, Except.pure]

/-- A list that is mapped without a fault has a value for each of its elements. -/
theorem exists_of_mapM_eq_ok (h : as.mapM f = .ok bs) (ha : as[i]? = some a) :
    ∃ b, f a = .ok b ∧ bs[i]? = some b := by
  induction as generalizing bs i with
  | nil => cases ha
  | cons a₀ as ih =>
    obtain ⟨b₀, bs₀, hb₀, hrest, rfl⟩ := mapM_cons_eq_ok_iff.mp h
    match i with
    | 0 =>
      obtain rfl := Option.some.inj ha
      exact ⟨b₀, hb₀, rfl⟩
    | i + 1 =>
      obtain ⟨b, hb, hi⟩ := ih hrest ha
      exact ⟨b, hb, hi⟩

/-- **A list is mapped with a fault** if one of its elements has this fault and those before it have
none, and only then. -/
theorem mapM_eq_error_iff : as.mapM f = .error fault ↔ ∃ before a after,
    as = before ++ a :: after ∧ (∀ a' ∈ before, ∃ b, f a' = .ok b) ∧ f a = .error fault := by
  induction as with
  | nil => simp [pure, Except.pure]
  | cons a₀ as ih =>
    rw [mapM_cons_eq_error_iff, ih]
    constructor
    · rintro (ha₀ | ⟨hb₀, before, a, after, rfl, hbefore, ha⟩)
      · exact ⟨[], a₀, as, rfl, nofun, ha₀⟩
      · exact ⟨a₀ :: before, a, after, rfl, List.forall_mem_cons.mpr ⟨hb₀, hbefore⟩, ha⟩
    · rintro ⟨_ | ⟨a₁, before⟩, a, after, heq, hbefore, ha⟩
      · obtain ⟨rfl, rfl⟩ := List.cons.inj heq
        exact .inl ha
      · obtain ⟨rfl, rfl⟩ := List.cons.inj heq
        obtain ⟨hb₀, hrest⟩ := List.forall_mem_cons.mp hbefore
        exact .inr ⟨hb₀, before, a, after, rfl, hrest, ha⟩

end

/-- The link of a directive, if its target has an address. -/
def linkOf (write : Uri.Writer) (p : Path) (text : Text) (d : Directive) : Except Fault Link :=
  (Uri.ofPath write (Path.target p.parent d.path)).map fun a =>
    ⟨d.span (LineIndex.ofText text), a, d.path⟩

theorem Session.links_eq_mapM (htext : s.documents.get? uri = some text)
    (hpath : Uri.toPath uri = .ok p) :
    s.links write uri = (Directive.scan text).mapM (linkOf write p text) := by
  have hlinks : s.links write uri = linksOf write p text := by
    simp [links, htext, hpath, bind, Except.bind]
  rw [hlinks, linksOf, targets, List.mapM_map]
  refine congrArg (List.mapM · _) (funext fun d => ?_)
  simp only [Function.comp_apply, linkOf]
  cases Uri.ofPath write (Path.target p.parent d.path) <;> rfl

theorem leadsTo_of_linkOf {link : Link} (h : linkOf write p text d = .ok link) :
    link.span = d.span (LineIndex.ofText text) ∧
      leadsTo write p d = .ok (some ⟨link.target, .atOrigin⟩) := by
  unfold linkOf at h
  unfold leadsTo
  generalize Uri.ofPath write (Path.target p.parent d.path) = address at h ⊢
  cases address with
  | error => cases h
  | ok a =>
    obtain rfl := Except.ok.inj h
    exact ⟨rfl, rfl⟩

/-- A directive that leads nowhere has no link, with the same fault. -/
theorem linkOf_eq_error_iff {fault : Fault} :
    linkOf write p text d = .error fault ↔ leadsTo write p d = .error fault := by
  unfold linkOf leadsTo
  cases Uri.ofPath write (Path.target p.parent d.path) <;> simp [Except.map]

theorem exists_linkOf_iff :
    (∃ link, linkOf write p text d = .ok link) ↔ ∃ place, leadsTo write p d = .ok place := by
  unfold linkOf leadsTo
  cases Uri.ofPath write (Path.target p.parent d.path) <;> simp [Except.map]

/-- Each directive of a document has a link, which leads where the directive does. -/
theorem Session.exists_link {links : List Link} (htext : s.documents.get? uri = some text)
    (hpath : Uri.toPath uri = .ok p) (hlinks : s.links write uri = .ok links)
    (hd : (Directive.scan text)[i]? = some d) :
    ∃ link, links[i]? = some link ∧ link.span = d.span (LineIndex.ofText text) ∧
      leadsTo write p d = .ok (some ⟨link.target, .atOrigin⟩) := by
  rw [links_eq_mapM htext hpath] at hlinks
  obtain ⟨link, hlink, hi⟩ := exists_of_mapM_eq_ok hlinks hd
  exact ⟨link, hi, leadsTo_of_linkOf hlink⟩

/-- **Links that end with a fault** end with that of the first directive that leads nowhere. -/
theorem Session.links_eq_error_iff {fault : Fault} (htext : s.documents.get? uri = some text)
    (hpath : Uri.toPath uri = .ok p) :
    s.links write uri = .error fault ↔ ∃ before e after,
      Directive.scan text = before ++ e :: after ∧
      (∀ e' ∈ before, ∃ place, leadsTo write p e' = .ok place) ∧
      leadsTo write p e = .error fault := by
  rw [links_eq_mapM htext hpath, mapM_eq_error_iff]
  simp only [exists_linkOf_iff, linkOf_eq_error_iff]

/-! ### The first directive at a position -/

/-- The first directive whose span contains a position gives the definition there. -/
theorem Session.definition_eq_leadsTo (htext : s.documents.get? uri = some text)
    (hpath : Uri.toPath uri = .ok p) (hscan : Directive.scan text = earlier ++ d :: later)
    (hd : (d.span (LineIndex.ofText text)).contains position = true)
    (hearlier : ∀ e ∈ earlier, (e.span (LineIndex.ofText text)).contains position ≠ true) :
    s.definition write uri position = leadsTo write p d := by
  have hfound : (targets p text).find?
      (fun t => (t.1.span (LineIndex.ofText text)).contains position) =
        some (d, Path.target p.parent d.path) := by
    have hnone : (earlier.map fun d => (d, Path.target p.parent d.path)).find?
        (fun t => (t.1.span (LineIndex.ofText text)).contains position) = none := by
      simpa using hearlier
    simp [targets, hscan, List.find?_append, hnone, hd]
  simp only [definition, htext, hpath, bind, Except.bind, definitionOf, hfound, leadsTo]
  cases Uri.ofPath write (Path.target p.parent d.path) <;> rfl

/-- A directive contains the positions of its characters and the one after them. -/
theorem contains_position_iff :
    (d.span (LineIndex.ofText text)).contains ((LineIndex.ofText text).position o) = true ↔
      d.start ≤ o ∧ o ≤ d.stop :=
  (LineIndex.ascending_ofText text).contains_span_iff

/-- Disjoint directives before another one end before it, and those after it start after it. -/
theorem exists_split_scan (hdisjoint : (Directive.scan text).Pairwise Directive.Disjoint)
    (hd : d ∈ Directive.scan text) :
    ∃ earlier later, Directive.scan text = earlier ++ d :: later ∧
      (∀ e ∈ earlier, e.stop ≤ d.start) ∧ ∀ e ∈ later, d.stop ≤ e.start := by
  have hordered := Directive.pairwise_stop_le_scan hdisjoint
  obtain ⟨earlier, later, hscan⟩ := List.append_of_mem hd
  rw [hscan, List.pairwise_append, List.pairwise_cons] at hordered
  obtain ⟨-, ⟨hlater, -⟩, hearlier⟩ := hordered
  exact ⟨earlier, later, hscan, fun e he => hearlier e he d List.mem_cons_self, hlater⟩

/-- **The definition at a character of a directive.** Let no two directives of an open document
have a character in common. At a character of one of them the definition is
* the target of this directive, if none ends right before the character, and
* the target of the one that does, otherwise; the character is then the first of its directive.

Each directive has a link, if the document has links, and it leads to the same place. The document
has no links if a directive leads nowhere, and then the links end with the fault of the first one
that does. -/
theorem definition_of_covered (s : Session) (write : Uri.Writer) (uri : Address) (text : Text)
    (p : Path) (htext : s.documents.get? uri = some text) (hpath : Uri.toPath uri = .ok p)
    (hdisjoint : (Directive.scan text).Pairwise Directive.Disjoint) (d : Directive)
    (hd : d ∈ Directive.scan text) (o : Nat) (ho : d.Covers o) :
    let position := (LineIndex.ofText text).position o
    ((∀ e ∈ Directive.scan text, e.stop ≠ o) →
        s.definition write uri position = leadsTo write p d) ∧
      (∀ e ∈ Directive.scan text, e.stop = o →
        o = d.start ∧ s.definition write uri position = leadsTo write p e) ∧
      (∀ links, s.links write uri = .ok links → ∀ (i : Nat) e, (Directive.scan text)[i]? = some e →
        ∃ link, links[i]? = some link ∧ link.span = e.span (LineIndex.ofText text) ∧
          leadsTo write p e = .ok (some ⟨link.target, .atOrigin⟩)) ∧
      ∀ fault, s.links write uri = .error fault ↔ ∃ before e after,
        Directive.scan text = before ++ e :: after ∧
        (∀ e' ∈ before, ∃ place, leadsTo write p e' = .ok place) ∧
        leadsTo write p e = .error fault := by
  intro position
  obtain ⟨hstart, hstop⟩ := ho
  obtain ⟨earlier, later, hscan, hearlier, hlater⟩ := exists_split_scan hdisjoint hd
  refine ⟨fun hfree => ?_, fun e he hend => ?_, fun links hlinks i e he =>
    Session.exists_link htext hpath hlinks he, fun fault => Session.links_eq_error_iff htext hpath⟩
  · refine Session.definition_eq_leadsTo htext hpath hscan
      (contains_position_iff.mpr ⟨hstart, hstop.le⟩) fun e he hcontains => ?_
    have hmem : e ∈ Directive.scan text := hscan ▸ List.mem_append_left _ he
    have hle := (contains_position_iff.mp hcontains).2
    exact hfree e hmem (le_antisymm ((hearlier e he).trans hstart) hle)
  · have hbounds := Directive.bounds_of_mem_scan he
    -- only a directive before `d` can end where `d` goes on
    have hbefore : e.stop ≤ d.start := by
      rw [hscan] at he
      rcases List.mem_append.mp he with he | he
      · exact hearlier e he
      rcases List.mem_cons.mp he with rfl | he
      · omega
      · have hle := hlater e he
        omega
    obtain ⟨before, after, hsplit, hfirst, -⟩ := exists_split_scan hdisjoint he
    refine ⟨by omega, Session.definition_eq_leadsTo htext hpath hsplit
      (contains_position_iff.mpr ⟨by omega, by omega⟩) fun e' he' hcontains => ?_⟩
    have hle := (contains_position_iff.mp hcontains).2
    have hgap := hfirst e' he'
    omega

/-- Two directives that touch. -/
def touchingText : Text := "& include \"b\";& include \"c\";".toList

private theorem scan_touchingText :
    Directive.scan touchingText = [⟨.line, ['b'], 0, 14⟩, ⟨.line, ['c'], 14, 28⟩] := by
  cbv

private theorem pairwise_disjoint_touchingText :
    (Directive.scan touchingText).Pairwise Directive.Disjoint := by
  rw [scan_touchingText]
  exact List.pairwise_pair.mpr (Directive.Disjoint.of_le (by decide))

/-- After the start of the second directive the definition is its own target. At the start it is the
target of the first one. -/
theorem definition_of_covered_touching :
    let a := "file:///p/a".toList
    let s := (Session.ofSettings none {}).setDocument a touchingText
    let write : Uri.Writer := .standard
    let index := LineIndex.ofText touchingText
    s.definition write a (index.position 15) = .ok (some ⟨"file:///p/c".toList, .atOrigin⟩) ∧
      s.definition write a (index.position 14) = .ok (some ⟨"file:///p/b".toList, .atOrigin⟩) := by
  intro a s write index
  let d : Directive := ⟨.line, ['c'], 14, 28⟩
  have hcovered := fun o ho => definition_of_covered s write a touchingText (.parse "/p/a".toList)
    (by decide +kernel) (by decide +kernel) pairwise_disjoint_touchingText d
    (by rw [scan_touchingText]; exact List.mem_cons_of_mem _ List.mem_cons_self) o ho
  constructor
  · obtain ⟨hown, -⟩ := hcovered 15 ⟨by decide, by decide⟩
    rw [hown (by rw [scan_touchingText]; decide)]
    decide +kernel
  · obtain ⟨-, hother, -⟩ := hcovered 14 ⟨by decide, by decide⟩
    rw [(hother ⟨.line, ['b'], 0, 14⟩ (by rw [scan_touchingText]; exact List.mem_cons_self) rfl).2]
    decide +kernel

/-- Directives may be disjoint, and yet the definition at a character of one of them is not its own
target. -/
theorem exists_definition_not_own :
    ¬∀ (s : Session) (write : Uri.Writer) (uri : Address) (text : Text) (p : Path) (d : Directive)
      (o : Nat) (location : Location), s.documents.get? uri = some text →
      Uri.toPath uri = .ok p → (Directive.scan text).Pairwise Directive.Disjoint →
      d ∈ Directive.scan text → d.Covers o → leadsTo write p d = .ok (some location) →
      s.definition write uri ((LineIndex.ofText text).position o) = .ok (some location) := by
  intro h
  let a : Address := "file:///p/a".toList
  let p := Path.parse "/p/a".toList
  let s := (Session.ofSettings none {}).setDocument a touchingText
  let write : Uri.Writer := .standard
  have htext : s.documents.get? a = some touchingText := by decide +kernel
  have hpath : Uri.toPath a = .ok p := by decide +kernel
  have hown := h s write a touchingText p ⟨.line, ['c'], 14, 28⟩ 14
    ⟨"file:///p/c".toList, .atOrigin⟩ htext hpath pairwise_disjoint_touchingText
    (by rw [scan_touchingText]; exact List.mem_cons_of_mem _ List.mem_cons_self)
    ⟨by decide, by decide⟩ (by decide +kernel)
  have hscan : Directive.scan touchingText =
      [] ++ ⟨.line, ['b'], 0, 14⟩ :: [⟨.line, ['c'], 14, 28⟩] := scan_touchingText
  have hother : s.definition write a _ = leadsTo write p ⟨.line, ['b'], 0, 14⟩ :=
    Session.definition_eq_leadsTo htext hpath hscan
      (contains_position_iff.mpr ⟨Nat.zero_le 14, le_rfl⟩) nofun
  exact absurd (hother.symm.trans hown) (by decide +kernel)

end Editor

end ShaderInclude
