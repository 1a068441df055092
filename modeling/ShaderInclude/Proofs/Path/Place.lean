import Mathlib.Data.List.Basic
import Mathlib.Data.List.Induction
import ShaderInclude.Proofs.Path.Canonical

/-!
# Where a path leads

`Place` is the lexical meaning of a path: from its anchor some levels up, and from there down along
names. It is found by walking the segments of the path as they are written, and nothing in it
counts what may be cancelled; `Path.place` walks the names of a path, and `Path.written` the
segments between the slashes of a text.

Main statement: normal forms are the unique canonical spellings of places (`canonical_unique`). The
normal form of a path leads to the same place and is spelled without detours, and two paths have the
same normal form exactly if they have the same anchor and lead to the same place. The proof relates
the walk behind `Path.normal` to the walk of places step by step (`Trail.enter_of_push`).
-/

namespace ShaderInclude

/-- Where a path leads from its anchor. -/
structure Place where
  /-- The number of levels above the start. -/
  up : Nat
  /-- The names from there down, in the order in which they are passed. -/
  below : List Text
deriving DecidableEq

namespace Name

theorem text_injective : Function.Injective Name.text := fun _ _ => Name.ext

theorem text_of_ofText? {t : Text} {n : Name} (h : ofText? t = some n) : n.text = t := by
  rw [ofText?] at h
  split at h
  case isTrue => exact Option.some.inj h ▸ rfl
  case isFalse => cases h

theorem ofText?_eq_none_iff {t : Text} (h : '/' ∉ t) :
    ofText? t = none ↔ t = [] ∨ t = ['.'] := by
  simp [ofText?, h, or_iff_not_imp_left]

end Name

/-- A text is split at the first separator. -/
theorem Text.splitOn_append_cons {sep : Char} {t : Text} (h : sep ∉ t) (rest : Text) :
    splitOn sep (t ++ sep :: rest) = t :: splitOn sep rest := by
  induction t with
  | nil => rw [List.nil_append, splitOn, if_pos rfl]
  | cons c t ih =>
    obtain ⟨hc, ht⟩ := not_or.mp (mt List.mem_cons.mpr h)
    rw [List.cons_append, splitOn, if_neg (Ne.symm hc), ih ht]

namespace Place

/-- The place where a path starts. -/
def start : Place := ⟨0, []⟩

/-- One segment further: an empty segment and `.` stay, `..` takes the last name back, and any other
segment is a name. With no name left, `..` goes one level up, or stays at a root. -/
def enter (anchored : Bool) (place : Place) (segment : Text) : Place :=
  if segment = [] ∨ segment = ['.'] then place
  else if segment = ['.', '.'] then
    if place.below ≠ [] then { place with below := place.below.dropLast }
    else if anchored then place
    else { place with up := place.up + 1 }
  else { place with below := place.below ++ [segment] }

/-- The place to which segments lead. -/
def along (anchored : Bool) (segments : List Text) : Place := segments.foldl (enter anchored) start

variable {anchored : Bool} {place : Place} {n : Name}

theorem enter_name (hn : n ≠ Name.up) :
    enter anchored place n.text = { place with below := place.below ++ [n.text] } := by
  have hup : n.text ≠ ['.', '.'] := fun h => hn (Name.ext h)
  simp [enter, n.ne_nil, n.ne_dot, hup]

theorem enter_up_of_ne_nil (h : place.below ≠ []) :
    enter anchored place Name.up.text = { place with below := place.below.dropLast } := by
  simp [enter, Name.up, h]

theorem enter_up_of_nil (h : place.below = []) : enter anchored place Name.up.text =
    if anchored then place else { place with up := place.up + 1 } := by
  simp [enter, Name.up, h]

end Place

namespace Path

/-- The place to which a path leads. -/
def place (p : Path) : Place := .along p.isAnchored (p.names.map Name.text)

/-- The place to which a path leads that is given as text, by its segments as they are written. -/
def written (t : Text) : Place := .along (anchorOf t ≠ .relative) (Text.splitOn '/' t)

variable {anchored : Bool} {k k' : Nat} {reals reals' : List Name} {n : Name} {p q : Path}

/-! ### Walks and places -/

/-- One step of a walk leads where the segment leads. -/
theorem Trail.enter_of_push (h : Climbs anchored k reals)
    (hpush : (climbed k reals).push anchored n = climbed k' reals') :
    Place.enter anchored ⟨k, reals.map Name.text⟩ n.text = ⟨k', reals'.map Name.text⟩ := by
  by_cases hn : n = Name.up
  · subst hn
    rcases List.eq_nil_or_concat reals with rfl | ⟨reals, last, rfl⟩
    · rw [Place.enter_up_of_nil rfl]
      cases anchored with
      | false =>
        rw [climbed_nil_push_up] at hpush
        obtain ⟨rfl, rfl⟩ := climbed_inj hpush
        rfl
      | true =>
        obtain ⟨rfl, rfl⟩ : k = k' ∧ [] = reals' := climbed_inj hpush
        rfl
    · rw [List.concat_eq_append] at hpush ⊢
      rw [climbed_concat_push_up] at hpush
      obtain ⟨rfl, rfl⟩ := climbed_inj hpush
      rw [Place.enter_up_of_ne_nil (by simp)]
      simp
  · rw [climbed_push_of_ne hn] at hpush
    obtain ⟨rfl, rfl⟩ := climbed_inj hpush
    rw [Place.enter_name hn, List.map_append]
    rfl

/-- **A walk leads to the place of its names**: as far up as it has climbed, and down along the
names that it has written after that. -/
theorem along_of_walk {names : List Name} (h : walk anchored names = .climbed k reals) :
    Place.along anchored (names.map Name.text) = ⟨k, reals.map Name.text⟩ := by
  induction names using List.reverseRecOn generalizing k reals with
  | nil =>
    obtain ⟨rfl, rfl⟩ := eq_nil_of_walk_nil h
    rfl
  | append_singleton names n ih =>
    obtain ⟨k', reals', hwalk, hclimbs, hpush⟩ := exists_push_of_walk_concat h
    rw [List.map_append, Place.along, List.foldl_append, ← Place.along, ih hwalk]
    exact Trail.enter_of_push hclimbs hpush

/-- The normal form of a path spells out the place to which it leads. -/
theorem exists_normal_eq (p : Path) : ∃ k reals, Climbs p.isAnchored k reals ∧
    p.place = ⟨k, reals.map Name.text⟩ ∧
    p.normal = ⟨p.anchor, List.replicate k Name.up ++ reals⟩ := by
  obtain ⟨k, reals, hwalk, hclimbs, hnames⟩ := exists_normal_names p
  exact ⟨k, reals, hclimbs, along_of_walk hwalk, congrArg (mk p.anchor) hnames⟩

theorem place_normal (p : Path) : p.normal.place = p.place := by
  obtain ⟨k, reals, hclimbs, hplace, hnormal⟩ := exists_normal_eq p
  rw [hplace, hnormal]
  exact along_of_walk (walk_climbed hclimbs)

/-- **Two paths have the same normal form exactly if they lead to the same place** from the same
anchor. -/
theorem normal_eq_iff : p.normal = q.normal ↔ p.anchor = q.anchor ∧ p.place = q.place := by
  constructor
  · intro h
    have hanchor : p.normal.anchor = q.normal.anchor := congrArg Path.anchor h
    exact ⟨hanchor, by rw [← place_normal p, h, place_normal]⟩
  · rintro ⟨hanchor, hplace⟩
    obtain ⟨k, reals, -, hp, hp_normal⟩ := exists_normal_eq p
    obtain ⟨k', reals', -, hq, hq_normal⟩ := exists_normal_eq q
    rw [hp, hq, Place.mk.injEq] at hplace
    obtain ⟨rfl, htexts⟩ := hplace
    rw [hp_normal, hq_normal, hanchor, List.map_injective_iff.mpr Name.text_injective htexts]

/-! ### Paths as texts -/

/-- What is dropped when a path is read leads nowhere. -/
theorem place_parse (t : Text) : (parse t).place = written t := by
  have key : ∀ (segments : List Text) (place : Place), (∀ s ∈ segments, '/' ∉ s) →
      ((segments.filterMap Name.ofText?).map Name.text).foldl
          (Place.enter (parse t).isAnchored) place =
        segments.foldl (Place.enter (parse t).isAnchored) place := by
    intro segments
    induction segments with
    | nil => exact fun _ _ => rfl
    | cons s segments ih =>
      intro place h
      obtain ⟨hs, hsegments⟩ := List.forall_mem_cons.mp h
      cases hname : Name.ofText? s with
      | none =>
        have hstay : Place.enter (parse t).isAnchored place s = place :=
          if_pos ((Name.ofText?_eq_none_iff hs).mp hname)
        rw [List.filterMap_cons_none hname, List.foldl_cons, hstay, ih place hsegments]
      | some n =>
        obtain rfl := Name.text_of_ofText? hname
        rw [List.filterMap_cons_some hname, List.map_cons, List.foldl_cons, List.foldl_cons,
          ih _ hsegments]
  exact key _ _ fun s hs => Text.sep_not_mem_of_mem_splitOn hs

theorem joinNames_cons_cons (n m : Name) (names : List Name) :
    joinNames (n :: m :: names) = n.text ++ '/' :: joinNames (m :: names) := by
  simp [joinNames, List.intercalate]

theorem splitOn_joinNames {names : List Name} (hne : names ≠ []) :
    Text.splitOn '/' (joinNames names) = names.map Name.text := by
  induction names with
  | nil => exact absurd rfl hne
  | cons n names ih =>
    cases names with
    | nil =>
      have hjoin : joinNames [n] = n.text := by simp [joinNames, List.intercalate]
      rw [hjoin, Text.splitOn_of_not_mem n.slash_not_mem]
      rfl
    | cons m names =>
      rw [joinNames_cons_cons, Text.splitOn_append_cons n.slash_not_mem,
        ih (List.cons_ne_nil m names)]
      rfl

/-- Names are read back as they were joined. -/
theorem filterMap_splitOn_joinNames (names : List Name) :
    (Text.splitOn '/' (joinNames names)).filterMap Name.ofText? = names := by
  by_cases hne : names = []
  · subst hne
    rfl
  · have hread : Name.ofText? ∘ Name.text = some := funext Name.ofText?_text
    rw [splitOn_joinNames hne, List.filterMap_map, hread, List.filterMap_some]

theorem head?_joinNames_ne (names : List Name) : (joinNames names).head? ≠ some '/' := by
  cases names with
  | nil => nofun
  | cons n names =>
    obtain ⟨c, t, ht⟩ := List.exists_cons_of_ne_nil n.ne_nil
    have hhead : (joinNames (n :: names)).head? = some c := by
      cases names with
      | nil => simp [joinNames, List.intercalate, ht]
      | cons m names => rw [joinNames_cons_cons, ht, List.cons_append, List.head?_cons]
    rw [hhead, ne_eq, Option.some.injEq]
    rintro rfl
    exact n.slash_not_mem (by simp [ht])

theorem anchorOf_append {t : Text} (h : t.head? ≠ some '/') (a : Anchor) :
    anchorOf (a.text ++ t) = a := by
  cases t with
  | nil => cases a <;> rfl
  | cons c t =>
    have hc : c ≠ '/' := fun hc => h (hc ▸ rfl)
    cases a <;> simp [Anchor.text, anchorOf, hc]

/-- An anchor with names after it is read back. -/
theorem parse_append_joinNames (a : Anchor) (names : List Name) :
    parse (a.text ++ joinNames names) = ⟨a, names⟩ := by
  have hnames : (Text.splitOn '/' (a.text ++ joinNames names)).filterMap Name.ofText? =
      (Text.splitOn '/' (joinNames names)).filterMap Name.ofText? := by
    cases a <;> rfl
  rw [parse, anchorOf_append (head?_joinNames_ne names), hnames, filterMap_splitOn_joinNames]

/-- Every path is read back as it is written. -/
theorem parse_render (p : Path) : parse p.render = p := by
  obtain ⟨anchor, names⟩ := p
  rw [render]
  split
  case h_1 hanchor hnames =>
    cases hanchor
    cases hnames
    rfl
  case h_2 => exact parse_append_joinNames anchor names

/-- A normal form has no segment that stays where it is. -/
theorem dot_not_mem_parts (p : Path) : ['.'] ∉ p.parts := by
  have hnames : ['.'] ∉ p.names.map Name.text := by
    simpa using fun n _ => n.ne_dot
  rw [parts]
  split
  case isTrue =>
    refine fun h => (List.mem_cons.mp h).elim ?_ hnames
    cases p.anchor <;> decide
  case isFalse => exact hnames

/-- **Normal forms are the unique canonical spellings of places.** The normal form of a path that is
given as text has the anchor of the text and leads to the same place. It has no `.`, and `..` only
in front of all other names, and there only if it has no anchor. Two texts have the same normal form
if and only if they have the same anchor and lead to the same place, and a normal form is its own
normal form. This is said of all paths, since each of them can be written. -/
theorem canonical_unique :
    (∀ t : Text, (canonical t).anchor = anchorOf t ∧ (canonical t).place = written t ∧
      ['.'] ∉ (canonical t).parts ∧
      (∃ k reals, (canonical t).names = List.replicate k Name.up ++ reals ∧ Name.up ∉ reals ∧
        ((canonical t).anchor = .relative ∨ k = 0)) ∧
      (canonical t).normal = canonical t) ∧
    (∀ t u : Text, canonical t = canonical u ↔ anchorOf t = anchorOf u ∧ written t = written u) ∧
    ∀ p : Path, parse p.render = p := by
  refine ⟨fun t => ⟨rfl, ?_, dot_not_mem_parts _, ?_, normal_isCanonical _⟩, fun t u => ?_,
    parse_render⟩
  · rw [canonical, place_normal, place_parse]
  · obtain ⟨k, reals, hclimbs, -, hnormal⟩ := exists_normal_eq (parse t)
    refine ⟨k, reals, congrArg Path.names hnormal, hclimbs.up_not_mem, ?_⟩
    by_cases hrelative : (parse t).anchor = .relative
    · exact .inl hrelative
    · exact .inr (hclimbs.eq_zero (decide_eq_true hrelative))
  · rw [canonical, canonical, normal_eq_iff, place_parse, place_parse]
    rfl

example : canonical "a//./b/../../../c/".toList = .parse "../c".toList := by decide +kernel

example : written "/../a/..".toList = written "/".toList := by decide +kernel

end Path

end ShaderInclude
