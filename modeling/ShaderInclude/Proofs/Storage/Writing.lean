import ShaderInclude.Storage.FileTree

/-!
# What was written is read

A file is written at the location to which its path leads, and this location holds no directory. All
locations on the way do, so the way is the same afterwards (`FileTree.follow_change`), whatever `..`
are in the path. Main statement: `FileTree.read_of_write`, a file that was written is read as it was
written, by the same path.
-/

namespace ShaderInclude

namespace FileTree

variable {t t' : FileTree} {l l' place : Location} {n : Node} {segment : Text}
  {segments : List Text} {p : Path} {bytes : Bytes}

@[simp]
theorem get?_change (t : FileTree) (place l : Location) (n : Node) :
    (t.change place n).nodes.get? l = if place = l then some n else t.nodes.get? l :=
  t.nodes.get?_set place l n

theorem has_change (h : t.nodes.has l = true) : (t.change place n).nodes.has l = true := by
  rw [OrderedMap.has_eq_true_iff] at h ⊢
  rw [get?_change]
  split
  case isTrue => exact ⟨n, rfl⟩
  case isFalse => exact h

/-- A location that holds no directory. -/
def NoDirectory (t : FileTree) (place : Location) : Prop :=
  ∀ modified, t.nodes.get? place ≠ some (.directory modified)

/-- From a directory the same locations are found after a change elsewhere. -/
theorem below_change (hplace : t.NoDirectory place) (h : t.below l segment = .ok l') :
    (t.change place n).below l segment = .ok l' := by
  rw [below] at h ⊢
  cases hnode : t.nodes.get? l with
  | none => simp [hnode] at h
  | some node =>
    cases node with
    | file => simp [hnode] at h
    | directory modified =>
      have hne : place ≠ l := fun heq => hplace modified (heq ▸ hnode)
      rw [hnode] at h
      rwa [get?_change, if_neg hne, hnode]

theorem enter_eq_ok_iff : t.enter l segment = .ok l' ↔
    t.below l segment = .ok l' ∧ t.nodes.has l' = true := by
  rw [enter]
  cases t.below l segment with
  | error => simp
  | ok l'' =>
    simp only [Except.ok.injEq]
    split
    case isTrue hhas =>
      exact ⟨fun h => by cases h; exact ⟨rfl, hhas⟩, fun h => by rw [h.1]⟩
    case isFalse hhas =>
      exact ⟨nofun, fun h => absurd (h.1 ▸ h.2) hhas⟩

theorem follow_concat (h : t.follow l segments = .ok place)
    (hlast : t.enter place segment = .ok l') :
    t.follow l (segments ++ [segment]) = .ok l' := by
  induction segments generalizing l with
  | nil =>
    cases h
    rw [List.nil_append, follow, hlast]
    rfl
  | cons s segments ih =>
    rw [follow] at h
    rw [List.cons_append, follow]
    cases hs : t.enter l s with
    | error => simp [hs] at h
    | ok l₁ =>
      rw [hs] at h
      exact ih h

/-- **The way to a location is the same after a change** where there is no directory. -/
theorem follow_change (hplace : t.NoDirectory place) (h : t.follow l segments = .ok l') :
    (t.change place n).follow l segments = .ok l' := by
  induction segments generalizing l with
  | nil => exact h
  | cons s segments ih =>
    rw [follow] at h ⊢
    cases hs : t.enter l s with
    | error => simp [hs] at h
    | ok l₁ =>
      obtain ⟨hbelow, hhas⟩ := enter_eq_ok_iff.mp hs
      have hs' : (t.change place n).enter l s = .ok l₁ :=
        enter_eq_ok_iff.mpr ⟨below_change hplace hbelow, has_change hhas⟩
      rw [hs] at h
      rw [hs']
      exact ih h

/-- A node that is put where there is no directory is found by the path that led there. -/
theorem locate_change (hplace : t.NoDirectory place) (h : t.locateNew p = .ok place) :
    (t.change place n).locate p = .ok place := by
  have hthere : (t.change place n).nodes.has place = true :=
    OrderedMap.has_eq_true_iff.mpr ⟨n, by rw [get?_change, if_pos rfl]⟩
  rw [locateNew] at h
  rw [locate]
  split at h
  case isTrue => cases h
  case isFalse hnull =>
    rw [if_neg hnull]
    have hfollow : (t.change place n).follow (t.base p) (p.names.map Name.text) = .ok place := by
      cases hlast : p.names.getLast? with
      | none =>
        rw [hlast] at h
        rw [List.getLast?_eq_none_iff.mp hlast]
        exact congrArg Except.ok (Except.ok.inj h)
      | some m =>
        rw [hlast] at h
        simp only at h
        obtain ⟨names, hnames⟩ := List.getLast?_eq_some_iff.mp hlast
        rw [hnames, List.dropLast_concat] at h
        rw [hnames, List.map_append, List.map_singleton]
        cases hway : t.follow (t.base p) (names.map Name.text) with
        | error => simp [hway] at h
        | ok l =>
          simp only [hway] at h
          cases hbelow : t.below l m.text with
          | error => simp [hbelow] at h
          | ok l' =>
            simp only [hbelow, Except.ok.injEq] at h
            subst h
            exact follow_concat (follow_change hplace hway)
              (enter_eq_ok_iff.mpr ⟨below_change hplace hbelow, hthere⟩)
    have hbase : (t.change place n).base p = t.base p := rfl
    rw [hbase, hfollow]

/-- A write changes one location, where there was no directory. -/
theorem exists_change_of_write (h : t.write p bytes = .ok t') :
    ∃ place modified, t.locateNew p = .ok place ∧ t.NoDirectory place ∧
      t' = t.change place (.file bytes modified none) := by
  rw [write] at h
  cases hplace : t.locateNew p with
  | error => simp [hplace] at h
  | ok place =>
    simp only [hplace] at h
    cases hnode : t.nodes.get? place with
    | none =>
      simp only [hnode, Except.ok.injEq] at h
      exact ⟨place, 0, rfl, fun modified hdirectory => by simp [hnode] at hdirectory, h.symm⟩
    | some node =>
      cases node with
      | directory => simp [hnode] at h
      | file old modified refusal =>
        cases refusal with
        | some => simp [hnode] at h
        | none =>
          simp only [hnode, Except.ok.injEq] at h
          refine ⟨place, modified, rfl, fun _ hdirectory => ?_, h.symm⟩
          simp [hnode] at hdirectory

/-- **A file that was written is read as it was written.** -/
theorem read_of_write (h : t.write p bytes = .ok t') : t'.read p = .ok bytes := by
  obtain ⟨place, modified, hlocate, hplace, rfl⟩ := exists_change_of_write h
  have hnode : (t.change place (.file bytes modified none)).node p =
      .ok (.file bytes modified none) := by
    rw [node, locate_change hplace hlocate]
    simp
  rw [read, hnode]

end FileTree

end ShaderInclude
