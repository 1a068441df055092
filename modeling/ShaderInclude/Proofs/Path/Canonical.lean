import ShaderInclude.Path.Normal

/-!
# Canonical paths

A path is canonical if it is its own normal form. `normal_isCanonical` says that normal forms are,
so that the targets of directives and the paths of roots, which are normal forms by definition, are
canonical. The proof is by the shape of what the walk writes: a leading run of `..`, empty below a
root, and then names that a `..` may still cancel (`walk_eq`).
-/

namespace ShaderInclude

namespace Path

/-- The path is its own normal form. -/
def IsCanonical (p : Path) : Prop := p.normal = p

/-- The walk that has climbed `k` times from the start and then written the names `reals`. -/
def Trail.climbed (k : Nat) (reals : List Name) : Trail :=
  ⟨reals.reverse ++ List.replicate k Name.up, reals.length⟩

/-- A walk only climbs from the start of a relative path, and cancels what is no `..`. -/
structure Climbs (anchored : Bool) (k : Nat) (reals : List Name) : Prop where
  up_not_mem : Name.up ∉ reals
  eq_zero : anchored = true → k = 0

variable {anchored : Bool} {k k' : Nat} {reals reals' : List Name} {n : Name}

theorem Trail.climbed_push_of_ne (hn : n ≠ Name.up) :
    (climbed k reals).push anchored n = climbed k (reals ++ [n]) := by
  simp [push, climbed, hn]

theorem Trail.climbed_concat_push_up :
    (climbed k (reals ++ [n])).push anchored Name.up = climbed k reals := by
  simp [push, climbed]

theorem Trail.climbed_nil_push_up : (climbed k []).push false Name.up = climbed (k + 1) [] := by
  simp [push, climbed, List.replicate_succ]

/-- The climb of a walk and the names that were written after it can be told apart. -/
theorem Trail.climbed_inj (h : climbed k reals = climbed k' reals') : k = k' ∧ reals = reals' := by
  have hdepth : reals.length = reals'.length := congrArg Trail.depth h
  have hwritten : reals.reverse ++ List.replicate k Name.up =
      reals'.reverse ++ List.replicate k' Name.up := congrArg Trail.written h
  obtain ⟨hreals, hups⟩ := List.append_inj hwritten (by simpa using hdepth)
  exact ⟨by simpa using congrArg List.length hups, List.reverse_inj.mp hreals⟩

/-- One name after a climb. -/
theorem exists_push_climbed (h : Climbs anchored k reals) (n : Name) :
    ∃ k' reals', (Trail.climbed k reals).push anchored n = .climbed k' reals' ∧
      Climbs anchored k' reals' := by
  by_cases hn : n = Name.up
  · subst hn
    rcases List.eq_nil_or_concat reals with rfl | ⟨reals, last, rfl⟩
    · cases anchored with
      | false => exact ⟨k + 1, [], Trail.climbed_nil_push_up, List.not_mem_nil, nofun⟩
      | true => exact ⟨k, [], rfl, h⟩
    · rw [List.concat_eq_append] at h ⊢
      refine ⟨k, reals, Trail.climbed_concat_push_up, ?_, h.eq_zero⟩
      exact fun hmem => h.up_not_mem (List.mem_append_left _ hmem)
  · refine ⟨k, reals ++ [n], Trail.climbed_push_of_ne hn, ?_, h.eq_zero⟩
    simpa [Ne.symm hn] using h.up_not_mem

/-- **The shape of a walk**: it has climbed some way and then written names. -/
theorem walk_eq (anchored : Bool) (names : List Name) :
    ∃ k reals, walk anchored names = .climbed k reals ∧ Climbs anchored k reals := by
  have key : ∀ (names : List Name) (k : Nat) (reals : List Name), Climbs anchored k reals →
      ∃ k' reals', names.foldl (Trail.push anchored) (.climbed k reals) = .climbed k' reals' ∧
        Climbs anchored k' reals' := by
    intro names
    induction names with
    | nil => exact fun k reals h => ⟨k, reals, rfl, h⟩
    | cons n names ih =>
      intro k reals h
      obtain ⟨k', reals', hpush, h'⟩ := exists_push_climbed h n
      rw [List.foldl_cons, hpush]
      exact ih k' reals' h'
  exact key names 0 [] ⟨List.not_mem_nil, fun _ => rfl⟩

theorem eq_nil_of_walk_nil (h : walk anchored [] = .climbed k reals) : k = 0 ∧ reals = [] := by
  have hstart : Trail.climbed 0 [] = .climbed k reals := h
  obtain ⟨rfl, rfl⟩ := Trail.climbed_inj hstart
  exact ⟨rfl, rfl⟩

/-- The last step of a walk. -/
theorem exists_push_of_walk_concat {names : List Name}
    (h : walk anchored (names ++ [n]) = .climbed k reals) :
    ∃ k' reals', walk anchored names = .climbed k' reals' ∧ Climbs anchored k' reals' ∧
      (Trail.climbed k' reals').push anchored n = .climbed k reals := by
  obtain ⟨k', reals', hwalk, hclimbs⟩ := walk_eq anchored names
  refine ⟨k', reals', hwalk, hclimbs, ?_⟩
  rw [← hwalk, ← h, walk, walk, List.foldl_append]
  rfl

/-- Names that are no `..` are written as they are. -/
theorem foldl_push_of_up_not_mem {names : List Name} (h : Name.up ∉ names) (before : List Name) :
    names.foldl (Trail.push anchored) (.climbed k before) = .climbed k (before ++ names) := by
  induction names generalizing before with
  | nil => rw [List.append_nil]; rfl
  | cons n names ih =>
    obtain ⟨hn, hnames⟩ := not_or.mp (mt List.mem_cons.mpr h)
    rw [List.foldl_cons, Trail.climbed_push_of_ne (Ne.symm hn), ih hnames, List.append_assoc]
    rfl

/-- A climb followed by names is written as it is. -/
theorem walk_climbed (h : Climbs anchored k reals) :
    walk anchored (List.replicate k Name.up ++ reals) = .climbed k reals := by
  have hups : ∀ k, anchored = false →
      (List.replicate k Name.up).foldl (Trail.push anchored) ⟨[], 0⟩ = .climbed k [] := by
    intro k hrel
    induction k with
    | zero => rfl
    | succ k ih =>
      rw [List.replicate_succ', List.foldl_append, ih]
      simp [Trail.push, Trail.climbed, hrel, List.replicate_succ]
  rw [walk, List.foldl_append]
  cases anchored with
  | false => rw [hups k rfl, foldl_push_of_up_not_mem h.up_not_mem, List.nil_append]
  | true =>
    obtain rfl := h.eq_zero rfl
    exact foldl_push_of_up_not_mem (k := 0) h.up_not_mem []

/-- A normal form has the names that the walk has written. -/
theorem exists_normal_names (p : Path) : ∃ k reals, walk p.isAnchored p.names = .climbed k reals ∧
    Climbs p.isAnchored k reals ∧ p.normal.names = List.replicate k Name.up ++ reals := by
  obtain ⟨k, reals, hwalk, h⟩ := walk_eq p.isAnchored p.names
  exact ⟨k, reals, hwalk, h, by simp [normal, hwalk, Trail.climbed]⟩

/-- A path that climbs and then goes down is canonical. -/
theorem isCanonical_of_climbs {p : Path} (h : Climbs p.isAnchored k reals)
    (hnames : p.names = List.replicate k Name.up ++ reals) : p.IsCanonical := by
  unfold IsCanonical
  rw [normal, hnames, walk_climbed h]
  simp [Trail.climbed, ← hnames]

/-- **Normal forms are canonical.** -/
theorem normal_isCanonical (p : Path) : p.normal.IsCanonical := by
  obtain ⟨k, reals, -, h, hnames⟩ := exists_normal_names p
  exact isCanonical_of_climbs (p := p.normal) h hnames

/-- The target of a directive is canonical. -/
theorem target_isCanonical (directory : Path) (written : Text) :
    (target directory written).IsCanonical :=
  normal_isCanonical _

/-! ### Paths of one name below the root -/

/-- A name is read back from below the root. -/
theorem parse_root (n : Name) : parse ('/' :: n.text) = ⟨.root, [n]⟩ := by
  obtain ⟨c, t, ht⟩ : ∃ c t, n.text = c :: t := List.exists_cons_of_ne_nil n.ne_nil
  have hc : c ≠ '/' := by
    rintro rfl
    exact n.slash_not_mem (by simp [ht])
  have hanchor : anchorOf ('/' :: n.text) = .root := by
    rw [ht]
    unfold anchorOf
    split <;> simp_all
  have hnames : Text.splitOn '/' ('/' :: n.text) = [[], n.text] := by
    rw [Text.splitOn, if_pos rfl, Text.splitOn_of_not_mem n.slash_not_mem]
  have hempty : Name.ofText? [] = none := rfl
  rw [parse, hanchor, hnames]
  simp [hempty]

/-- From every directory a name below the root leads there. -/
theorem target_root {n : Name} (hn : n ≠ Name.up) (directory : Path) :
    target directory ('/' :: n.text) = ⟨.root, [n]⟩ := by
  have hnormal : normal ⟨.root, [n]⟩ = ⟨.root, [n]⟩ := by
    simp [normal, walk, Trail.push, hn]
  rw [target, parse_root, join_of_anchored rfl, hnormal]

end Path

end ShaderInclude
