import ShaderInclude.Proofs.Path.Joining

/-!
# Paths that only descend

A relative path without `..` leads down from whatever directory it is joined to. Joined to a
canonical path it is canonical, nothing of the directory is lost, and different paths stay different
(`Descends.join_isCanonical`, `Descends.join_inj`).

The main statement is `normal_join`: if a relative path is normalised to one that only descends, it
does not climb out on its way either, and then it makes no difference whether it is normalised
before it is joined to a canonical directory or after. So the targets of directives may be computed
as if the directory were not there (`target_join`).
-/

namespace ShaderInclude

namespace Path

/-- The path is relative and has no `..`. -/
structure Descends (p : Path) : Prop where
  relative : p.anchor = .relative
  up_not_mem : Name.up ∉ p.names

instance (p : Path) : Decidable p.Descends :=
  decidable_of_iff (p.anchor = .relative ∧ Name.up ∉ p.names)
    ⟨fun h => ⟨h.1, h.2⟩, fun h => ⟨h.relative, h.up_not_mem⟩⟩

variable {d p q x directory : Path}

/-! ### Joining -/

theorem Descends.join_eq (h : p.Descends) (d : Path) :
    d.join p = ⟨d.anchor, d.names ++ p.names⟩ := by
  simp [join, isAnchored, h.relative]

/-- Different paths lead to different places in a directory. -/
theorem Descends.join_inj (hp : p.Descends) (hq : q.Descends) : d.join p = d.join q ↔ p = q := by
  refine ⟨fun h => ?_, fun h => h ▸ rfl⟩
  rw [hp.join_eq, hq.join_eq, mk.injEq, List.append_cancel_left_eq] at h
  obtain ⟨anchor, names⟩ := p
  obtain ⟨anchor', names'⟩ := q
  obtain rfl : anchor = .relative := hp.relative
  obtain rfl : anchor' = .relative := hq.relative
  obtain rfl : names = names' := h.2
  rfl

theorem Descends.isCanonical (h : p.Descends) : p.IsCanonical := by
  have hclimbs : Climbs p.isAnchored 0 p.names := ⟨h.up_not_mem, fun _ => rfl⟩
  exact isCanonical_of_climbs hclimbs rfl

theorem Descends.join_isCanonical (hp : p.Descends) (hd : d.IsCanonical) :
    (d.join p).IsCanonical := by
  obtain ⟨k, reals, -, hclimbs, hnames⟩ := exists_normal_names d
  rw [hd] at hnames
  have hbelow : Climbs d.isAnchored k (reals ++ p.names) := by
    refine ⟨fun hup => ?_, hclimbs.eq_zero⟩
    exact (List.mem_append.mp hup).elim hclimbs.up_not_mem hp.up_not_mem
  rw [hp.join_eq]
  exact isCanonical_of_climbs (p := ⟨d.anchor, d.names ++ p.names⟩) hbelow
    (by rw [hnames, List.append_assoc])

/-- **Normalising commutes with joining to a canonical directory**, if what is joined does not climb
out of it. -/
theorem normal_join (hd : d.IsCanonical) (hx : x.normal.Descends) :
    (d.join x).normal = d.join x.normal :=
  (normal_join_normal d x).symm.trans (hx.join_isCanonical hd)

/-- The directory of a path that descends does so too. -/
theorem Descends.of_directory? (hp : p.Descends) (hdir : p.directory? = some directory) :
    directory.Descends := by
  obtain ⟨rfl, -⟩ := directory?_eq_some_iff.mp hdir
  exact ⟨hp.relative, fun hup => hp.up_not_mem (List.dropLast_subset _ hup)⟩

/-- Where a path is joined to another one, so is its directory. -/
theorem Descends.directory?_join (hp : p.Descends) (hdir : p.directory? = some directory)
    (d : Path) : (d.join p).directory? = some (d.join directory) := by
  have hne : p.names ≠ [] := by
    rintro hnil
    simp [directory?, hnil] at hdir
  rw [hp.join_eq, (hp.of_directory? hdir).join_eq]
  obtain ⟨rfl, -⟩ := directory?_eq_some_iff.mp hdir
  simp [directory?, parent, hne, List.dropLast_append_of_ne_nil hne]

/-- **The target of a directive** is found in the directory to which the including module is moved,
if it is below the place where the module was. -/
theorem target_join {written : Text} (hd : d.IsCanonical)
    (htarget : (target directory written).Descends) :
    target (d.join directory) written = d.join (target directory written) := by
  rw [target, join_assoc]
  exact normal_join hd htarget

end Path

end ShaderInclude
