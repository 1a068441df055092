import ShaderInclude.Module.Error
import ShaderInclude.Proofs.Directive.Lone
import ShaderInclude.Proofs.Path.Canonical
import ShaderInclude.Storage.FileTree

/-!
# Obstacles

An obstacle is a path whose name is made of null characters. No file has such a path, so it can be
read only while a document is open for it (`FileTree.read_obstacle`). There are more obstacles than
any list has paths, and each gives a message of its own (`exists_obstacle`). An obstacle can be
included from everywhere, by a source that does nothing else (`target_obstacle`).
-/

namespace ShaderInclude

/-- The name that is made of a number of null characters, at least one. -/
def Name.nulls (k : Nat) : Name where
  text := List.replicate (k + 1) '\x00'
  ne_nil := by simp
  slash_not_mem := by simp [List.mem_replicate]
  ne_dot := by
    intro h
    exact absurd (List.eq_of_mem_replicate (h ▸ List.mem_singleton.mpr rfl)) (by decide)

/-- The path below the root whose name is made of null characters. -/
def obstacle (k : Nat) : Path := ⟨.root, [Name.nulls k]⟩

/-- The text of an include that leads to an obstacle. -/
def obstacleText (k : Nat) : Text := '/' :: (Name.nulls k).text

theorem target_obstacle (k : Nat) (directory : Path) :
    Path.target directory (obstacleText k) = obstacle k := by
  refine Path.target_root ?_ directory
  intro h
  have hdot : '.' ∈ (Name.nulls k).text := by simp [h, Name.up]
  exact absurd (List.eq_of_mem_replicate hdot) (by decide)

theorem scan_obstacle (k : Nat) :
    Directive.scan (Directive.lone (obstacleText k)) =
      [⟨.line, obstacleText k, 0, (Directive.lone (obstacleText k)).length⟩] := by
  refine Directive.scan_lone (List.cons_ne_nil _ _) fun c hc => ?_
  rcases List.mem_cons.mp hc with rfl | hc
  · exact ⟨rfl, rfl⟩
  · rw [List.eq_of_mem_replicate hc]
    exact ⟨rfl, rfl⟩

/-- No file has the path of an obstacle. -/
theorem FileTree.read_obstacle (t : FileTree) (k : Nat) :
    t.read (obstacle k) = .error .nullCharacter := by
  have hnull : FileTree.hasNull (obstacle k) = true := by
    simp [FileTree.hasNull, obstacle, Name.nulls, List.replicate_succ]
  simp only [FileTree.read, FileTree.node, FileTree.locate, hnull, if_true]

/-- The failure to read an obstacle. -/
def obstacleError (k : Nat) : ModuleError := .unreadable (obstacle k) (.access .nullCharacter)

theorem render_obstacle (k : Nat) : (obstacle k).render = obstacleText k := by
  simp [Path.render, obstacle, obstacleText, Path.joinNames, Anchor.text]

/-- The message of an obstacle tells its path. -/
theorem message_obstacle (k : Nat) :
    (obstacleError k).message =
      "embedded null byte".toList ++ ' ' :: '\'' :: obstacleText k ++ ['\''] := by
  rw [← render_obstacle]
  rfl

/-- Texts of a list are shorter than some number. -/
private theorem exists_length_lt (texts : List Text) : ∃ k, ∀ t ∈ texts, t.length < k := by
  induction texts with
  | nil => exact ⟨0, nofun⟩
  | cons t texts ih =>
    obtain ⟨k, hk⟩ := ih
    refine ⟨k + t.length + 1, fun t' ht' => ?_⟩
    rcases List.mem_cons.mp ht' with rfl | ht'
    · omega
    · have := hk t' ht'
      omega

/-- **There is always another obstacle**, beside any paths and any messages. -/
theorem exists_obstacle (paths : List Path) (messages : List Text) :
    ∃ k, obstacle k ∉ paths ∧ (obstacleError k).message ∉ messages := by
  obtain ⟨k, hk⟩ := exists_length_lt (paths.map Path.render ++ messages)
  have hlength : (obstacleText k).length = k + 2 := by simp [obstacleText, Name.nulls]
  refine ⟨k, fun hmem => ?_, fun hmem => ?_⟩
  · have hshort := hk (obstacle k).render
      (List.mem_append_left _ (List.mem_map_of_mem hmem))
    rw [render_obstacle] at hshort
    omega
  · have hshort := hk _ (List.mem_append_right _ hmem)
    rw [message_obstacle, List.length_append, List.length_append, List.length_cons,
      List.length_cons] at hshort
    omega

end ShaderInclude
