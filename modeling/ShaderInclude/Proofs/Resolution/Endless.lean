import Mathlib.Data.List.Induction
import ShaderInclude.Proofs.Directive.Lone
import ShaderInclude.Proofs.Resolution.Derivation

/-!
# Endless chains of includes

A circle of includes is found when a path comes up that is being resolved. A chain that never comes
to the same path twice is none, and resolving it ends only when its modules are nested too deeply
(`EndlessChain.derives`).

There are finitely many files, but no end of paths to a file: the root is its own parent, so a
relative path may climb above it as often as it likes. A file that includes itself by such a path is
an endless chain (`FileTree.readSource_climb`, `target_climb`).
-/

namespace ShaderInclude

/-- **An endless chain of includes**: every path of it has one directive, which leads to the next,
and none comes up twice. -/
structure EndlessChain (reader : Reader) (chain : Nat → Path) : Prop where
  injective : Function.Injective chain
  leads : ∀ k, ∃ source directory d, reader (chain k) = .ok source ∧
    (chain k).directory? = some directory ∧ Directive.scan source = [d] ∧
    Path.target directory d.path = chain (k + 1)

/-- **An endless chain is nested too deeply** for every limit, wherever it is entered. -/
theorem EndlessChain.derives {reader : Reader} {chain : Nat → Path} {limit : Nat} {referrer : Path}
    {ancestors : List Path} {s : CacheState} (h : EndlessChain reader chain) (k : Nat)
    (htrace : ∀ i, k ≤ i → chain i ∉ referrer :: ancestors)
    (hcached : ∀ i, k ≤ i → s.cache.get? (chain i) = none) :
    ∃ s', Derives reader limit referrer ancestors (.path (chain k)) s
      (.error (.fault .nestingTooDeep)) s' := by
  induction limit generalizing k referrer ancestors s with
  | zero => exact ⟨s, .tooDeep⟩
  | succ limit ih =>
    obtain ⟨source, directory, d, hread, hdir, hscan, htarget⟩ := h.leads k
    have htrace' : ∀ i, k + 1 ≤ i → chain i ∉ chain k :: referrer :: ancestors := by
      intro i hi
      refine List.not_mem_cons_of_ne_of_not_mem (fun heq => ?_) (htrace i (by omega))
      have hik := h.injective heq
      omega
    obtain ⟨s', hnext⟩ := ih (s := s.requested (chain k)) (k + 1) htrace'
      fun i hi => hcached i (by omega)
    rw [← htarget] at hnext
    refine ⟨s', .failed (htrace k (Nat.le_refl k)) (hcached k (Nat.le_refl k)) hread hdir ?_⟩
    rw [Task.ofSource, hscan]
    exact .halted hnext

/-! ### A file that includes itself from above the root -/

/-- The name of the file. -/
def loopName : Name := ⟨"loop".toList, by decide, by decide, by decide⟩

/-- The path that climbs `k` times and then leads to the file. -/
def climb (k : Nat) : Path := ⟨.relative, List.replicate k Name.up ++ [loopName]⟩

/-- The source of the file: it includes the file of its name in the directory above. -/
def loopSource : Text := Directive.lone "../loop".toList

theorem climb_injective : Function.Injective climb := by
  intro i j h
  have hlength := congrArg (fun p : Path => p.names.length) h
  simpa [climb] using hlength

/-- A path that climbs has more than one name. -/
theorem climb_ne {q : Path} (hq : q.names.length = 1) (k : Nat) : climb (k + 1) ≠ q := by
  rintro rfl
  simp [climb] at hq

theorem scan_loopSource :
    Directive.scan loopSource = [⟨.line, "../loop".toList, 0, loopSource.length⟩] := by
  refine Directive.scan_lone (by decide) fun c hc => ?_
  have hplain : "../loop".toList.all
      (fun c => !Directive.isQuote c && !Directive.isAnchor c) = true := by decide
  simpa [Directive.IsPlain] using List.all_eq_true.mp hplain c hc

theorem directory?_climb (k : Nat) :
    (climb k).directory? = some ⟨.relative, List.replicate k Name.up⟩ := by
  simp [climb, Path.directory?, Path.parent]

/-- From wherever the file is found, its directive leads one directory further up. -/
theorem target_climb (k : Nat) :
    Path.target ⟨.relative, List.replicate k Name.up⟩ "../loop".toList = climb (k + 1) := by
  have hparse : Path.parse "../loop".toList = ⟨.relative, [Name.up, loopName]⟩ := by decide
  have hjoin : (⟨.relative, List.replicate k Name.up⟩ : Path).join (.parse "../loop".toList) =
      climb (k + 1) := by
    rw [hparse]
    simp [Path.join, Path.isAnchored, climb, List.replicate_succ']
  have hclimbs : Path.Climbs (climb (k + 1)).isAnchored (k + 1) [loopName] :=
    ⟨by decide, fun h => absurd h Bool.false_ne_true⟩
  rw [Path.target, hjoin]
  exact Path.isCanonical_of_climbs hclimbs rfl

/-- The file lies at the root, beside the working directory, which holds an empty file. -/
def loopTree : FileTree :=
  (FileTree.ofWorkingDirectory ["work".toList])
    |>.add [loopName.text] (.file (Utf8.encode loopSource) 0 none)
    |>.add ["work".toList, "part".toList] (.file [] 0 none)

/-- From the root up the root is reached again. -/
private theorem follow_ups (k : Nat) :
    loopTree.follow [] ((List.replicate k Name.up ++ [loopName]).map Name.text) =
      loopTree.follow [] [loopName.text] := by
  induction k with
  | zero => rfl
  | succ k ih =>
    have hup : loopTree.enter [] Name.up.text = .ok [] := by decide +kernel
    rw [List.replicate_succ, List.cons_append, List.map_cons, FileTree.follow, hup]
    exact ih

/-- To climb further out of the working directory changes nothing. -/
private theorem locate_climb (k : Nat) :
    loopTree.locate (climb (k + 1)) = loopTree.locate (climb 1) := by
  have hnull : ∀ k, FileTree.hasNull (climb k) = false := by
    intro k
    have hup : '\x00' ∉ Name.up.text := by decide
    have hloop : '\x00' ∉ loopName.text := by decide
    simp [FileTree.hasNull, climb, List.any_replicate, hup, hloop]
  have hout : loopTree.enter loopTree.workingDirectory Name.up.text = .ok [] := by decide +kernel
  have hfollow : ∀ k, loopTree.follow (loopTree.base (climb (k + 1)))
      ((climb (k + 1)).names.map Name.text) = loopTree.follow [] [loopName.text] := by
    intro k
    rw [show loopTree.base (climb (k + 1)) = loopTree.workingDirectory from rfl, climb,
      List.replicate_succ, List.cons_append, List.map_cons, FileTree.follow, hout]
    exact follow_ups k
  unfold FileTree.locate
  rw [hnull, hnull, hfollow k, hfollow 0]

/-- The file is read by every path that climbs out of the working directory. -/
theorem FileTree.readSource_climb (k : Nat) :
    loopTree.readSource (.ok .utf8) (climb (k + 1)) = .ok loopSource := by
  have hfirst : loopTree.readSource (.ok .utf8) (climb 1) = .ok loopSource := by decide +kernel
  unfold readSource read node at hfirst ⊢
  rw [locate_climb]
  exact hfirst

end ShaderInclude
