import Mathlib.Data.List.Perm.Basic
import ShaderInclude.Proofs.Resolution.Call
import ShaderInclude.Rebuild.Staleness

/-!
# Artifacts that are up to date

An artifact is not rebuilt if it exists and neither its root nor a dependency is missing or was
modified after it (`Staleness.isOutdated_eq_false_iff`). So the dependencies have to cover all that
a build has read: a load that succeeds reads its root and what its module depends on, and nothing
else (`Loads.mem_dependencies_of_read`).

The main statement is `loadFromPath_eq_of_upToDate`. If every path that a build has read and that
reads differently by now shows it, by its absence or its time of modification, then an artifact that
is not out of date is the one that a rebuild would give.
-/

namespace ShaderInclude

namespace Staleness

variable {t : FileTree} {built : Int} {root artifact p : Path} {dependencies paths : List Path}

theorem modified?_eq_some_iff {time : Int} :
    modified? t p = .ok (some time) ↔ t.modified p = .ok time := by
  unfold modified?
  split <;> simp_all

/-- No path is newer exactly if all of them exist and none was modified later. -/
theorem anyNewer_eq_false_iff :
    anyNewer t built paths = .ok false ↔
      ∀ q ∈ paths, ∃ time, t.modified q = .ok time ∧ time ≤ built := by
  induction paths with
  | nil => simp [anyNewer]
  | cons p paths ih =>
    rw [List.forall_mem_cons, ← ih]
    simp only [anyNewer, ← modified?_eq_some_iff]
    rcases modified? t p with f | _ | time
    · simp
    · simp
    · by_cases hlt : built < time
      · simp [hlt, Int.not_le.mpr hlt]
      · simp [hlt, Int.not_lt.mp hlt]

/-- **An artifact is up to date** exactly if it exists, and its root and all dependencies exist and
were not modified after it. -/
theorem isOutdated_eq_false_iff :
    isOutdated t root dependencies artifact = .ok false ↔
      ∃ built, t.modified artifact = .ok built ∧
        ∀ q ∈ root :: dependencies, ∃ time, t.modified q = .ok time ∧ time ≤ built := by
  unfold isOutdated
  simp only [← modified?_eq_some_iff (p := artifact)]
  rcases modified? t artifact with f | _ | built
  · simp
  · simp
  · simp [anyNewer_eq_false_iff]

end Staleness

namespace FileTree

/-- Loads the sources of the tree. -/
def loader (t : FileTree) (encoding : Except EncodingError Encoding)
    (validator : Option Validator) (limit : Nat) : Loader :=
  ⟨t.readSource encoding, validator, limit⟩

/-- The path is not there, or was modified after the artifact. -/
def Outdates (t : FileTree) (p artifact : Path) : Prop :=
  (∀ time, t.modified p ≠ .ok time) ∨
    ∃ built time, t.modified artifact = .ok built ∧ t.modified p = .ok time ∧ built < time

end FileTree

/-- Nothing outdates an artifact that is up to date. -/
theorem Staleness.not_outdates {t : FileTree} {root artifact q : Path} {dependencies : List Path}
    (h : isOutdated t root dependencies artifact = .ok false) (hq : q ∈ root :: dependencies) :
    ¬ t.Outdates q artifact := by
  obtain ⟨built, hartifact, hpaths⟩ := isOutdated_eq_false_iff.mp h
  obtain ⟨time, htime, hle⟩ := hpaths q hq
  rintro (hmissing | ⟨built', time', hartifact', htime', hlt⟩)
  · exact hmissing time htime
  · obtain rfl := Except.ok.inj (hartifact.symm.trans hartifact')
    obtain rfl := Except.ok.inj (htime.symm.trans htime')
    exact Int.not_lt.mpr hle hlt

/-- A load that succeeds ends in the same way with every reader that agrees on its root and on what
its module depends on. -/
theorem Loader.loadFromPath_congr {l l' : Loader} {root : Path} {m : Module} {c : Cache}
    (h : (l.loadFromPath root ⟨c, []⟩).1 = .ok m)
    (hvalidator : l'.validator = l.validator) (hlimit : l'.limit = l.limit)
    (hreader : ∀ q ∈ root.normal :: m.dependencies, l'.reader q = l.reader q) :
    (l'.loadFromPath root ⟨c, []⟩).1 = .ok m := by
  have hloads := loads_loadCanonical l root.normal none ⟨c, []⟩
  rw [show (l.loadCanonical root.normal none ⟨c, []⟩).1 = .ok m from h] at hloads
  have hreads : ∀ q, .read q ∈ (l.loadCanonical root.normal none ⟨c, []⟩).2.events →
      l'.reader q = l.reader q := by
    intro q hq
    obtain ⟨-, rfl⟩ | hmem := hloads.mem_dependencies_of_read hq
    · exact hreader _ List.mem_cons_self
    · exact hreader q (List.mem_cons_of_mem _ hmem)
  have hrefusal : ∀ code, l'.refusal? code = l.refusal? code := fun code => by
    rw [refusal?, refusal?, hvalidator]
  obtain ⟨s', hloads', -⟩ := hloads.congr hlimit hreads hrefusal
  rw [loadFromPath, hloads'.loadCanonical_eq]

/-- **An artifact that is up to date is what a rebuild would give.** Let a root be built from a file
tree, and let another tree be given in which each path that the build depends on, if it reads
differently, is missing or newer than the artifact. If the artifact is not out of date there, in
whichever order the dependencies are gone through, then building the root again gives the same
module: the same code and the same dependencies. -/
theorem loadFromPath_eq_of_upToDate (encoding : Except EncodingError Encoding)
    (validator : Option Validator) (limit : Nat) (before after : FileTree) (root artifact : Path)
    (m : Module) (dependencies : List Path) (hroot : root.IsCanonical)
    (hbuilt : ((before.loader encoding validator limit).loadFromPath root .initial).1 = .ok m)
    (hdependencies : dependencies.Perm m.dependencies)
    (hshown : ∀ q ∈ root :: m.dependencies,
      after.readSource encoding q ≠ before.readSource encoding q → after.Outdates q artifact)
    (hfresh : Staleness.isOutdated after root dependencies artifact = .ok false) :
    ((after.loader encoding validator limit).loadFromPath root .initial).1 = .ok m := by
  refine Loader.loadFromPath_congr hbuilt rfl rfl fun q hq => ?_
  rw [hroot] at hq
  have hchecked : q ∈ root :: dependencies := ((hdependencies.cons root).mem_iff).mpr hq
  by_cases hsame : after.readSource encoding q = before.readSource encoding q
  · exact hsame
  · exact absurd (hshown q hq hsame) (Staleness.not_outdates hfresh hchecked)

/-- A root `a` includes `b`, and `b` includes `c`; beside them are a file `d` and an artifact. -/
def chainTree (touched : Int) (other : String) : FileTree :=
  (FileTree.ofWorkingDirectory [])
    |>.add ["a".toList] (.file (Utf8.encode "& include 'b';".toList) 1 none)
    |>.add ["b".toList] (.file (Utf8.encode "& include 'c';".toList) touched none)
    |>.add ["c".toList] (.file (Utf8.encode "C".toList) 3 none)
    |>.add ["d".toList] (.file (Utf8.encode other.toList) 9 none)
    |>.add ["out".toList] (.file [] 5 none)

/-- After the build a dependency was touched, at the time of the artifact, and a file was changed of
which the root knows nothing: there is nothing to rebuild. -/
theorem loadFromPath_eq_of_upToDate_unrelated :
    let a := Path.parse "a".toList
    let b := Path.parse "b".toList
    let c := Path.parse "c".toList
    let d := Path.parse "d".toList
    let out := Path.parse "out".toList
    let before := chainTree 2 "D"
    let after := chainTree 5 "E"
    let load := fun (t : FileTree) =>
      ((t.loader (.ok .utf8) none Loader.defaultLimit).loadFromPath a .initial).1
    let m : Module := { Module.unresolved "& include 'b';".toList with
      code := "C".toList, dependencies := [b, c] }
    load before = .ok m ∧
      after.readSource (.ok .utf8) d ≠ before.readSource (.ok .utf8) d ∧
      Staleness.isOutdated after a [c, b] out = .ok false ∧ load after = .ok m := by
  intro a b c d out before after load m
  have hbuilt : load before = .ok m := by decide +kernel
  have hfresh : Staleness.isOutdated after a [c, b] out = .ok false := by decide +kernel
  have hsame : ∀ q ∈ a :: m.dependencies,
      after.readSource (.ok .utf8) q = before.readSource (.ok .utf8) q := by
    decide +kernel
  refine ⟨hbuilt, by decide +kernel, hfresh, ?_⟩
  exact loadFromPath_eq_of_upToDate (.ok .utf8) none Loader.defaultLimit before after a out m [c, b]
    rfl hbuilt (List.Perm.swap b c []) (fun q hq hne => absurd (hsame q hq) hne) hfresh

end ShaderInclude
