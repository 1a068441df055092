import ShaderInclude.Proofs.Resolution.Origins
import ShaderInclude.Proofs.Resolution.Supplied

/-!
# Modules that go when another one is replaced

When a supplied source replaces a cached module, the cached modules with its path among their
dependencies go. This takes a single pass over the cache, also where a module includes the replaced
one through others, and where some of these are no longer cached: the dependencies of a module are
all paths of the tree from which it was built.

The main statement is `replacement_evicts_includers`: after the replacement the cache has what it
had when the new source was resolved, without these modules, and the replaced path is nowhere in a
tree from which another module was built.
-/

namespace ShaderInclude

variable {l : Loader} {p q : Path} {m x : Module} {s : CacheState} {source : Text}

/-- The commit of a root that replaces a cached module takes the marks of the modules that go. -/
theorem Loader.mem_accepted_committed (hcached : s.cache.has p = true) :
    q ∈ (committed p (some source) m s).cache.accepted ↔
      q ∈ s.cache.accepted ∧ ∀ x, s.cache.get? q = some x → p ∉ x.dependencies := by
  simp [committed, evict, hcached]

/-- **A replacement evicts the modules that include what is replaced, and no others.** Whatever
calls came before, let a path be loaded from a supplied source with success when it is cached. Then
* the path has the new module, with this source,
* the other cached modules are, unchanged, those that were cached when the new source had been
  resolved and do not depend on the path,
* each of them was built from one tree, which explains it, and in which the path is nowhere, and
* none of those that are gone is marked. -/
theorem replacement_evicts_includers (uses : List (Loader × Call)) (l : Loader) (p : Path)
    (source : Text) (m : Module) (hcached : (cacheAfter uses).has p.normal = true)
    (hload : (l.load p source ⟨cacheAfter uses, []⟩).1 = .ok m) :
    let call := Call.load p source
    let resolved := call.resolvedCache l (cacheAfter uses)
    let after := cacheAfter (uses ++ [(l, call)])
    (m.source = source ∧ after.get? p.normal = some m) ∧
      (∀ q, q ≠ p.normal → ∀ x, after.get? q = some x ↔
        resolved.get? q = some x ∧ p.normal ∉ x.dependencies) ∧
      (∀ q, q ≠ p.normal → ∀ x, after.get? q = some x →
        ∃ t, (∀ t', originsAfter (uses ++ [(l, call)]) q t' ↔ t' = t) ∧ t.Explains x ∧
          t.path ≠ p.normal ∧ p.normal ∉ t.descendants) ∧
      ∀ q, q ≠ p.normal → ∀ x, resolved.get? q = some x → after.get? q = none →
        q ∉ after.accepted := by
  intro call resolved after
  have hloads := loads_loadCanonical l p.normal (some source) ⟨cacheAfter uses, []⟩
  have hok : (l.loadCanonical p.normal (some source) ⟨cacheAfter uses, []⟩).1 = .ok m := hload
  rw [hok] at hloads
  obtain ⟨directory, s₁, s₂, hdir, hroot, hsame, -, hcommit⟩ := hloads.exists_committed
  have hresolved : resolved = s₁.cache := congrArg CacheState.cache (hroot.resolvedState_eq hdir)
  have hafter : after = (Loader.committed p.normal (some source) m s₂).cache := by
    rw [← hcommit]
    exact cacheAfter_concat uses (l, call)
  have hhas : s₂.cache.has p.normal = true := by
    rw [← hcached]
    exact congrArg Option.isSome ((hsame _).trans hroot.get?_root)
  have hkept : ∀ q, q ≠ p.normal → ∀ x, after.get? q = some x ↔
      resolved.get? q = some x ∧ p.normal ∉ x.dependencies := by
    intro q hq x
    rw [hafter, hresolved, Loader.get?_committed_iff hq, hsame]
    simp [hhas]
  refine ⟨?_, hkept, fun q hq x hx => ?_, fun q hq x hx hgone hmark => ?_⟩
  · have hhanded : call.handedOut? l (cacheAfter uses) = some (p.normal, m) := by
      simp [call, Call.handedOut?, hload, Except.toOption]
    rw [show after = _ from cacheAfter_concat uses (l, call)]
    exact Call.source_of_load hhanded
  · obtain ⟨t, htree, hpath, hexplains⟩ := accounts_originsAfter (uses ++ [(l, call)]) q x hx
    refine ⟨t, htree, hexplains, fun h => hq (hpath.symm.trans h), fun hmem => ?_⟩
    exact ((hkept q hq x).mp hx).2 ((hexplains.mem_dependencies _).mpr hmem)
  · rw [hafter, Loader.mem_accepted_committed hhas, hsame] at hmark
    rw [hresolved] at hx
    have hfree := hmark.2 x hx
    cases hgone.symm.trans ((hkept q hq x).mpr ⟨hresolved ▸ hx, hfree⟩)

/-- A module includes another one, which includes a third one, and the one between them has been
taken out. When the third one is replaced, the first one goes although nothing in the cache connects
the two any more, and a module that includes neither stays. -/
theorem replacement_evicts_includers_detached :
    let x := Path.parse "x".toList
    let y := Path.parse "y".toList
    let z := Path.parse "z".toList
    let other := Path.parse "other".toList
    let l : Loader := ⟨.ofTable (.ofList [(x, "& include 'y';".toList),
      (y, "& include 'z';".toList), (z, "Z".toList), (other, "O".toList)]), none,
      Loader.defaultLimit⟩
    let uses := [(l, .loadFromPath x), (l, .loadFromPath other), (l, .detach y)]
    let after := cacheAfter (uses ++ [(l, .load z "new".toList)])
    ((cacheAfter uses).paths = [z, x, other] ∧ (cacheAfter uses).accepted = [other, x]) ∧
      after.get? z = some (.raw "new".toList) ∧ after.get? x = none ∧ x ∉ after.accepted ∧
      after.get? other = some (.raw "O".toList) ∧
      ∃ t, originsAfter (uses ++ [(l, .load z "new".toList)]) other t ∧ z ∉ t.descendants := by
  intro x y z other l uses after
  obtain ⟨⟨-, hnew⟩, hkept, htrees, hmarks⟩ := replacement_evicts_includers uses l z "new".toList
    (.raw "new".toList) (by decide +kernel) (by decide +kernel)
  have hother : after.get? other = some (.raw "O".toList) :=
    (hkept other (by decide +kernel) _).mpr (by decide +kernel)
  let m : Module := ⟨"& include 'y';".toList, [⟨.line, ['y'], 0, 14⟩], "Z".toList, [y, z]⟩
  have hresolved :
      (Call.resolvedCache l (cacheAfter uses) (.load z "new".toList)).get? x = some m := by
    decide +kernel
  have hgone : after.get? x = none := by
    refine Option.eq_none_iff_forall_ne_some.mpr fun m' hm' => ?_
    obtain ⟨hm, hfree⟩ := (hkept x (by decide +kernel) m').mp hm'
    obtain rfl := Option.some.inj (hresolved.symm.trans hm)
    exact hfree (by decide +kernel)
  obtain ⟨t, htree, -, -, hfree⟩ := htrees other (by decide +kernel) _ hother
  exact ⟨by decide +kernel, hnew, hgone, hmarks x (by decide +kernel) m hresolved hgone, hother, t,
    (htree t).mpr rfl, hfree⟩

end ShaderInclude
