import ShaderInclude.Proofs.Resolution.Coherence
import ShaderInclude.Proofs.Resolution.ReadOnce
import ShaderInclude.Proofs.Resolution.SelfDependence

/-!
# Modules from supplied sources

A root may be loaded from a source that is supplied and that no reader knows. The cache does not
keep the source apart from the module, so the source lasts as long as the module does. While the
module is cached it is taken wherever its path is resolved, and the reader is not asked for it
(`Call.read_not_mem_of_cached`, `Loader.Reaches.get?_of_cached`).

A load takes away no module but those that include the root, and these only if it replaces a cached
module at the root by one from a supplied source (`Call.get?_after_iff`). So a supplied source is in
use exactly until some path of which its module is made is replaced in this way, and from then on
the stored source is (`supplied_source_in_use`, `supplied_source_lost`).
-/

namespace ShaderInclude

variable {reader : Reader} {limit : Nat} {referrer : Path} {ancestors trace : List Path}
  {task : Task} {s t s' : CacheState} {p q root directory : Path} {m m' : Module} {l : Loader}
  {c : Cache} {call : Call} {supplied : Option Text} {r : Except LoadError Module}

/-! ### Cached paths are not read -/

/-- What is cached when a task begins is cached wherever the task requests a path. -/
theorem Requests.retains (h : Requests reader limit referrer ancestors task s trace q t)
    (hp : s.cache.get? p = some m) : t.cache.get? p = some m := by
  induction h with
  | self => exact hp
  | nested _ _ _ _ _ ih => exact ih hp
  | first _ ih => exact ih hp
  | later htarget _ ih => exact ih (htarget.retains hp)

/-- What is cached when a load begins is cached wherever the load reaches a path. -/
theorem Loader.Reaches.get?_of_cached (h : l.Reaches root supplied s q t)
    (hp : s.cache.get? p = some m) : t.cache.get? p = some m := by
  cases h with
  | root => exact hp
  | included hrequest =>
    obtain ⟨directory, source, s₀, -, hsource, hrequest⟩ := hrequest
    exact hrequest.retains (hsource.cache_eq ▸ hp)

/-- **No call reads a cached path.** -/
theorem Call.read_not_mem_of_cached (l : Loader) (call : Call) (hp : c.get? p = some m) :
    .read p ∉ (call.after l c).events := by
  have hload : ∀ (q : Path) (supplied : Option Text),
      .read p ∉ (l.loadCanonical q.normal supplied ⟨c, []⟩).2.events := by
    intro q supplied hread
    obtain ⟨-, hreached, -⟩ := reads_exact l c q supplied
    obtain ⟨t, ht, hnone, -⟩ := hreached p (CacheState.mem_readPaths.mpr hread)
    exact nomatch hnone.symm.trans (ht.get?_of_cached hp)
  cases call with
  | load q source => exact hload q (some source)
  | loadFromPath q => exact hload q none
  | detach | clear => exact List.not_mem_nil

/-! ### How long a module stays cached -/

/-- **The call replaces a cached module**: it loads the path from a supplied source, and succeeds,
when the path is cached. -/
def Call.Replaces (l : Loader) (c : Cache) (call : Call) (q : Path) : Prop :=
  ∃ source m m', call.root? = some (q, some source) ∧ call.handedOut? l c = some (q, m) ∧
    c.get? q = some m'

/-- A commit takes the module of another path away only if it includes the root and the root
replaces a cached module. -/
theorem Loader.get?_committed_iff (hp : p ≠ root) :
    (committed root supplied m' s).cache.get? p = some m ↔
      s.cache.get? p = some m ∧
        (supplied.isSome = true → s.cache.has root = true → root ∉ m.dependencies) := by
  unfold committed
  rw [CacheState.cache_withCache, Cache.get?_store, if_neg (Ne.symm hp)]
  split
  case isTrue h =>
    obtain ⟨hsupplied, hhas⟩ := Bool.and_eq_true_iff.mp h
    simp [evict, Option.filter_eq_some_iff, hsupplied, hhas]
  case isFalse h =>
    refine (and_iff_left fun hsupplied hhas => ?_).symm
    exact absurd (Bool.and_eq_true_iff.mpr ⟨hsupplied, hhas⟩) h

/-- A load that succeeds takes away the modules that include its root, if it replaces a cached
one. -/
private theorem Loads.get?_iff (h : Loads l root supplied ⟨c, []⟩ (.ok m') s')
    (hp : c.get? p = some m) (hother : root = p → supplied = none) :
    s'.cache.get? p = some m ↔
      (supplied.isSome = true → c.has root = true → root ∉ m.dependencies) := by
  have hcommit : ∀ {directory : Path} {s₁ s₂ : CacheState},
      Rooted l root directory supplied ⟨c, []⟩ (.ok m') s₁ →
      (∀ q, s₂.cache.get? q = s₁.cache.get? q) →
      ((Loader.committed root supplied m' s₂).cache.get? p = some m ↔
        (supplied.isSome = true → c.has root = true → root ∉ m.dependencies)) := by
    intro directory s₁ s₂ hroot hsame
    by_cases hpr : p = root
    · -- the root is the cached path itself, and its module is taken from the cache
      subst hpr
      obtain rfl := hother rfl
      cases hroot with
      | cached _ hcached =>
        obtain rfl : m' = m := Option.some.inj (hcached.symm.trans hp)
        simp [Loader.committed]
      | resolved hsource =>
        cases hsource with
        | read hcached => cases hcached.symm.trans hp
    · have hhas : s₂.cache.has root = c.has root :=
        congrArg Option.isSome ((hsame root).trans hroot.get?_root)
      rw [Loader.get?_committed_iff hpr, hsame, hhas]
      exact and_iff_right (hroot.within p m hp)
  cases h with
  | marked _ hroot => exact hcommit hroot fun _ => rfl
  | passed _ hroot => exact hcommit hroot fun _ => rfl

/-- A load that fails takes nothing away. -/
private theorem Loads.get?_of_error {e : LoadError}
    (h : Loads l root supplied ⟨c, []⟩ (.error e) s') (hp : c.get? p = some m) :
    s'.cache.get? p = some m := by
  obtain rfl | ⟨directory, r₁, s₁, hroot, hcache, -⟩ := h.exists_rooted
  · exact hp
  · rw [hcache]
    exact hroot.within p m hp

/-- **What takes a module away.** Of a call that loads a root, and that does not replace the module
itself, a module stays cached if and only if the call replaces no path on which it depends. -/
theorem Call.get?_after_iff (hroot : call.root? = some (root, supplied))
    (hother : ∀ source, call.root? = some (p, some source) → call.handedOut? l c = none)
    (hp : c.get? p = some m) :
    (call.after l c).cache.get? p = some m ↔ ∀ q ∈ m.dependencies, ¬ call.Replaces l c q := by
  obtain ⟨r, hloads, hhanded⟩ := Call.exists_loads l c hroot
  cases r with
  | error e =>
    refine iff_of_true (hloads.get?_of_error hp) ?_
    rintro q - ⟨source, m₁, m₂, -, hhanded', -⟩
    exact nomatch hhanded.symm.trans hhanded'
  | ok m' =>
    have hhanded : call.handedOut? l c = some (root, m') := hhanded
    have hstored : root = p → supplied = none := by
      rintro rfl
      cases hsupplied : supplied with
      | none => rfl
      | some source =>
        exact nomatch (hother source (hsupplied ▸ hroot)).symm.trans hhanded
    rw [hloads.get?_iff hp hstored]
    constructor
    · rintro hkept q hq ⟨source, m₁, m₂, hroot', -, hcached⟩
      obtain ⟨rfl, rfl⟩ := Prod.mk.inj (Option.some.inj (hroot.symm.trans hroot'))
      exact hkept rfl (Cache.has_eq_true_iff.mpr ⟨m₂, hcached⟩) hq
    · intro hnone hsupplied hhas hmem
      obtain ⟨source, rfl⟩ := Option.isSome_iff_exists.mp hsupplied
      obtain ⟨m₂, hcached⟩ := Cache.has_eq_true_iff.mp hhas
      exact hnone root hmem ⟨source, m', m₂, hroot, hhanded, hcached⟩

/-! ### Along a run -/

/-- A module that was loaded from a supplied source keeps this source, and is cached. -/
theorem Call.source_of_load {source : Text}
    (h : (Call.load p source).handedOut? l c = some (p.normal, m)) :
    m.source = source ∧ ((Call.load p source).after l c).cache.get? p.normal = some m := by
  have hroot : (Call.load p source).root? = some (p.normal, some source) := rfl
  obtain ⟨r, hloads, hhanded⟩ := Call.exists_loads l c hroot
  rw [h] at hhanded
  cases r with
  | error => cases hhanded
  | ok m' =>
    cases hhanded
    refine ⟨?_, hloads.get?_of_ok⟩
    obtain ⟨hfails, -⟩ | ⟨directory, r₀, s₁, -, hbody, -, hsettles⟩ := hloads.exists_body
    · cases hfails
    · cases hsettles with
      | passed =>
        have hstart : CacheState.Sound ⟨c, []⟩ l.reader c :=
          fun q m hq hnew => nomatch hq.symm.trans hnew
        exact Cache.source_of_assemble ((hbody.sound hstart).2 m rfl)

/-- What is handed out for a stored root that is cached is the cached module. -/
theorem Call.eq_of_handedOut (hroot : call.root? = some (p, none))
    (hhanded : call.handedOut? l c = some (p, m')) (hp : c.get? p = some m) : m' = m := by
  have hnever : ∀ q source, call.root? ≠ some (q, some source) := by
    intro q source h
    rw [hroot] at h
    cases h
  have hafter : (call.after l c).cache.get? p = some m := by
    refine (Call.get?_after_iff hroot (fun source h => absurd h (hnever p source)) hp).mpr ?_
    rintro q - ⟨source, -, -, h, -⟩
    exact hnever q source h
  obtain h | h := Call.cached_of_handedOut hhanded
  · exact Option.some.inj (h.symm.trans hafter)
  · exact Option.some.inj (h.symm.trans hp)

/-- **A supplied source is in use until it is evicted.** Let a root be loaded from a supplied source
with success, and let only loads follow, none of which supplies a source of the path again with
success. The module has the supplied source. It stays cached as long as none of the loads replaces a
path on which the module depends, and not longer. As long as it does, whatever root a call loads,
* the call does not read the path,
* wherever the call reaches the path, it finds the module of the supplied source, and
* if the path itself is loaded as a stored root, nothing but this module is handed out. -/
theorem supplied_source_in_use (before after : List (Loader × Call)) (l : Loader) (p : Path)
    (source : Text) (m : Module)
    (hload : (Call.load p source).handedOut? l (cacheAfter before) = some (p.normal, m))
    (hloads : ∀ u ∈ after, ∃ root supplied, u.2.root? = some (root, supplied))
    (hlast : ∀ mid l' call, mid ++ [(l', call)] <+: after →
      ∀ source', call.root? = some (p.normal, some source') →
        call.handedOut? l' (cacheAfter (before ++ (l, .load p source) :: mid)) = none) :
    let c := fun mid => cacheAfter (before ++ (l, .load p source) :: mid)
    m.source = source ∧
      ((∀ mid, mid <+: after → (c mid).get? p.normal = some m) ↔
        ∀ mid l' call, mid ++ [(l', call)] <+: after →
          ∀ q ∈ m.dependencies, ¬ call.Replaces l' (c mid) q) ∧
      ∀ mid, mid <+: after → (c mid).get? p.normal = some m →
        ∀ (l' : Loader) (call : Call) (root : Path) (supplied : Option Text),
          call.root? = some (root, supplied) →
          Event.read p.normal ∉ (call.after l' (c mid)).events ∧
          (∀ t, l'.Reaches root supplied ⟨c mid, []⟩ p.normal t →
            t.cache.get? p.normal = some m) ∧
          (call.root? = some (p.normal, none) → ∀ m',
            call.handedOut? l' (c mid) = some (p.normal, m') → m' = m) := by
  intro c
  obtain ⟨hsource, hcached⟩ := Call.source_of_load hload
  have hloaded : c [] = ((Call.load p source).after l (cacheAfter before)).cache :=
    cacheAfter_concat before (l, .load p source)
  have hconcat : ∀ mid u, c (mid ++ [u]) = (u.2.after u.1 (c mid)).cache := by
    intro mid u
    rw [← cacheAfter_concat, List.append_assoc, List.cons_append]
  have hstep : ∀ mid l' call, mid ++ [(l', call)] <+: after → (c mid).get? p.normal = some m →
      ((c (mid ++ [(l', call)])).get? p.normal = some m ↔
        ∀ q ∈ m.dependencies, ¬ call.Replaces l' (c mid) q) := by
    intro mid l' call hmid hp
    obtain ⟨root, supplied, hroot⟩ := hloads (l', call) (hmid.subset (by simp))
    rw [hconcat]
    exact Call.get?_after_iff hroot (hlast mid l' call hmid) hp
  refine ⟨hsource, ⟨fun h mid l' call hmid => ?_, fun h mid => ?_⟩, ?_⟩
  · exact (hstep mid l' call hmid (h mid ((List.prefix_append _ _).trans hmid))).mp (h _ hmid)
  · induction mid using List.reverseRecOn with
    | nil => exact fun _ => hloaded ▸ hcached
    | append_singleton mid u ih =>
      intro hmid
      have hp := ih ((List.prefix_append mid [u]).trans hmid)
      exact (hstep mid u.1 u.2 hmid hp).mpr (h mid u.1 u.2 hmid)
  · intro mid _ hp l' call root supplied hroot
    exact ⟨call.read_not_mem_of_cached l' hp, fun t ht => ht.get?_of_cached hp,
      fun hroot m' hm' => Call.eq_of_handedOut hroot hm' hp⟩

/-- A module that ends with the text of another one, and an includer of it. -/
def layeredTable : OrderedMap Path Text :=
  .ofList [(.parse "x".toList, "& include 'a';X".toList), (.parse "a".toList, "A0".toList),
    (.parse "b".toList, "B0".toList)]

/-- A supplied source that includes another module is in use after an includer of it was loaded and
replaced. -/
theorem supplied_source_in_use_included :
    let a := Path.parse "a".toList
    let x := Path.parse "x".toList
    let l : Loader := ⟨.ofTable layeredTable, none, Loader.defaultLimit⟩
    let source := "& include 'b';A1".toList
    let c := cacheAfter [(l, .load a source), (l, .loadFromPath x), (l, .load x "X1".toList)]
    ∃ m : Module, (Call.load a source).handedOut? l .empty = some (a, m) ∧ m.source = source ∧
      c.get? a = some m ∧ Event.read a ∉ ((Call.loadFromPath a).after l c).events := by
  intro a x l source c
  let after : List (Loader × Call) := [(l, .loadFromPath x), (l, .load x "X1".toList)]
  let m : Module := ⟨source, [⟨.line, ['b'], 0, 14⟩], "B0A1".toList, [.parse "b".toList]⟩
  have hload : (Call.load a source).handedOut? l (cacheAfter []) = some (a.normal, m) := by
    decide +kernel
  have hx : ∀ u ∈ after, ∃ supplied, u.2.root? = some (x, supplied) := by
    rintro u hu
    obtain rfl | rfl : u = (l, .loadFromPath x) ∨ u = (l, .load x "X1".toList) := by
      simpa [after] using hu
    · exact ⟨none, rfl⟩
    · exact ⟨some "X1".toList, rfl⟩
  have hother : ∀ mid l' call, mid ++ [(l', call)] <+: after →
      ∀ source', call.root? = some (a.normal, some source') →
        call.handedOut? l' (cacheAfter ([] ++ (l, .load a source) :: mid)) = none := by
    intro mid l' call hmid source' hroot
    obtain ⟨supplied, hroot'⟩ := hx (l', call) (hmid.subset (by simp))
    obtain ⟨hax, -⟩ := Prod.mk.inj (Option.some.inj (hroot.symm.trans hroot'))
    exact absurd hax (show a.normal ≠ x by decide +kernel)
  obtain ⟨hsource, -, huse⟩ := supplied_source_in_use [] after l a source m hload
    (fun u hu => ⟨x, hx u hu⟩) hother
  have hc : c.get? a = some m := by decide +kernel
  exact ⟨m, hload, hsource, hc, (huse _ List.prefix_rfl hc l (.loadFromPath a) a none rfl).1⟩

/-- The supplied source is lost when a module that it includes is replaced: the path is read when it
is loaded again, although no other source of it was supplied. -/
theorem supplied_source_lost :
    let a := Path.parse "a".toList
    let b := Path.parse "b".toList
    let l : Loader := ⟨.ofTable layeredTable, none, Loader.defaultLimit⟩
    let source := "& include 'b';A1".toList
    let c := cacheAfter [(l, .load a source), (l, .load b "B1".toList)]
    ((Call.load a source).handedOut? l .empty).isSome = true ∧
      Event.read a ∈ ((Call.loadFromPath a).after l c).events ∧
      (Call.loadFromPath a).handedOut? l c = some (a, .raw "A0".toList) := by
  decide +kernel

end ShaderInclude
