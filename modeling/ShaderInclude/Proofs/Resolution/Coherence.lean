import ShaderInclude.Proofs.Resolution.Failure
import ShaderInclude.Proofs.Resolution.IncludeTree

/-!
# Coherence of a cache

A cached module holds the text of what it includes, and the included modules are cached on their
own. A cache is coherent if the two agree: every cached module whose includes are all cached is its
source with the code that is cached for them in place of its directives.

A supplied source that replaces a cached module evicts the modules that include it. But a path that
is not cached may be the include of a cached module too, since it may have been taken out, or
evicted itself. When a call resolves such a path anew it evicts nothing, so the including module
keeps the text of an earlier version. `Cache.BringsBack` is this situation, and `coherent_iff` says
that it is the only danger: throughout a run the cache is coherent if and only if every module of
which a call brings an include back is up to date with what the call has brought.
`not_coherent_brought_back` has runs with one reader that leave the cache incoherent.
-/

namespace ShaderInclude

variable {reader : Reader} {c c' : Cache} {p q directory : Path} {ds : List Directive}
  {m m' x : Module}

/-! ### A module put together again -/

/-- The paths to which the directives of a module at a path lead. -/
def Module.targets (m : Module) (p : Path) : List Path := (Task.ofSource p.parent m.source).targets

/-- A module at a path put together again: its source with the modules that are cached by now in
place of its directives, if all of these are cached. -/
def Cache.rebuild? (c : Cache) (p : Path) (m : Module) : Option Module :=
  c.assemble p.parent (Directive.scan m.source).reverse (Module.raw m.source)

/-- **The module is up to date**: its code is what putting it together again gives, if this is
possible. -/
def Cache.Current (c : Cache) (p : Path) (m : Module) : Prop :=
  ∀ m', c.rebuild? p m = some m' → m.code = m'.code

instance (c : Cache) (p : Path) (m : Module) : Decidable (c.Current p m) :=
  inferInstanceAs (Decidable (∀ m' ∈ c.rebuild? p m, m.code = m'.code))

/-- **The cache is coherent**: every cached module is up to date. -/
def Cache.Coherent (c : Cache) : Prop := ∀ p m, c.get? p = some m → c.Current p m

theorem Cache.assemble_congr
    (h : ∀ d ∈ ds, c.get? (Path.target directory d.path) = c'.get? (Path.target directory d.path)) :
    c.assemble directory ds m = c'.assemble directory ds m := by
  induction ds generalizing m with
  | nil => rfl
  | cons d ds ih =>
    rw [assemble, assemble, h d List.mem_cons_self]
    simp only [ih fun d' hd' => h d' (List.mem_cons_of_mem d hd')]

/-- What is assembled is made of cached modules alone. -/
theorem Cache.exists_of_assemble (hm : c.assemble directory ds m = some m') {d : Directive}
    (hd : d ∈ ds) : ∃ included, c.get? (Path.target directory d.path) = some included := by
  induction ds generalizing m with
  | nil => cases hd
  | cons d' ds ih =>
    obtain ⟨included, htarget, hrest⟩ := Option.bind_eq_some_iff.mp hm
    rcases List.mem_cons.mp hd with rfl | hd
    · exact ⟨included, htarget⟩
    · exact ih hrest hd

/-- A module keeps its source while its directives are replaced. -/
theorem Cache.source_of_assemble (hm : c.assemble directory ds m = some m') :
    m'.source = m.source := by
  induction ds generalizing m with
  | nil =>
    cases hm
    rfl
  | cons d ds ih =>
    obtain ⟨included, -, hrest⟩ := Option.bind_eq_some_iff.mp hm
    have hsource := ih hrest
    exact hsource

/-- A module is put together again from its includes alone. -/
theorem Cache.rebuild?_congr (h : ∀ q ∈ m.targets p, c.get? q = c'.get? q) :
    c.rebuild? p m = c'.rebuild? p m := by
  refine assemble_congr fun d hd => h _ ?_
  exact List.mem_map.mpr ⟨d, hd, rfl⟩

/-- To put a module together again takes all its includes. -/
theorem Cache.exists_of_rebuild? (h : c.rebuild? p m = some m') (hq : q ∈ m.targets p) :
    ∃ included, c.get? q = some included := by
  obtain ⟨d, hd, rfl⟩ := List.mem_map.mp hq
  exact exists_of_assemble h hd

/-- A module stays up to date where its includes are missing or are cached as before. -/
theorem Cache.Current.of_agree (hm : c.Current p m)
    (h : ∀ q ∈ m.targets p, ∀ x, c'.get? q = some x → c.get? q = some x) : c'.Current p m := by
  intro m' hm'
  refine hm m' ?_
  rw [← hm']
  refine rebuild?_congr fun q hq => ?_
  obtain ⟨included, hcached⟩ := exists_of_rebuild? hm' hq
  rw [hcached, h q hq included hcached]

/-- A module that was assembled from a source is up to date with what it was assembled from. -/
theorem Cache.rebuild?_of_assemble {source : Text} (hdir : p.directory? = some directory)
    (hm : c.assemble directory (Directive.scan source).reverse (Module.raw source) = some m) :
    c.rebuild? p m = some m := by
  obtain ⟨rfl, -⟩ := Path.directory?_eq_some_iff.mp hdir
  have hsource : m.source = source := source_of_assemble hm
  rw [rebuild?, hsource, hm]

/-- A source with all its directives replaced is up to date with what is cached then. -/
theorem Derives.rebuild?_of_ok {limit : Nat} {referrer : Path} {ancestors : List Path}
    {source : Text} {s s' : CacheState} (hdir : p.directory? = some directory)
    (h : Derives reader limit referrer ancestors (.ofSource directory source) s (.ok m) s') :
    m.source = source ∧ s'.cache.rebuild? p m = some m := by
  have hstart : s.Sound reader s.cache := fun q m hq hnew => nomatch hq.symm.trans hnew
  have hm := (h.sound hstart).2 m rfl
  exact ⟨Cache.source_of_assemble hm, Cache.rebuild?_of_assemble hdir hm⟩

theorem Cache.Completed.rebuild? (h : c.Completed reader p m) : c.rebuild? p m = some m := by
  obtain ⟨source, directory, -, hdir, hm⟩ := h
  exact rebuild?_of_assemble hdir hm

theorem Cache.current_of_rebuild? (h : c.rebuild? p m = some m) : c.Current p m := by
  intro m' hm'
  rw [Option.some.inj (h.symm.trans hm')]

/-- A module depends on its includes. -/
theorem Module.Explained.targets_subset {provided : Path → Text → Prop}
    (h : m.Explained provided p) : m.targets p ⊆ m.dependencies := by
  obtain ⟨t, rfl, hfollows, hexplains⟩ := h
  intro q hq
  cases hfollows with
  | @node p directory source children _ _ hdir hpaths =>
    obtain ⟨rfl, -⟩ := Path.directory?_eq_some_iff.mp hdir
    rw [targets, hexplains.source_eq] at hq
    rw [hexplains.mem_dependencies, IncludeTree.descendants, IncludeTree.mem_pathsOf]
    have hchild : q ∈ children.map IncludeTree.path := by
      rw [hpaths]
      simpa [Task.targets, IncludeTree.source, IncludeTree.path] using hq
    obtain ⟨child, hmem, rfl⟩ := List.mem_map.mp hchild
    exact ⟨child, hmem, .inl rfl⟩

/-! ### Includes that are brought back -/

/-- **An include is brought back**: between two states a module stays cached, and one of its
includes is missing in the first state and cached in the second. -/
def Cache.BringsBack (c c' : Cache) (p : Path) (m : Module) : Prop :=
  c.get? p = some m ∧ c'.get? p = some m ∧
    ∃ q ∈ m.targets p, c.get? q = none ∧ ∃ m', c'.get? q = some m'

variable {l : Loader} {supplied : Option Text} {r : Except LoadError Module} {s₁ s' : CacheState}

/-- A module that was cached before its root, or is complete since, is up to date in every later
state that agrees about its includes, unless one of them is brought back. -/
private theorem Rooted.current_or_bringsBack (h : Rooted l p directory supplied ⟨c, []⟩ r s₁)
    (hc : c.Coherent) (hq : c'.get? q = some m) (hq₁ : s₁.cache.get? q = some m)
    (hagree : ∀ t ∈ m.targets q, ∀ x y, s₁.cache.get? t = some x → c'.get? t = some y → x = y) :
    c'.Current q m ∨ c.BringsBack c' q m := by
  cases hold : c.get? q with
  | none =>
    have hstart : CacheState.Sound ⟨c, []⟩ l.reader c :=
      fun q m hq hnew => nomatch hq.symm.trans hnew
    have hm := (h.sound hstart q m hq₁ hold).2.rebuild?
    refine .inl ((Cache.current_of_rebuild? hm).of_agree fun t ht y hy => ?_)
    obtain ⟨x, hx⟩ := Cache.exists_of_rebuild? hm ht
    rw [hx, hagree t ht x y hx hy]
  | some m₀ =>
    obtain rfl : m₀ = m := Option.some.inj ((h.within q m₀ hold).symm.trans hq₁)
    by_cases hback : c.BringsBack c' q m₀
    · exact .inr hback
    refine .inl ((hc q m₀ hold).of_agree fun t ht y hy => ?_)
    cases hx : c.get? t with
    | none => exact absurd ⟨hold, hq, t, ht, hx, y, hy⟩ hback
    | some x => rw [hagree t ht x y (h.within t x hx) hy]

/-- A root is up to date with what it leaves in the cache, and it does not include itself unless it
was cached. -/
private theorem Rooted.current_root (h : Rooted l p directory supplied ⟨c, []⟩ (.ok m) s₁)
    (hdir : p.directory? = some directory) (hc : c.Coherent) :
    s₁.cache.Current p m ∧ (p ∈ m.targets p → s₁.cache.get? p = some m) := by
  cases h with
  | cached _ hcached => exact ⟨hc p m hcached, fun _ => hcached⟩
  | resolved _ hbody =>
    obtain ⟨hsource, hm⟩ := hbody.rebuild?_of_ok hdir
    refine ⟨?_, fun hp => ?_⟩
    · exact (Cache.current_of_rebuild? hm).of_agree fun _ _ _ h => h
    · obtain ⟨rfl, -⟩ := Path.directory?_eq_some_iff.mp hdir
      rw [Module.targets, hsource] at hp
      exact absurd List.mem_cons_self (hbody.get?_of_mem_targets rfl hp).1

/-- A commit leaves no module that includes the root and was made of another version of it. -/
private theorem Rooted.eq_of_includes (h : Rooted l p directory supplied ⟨c, []⟩ (.ok m) s₁)
    {s₂ : CacheState} (hsame : ∀ q, s₂.cache.get? q = s₁.cache.get? q)
    (hq : (Loader.committed p supplied m s₂).cache.get? q = some x) (hqp : q ≠ p)
    (hp : p ∈ x.dependencies) (hold : s₁.cache.get? p = some m') : m' = m := by
  cases supplied with
  | none =>
    cases h with
    | cached _ hcached => exact Option.some.inj (hold.symm.trans hcached)
    | resolved hsource hbody =>
      cases hsource with
      | read hcached =>
        have hroot := (Rooted.resolved (.read hcached ‹_›) hbody).get?_root
        exact nomatch hold.symm.trans (hroot.trans hcached)
  | some source =>
    -- the root replaces a cached module, so that whatever includes it is evicted
    have hhas : s₂.cache.has p = true := Cache.has_eq_true_iff.mpr ⟨m', (hsame p).trans hold⟩
    simp only [Loader.committed, Option.isSome_some, hhas, Bool.and_self, if_true,
      CacheState.cache_withCache, Cache.get?_store, if_neg (Ne.symm hqp), Loader.evict,
      Cache.get?_evictIncluders, Option.filter_eq_some_iff, decide_eq_true_eq] at hq
    exact absurd hp hq.2

/-- The commit of a root leaves every module up to date, unless an include of it was brought
back. -/
private theorem Rooted.committed_current_or_bringsBack {provided : Path → Text → Prop}
    (h : Rooted l p directory supplied ⟨c, []⟩ (.ok m) s₁) (hdir : p.directory? = some directory)
    (hc : c.Coherent) {s₂ : CacheState} (hsame : ∀ q, s₂.cache.get? q = s₁.cache.get? q)
    (hexplained : (Loader.committed p supplied m s₂).cache.Explained provided)
    (hq : (Loader.committed p supplied m s₂).cache.get? q = some x) :
    (Loader.committed p supplied m s₂).cache.Current q x ∨
      c.BringsBack (Loader.committed p supplied m s₂).cache q x := by
  obtain ⟨rfl, rfl⟩ | ⟨hqp, hq₁⟩ := Loader.get?_committed hq
  · obtain ⟨hcurrent, hself⟩ := h.current_root hdir hc
    refine .inl (hcurrent.of_agree fun t ht y hy => ?_)
    obtain ⟨rfl, rfl⟩ | ⟨-, hy⟩ := Loader.get?_committed hy
    · exact hself ht
    · rwa [← hsame]
  · rw [hsame] at hq₁
    refine h.current_or_bringsBack hc hq hq₁ fun t ht y z hy hz => ?_
    obtain ⟨rfl, rfl⟩ | ⟨-, hz⟩ := Loader.get?_committed hz
    · exact h.eq_of_includes hsame hq hqp ((hexplained q x hq).targets_subset ht) hy
    · rw [hsame] at hz
      exact Option.some.inj (hy.symm.trans hz)

/-! ### Along the calls of a cache -/

/-- What a load leaves in a coherent cache is up to date, unless an include of it was brought
back. -/
theorem Loads.current_or_bringsBack {provided : Path → Text → Prop}
    (h : Loads l p supplied ⟨c, []⟩ r s') (hc : c.Coherent)
    (hexplained : s'.cache.Explained provided) (hq : s'.cache.get? q = some x) :
    s'.cache.Current q x ∨ c.BringsBack s'.cache q x := by
  have hagree : ∀ {s₁ : CacheState}, ∀ t ∈ x.targets q, ∀ y z, s₁.cache.get? t = some y →
      s₁.cache.get? t = some z → y = z :=
    fun t _ y z hy hz => Option.some.inj (hy.symm.trans hz)
  cases h with
  | noDirectory => exact .inl (hc q x hq)
  | unrooted _ hroot => exact hroot.current_or_bringsBack hc hq hq hagree
  | refused _ hroot =>
    rw [Loader.cache_checked] at hq ⊢
    exact hroot.current_or_bringsBack hc hq hq hagree
  | marked hdir hroot | passed hdir hroot =>
    exact hroot.committed_current_or_bringsBack hdir hc (fun _ => rfl) hexplained hq

/-- What a call leaves in a coherent cache is up to date, unless an include of it was brought
back. -/
theorem Call.current_or_bringsBack {provided : Path → Text → Prop} (l : Loader) (call : Call)
    (hc : c.Coherent) (hexplained : (call.after l c).cache.Explained provided)
    (hq : (call.after l c).cache.get? q = some x) :
    (call.after l c).cache.Current q x ∨ c.BringsBack (call.after l c).cache q x := by
  have hserved := call.served l c
  generalize call.after l c = s' at hserved hexplained hq ⊢
  generalize call.handedOut? l c = handed at hserved
  cases hserved with
  | loaded _ hloads => exact hloads.current_or_bringsBack hc hexplained hq
  | dropped _ hcached =>
    exact .inl ((hc q x (hcached q x hq)).of_agree fun t _ y hy => hcached t y hy)

/-- **When a cache is coherent.** Throughout a run, whatever the readers and validators of its
calls, the cache is coherent if and only if every module of which a call of the run brings an
include back is up to date after this call. -/
theorem coherent_iff (uses : List (Loader × Call)) :
    (∀ before, before <+: uses → (cacheAfter before).Coherent) ↔
      ∀ before l call, before ++ [(l, call)] <+: uses → ∀ p m,
        (cacheAfter before).BringsBack (call.after l (cacheAfter before)).cache p m →
        (call.after l (cacheAfter before)).cache.Current p m := by
  constructor
  · rintro h before l call hbefore p m ⟨-, hcached, -⟩
    have hafter := h _ hbefore
    rw [cacheAfter_concat] at hafter
    exact hafter p m hcached
  intro h before
  induction before using List.reverseRecOn with
  | nil => exact fun _ _ _ => nofun
  | append_singleton before u ih =>
    intro hbefore p m hp
    have hc := ih ((List.prefix_append before [u]).trans hbefore)
    have hexplained := cacheAfter_explained (before ++ [u])
    rw [cacheAfter_concat] at hp hexplained ⊢
    obtain hcurrent | hback := u.2.current_or_bringsBack u.1 hc hexplained hp
    · exact hcurrent
    · exact h before u.1 u.2 hbefore p m hback

/-- A module that ends with the text of another one. -/
def endingTable : OrderedMap Path Text :=
  .ofList [(.parse "x".toList, "& include 'r';X".toList), (.parse "r".toList, "R0".toList)]

/-- Two runs with one reader that leave stale text behind. In the first run the included module is
taken out and loaded again from another source, and its includer stays as it was. In the second one
the included module is replaced by one that includes its includer: the replaced module keeps the
includer's old text, which the includer itself loses when it is resolved again. -/
theorem not_coherent_brought_back :
    let x := Path.parse "x".toList
    let r := Path.parse "r".toList
    let l : Loader := ⟨.ofTable endingTable, none, Loader.defaultLimit⟩
    ¬ (cacheAfter [(l, .loadFromPath x), (l, .detach r), (l, .load r "R1".toList)]).Coherent ∧
      ¬ (cacheAfter [(l, .loadFromPath x), (l, .load r "& include 'x';".toList),
        (l, .loadFromPath x)]).Coherent := by
  intro x r l
  refine ⟨fun h => ?_, fun h => ?_⟩
  · let m : Module := ⟨"& include 'r';X".toList, [⟨.line, ['r'], 0, 14⟩], "R0X".toList, [r]⟩
    exact absurd (h x m (by decide +kernel)) (by decide +kernel)
  · let m : Module := ⟨"& include 'x';".toList, [⟨.line, ['x'], 0, 14⟩], "R0X".toList, [x, r]⟩
    exact absurd (h r m (by decide +kernel)) (by decide +kernel)

end ShaderInclude
