import ShaderInclude.Proofs.Resolution.Coherence
import ShaderInclude.Proofs.Resolution.SelfDependence

/-!
# What cached modules were built from

Many trees may explain a module, since different sources may have the same code. The tree from which
it was built is one of them: at each node it has the source that was used there, although the cache
may hold another one by now, or none.

`originsAfter` follows these trees along a run without a look at any dependency. A call that
resolves a module puts it on top of the trees of what is cached at the targets of its directives
(`Origins.Grown`, `Call.OriginAfter`), and every other module keeps its tree as long as it is
cached. The main statement is `accounts_originsAfter`: every cached module was built from exactly
one tree, and this tree explains it.
-/

namespace ShaderInclude

/-- The trees from which modules were built, by the paths of the modules. -/
abbrev Origins := Path → IncludeTree → Prop

variable {old : Origins} {reader : Reader} {limit : Nat} {referrer : Path} {ancestors : List Path}
  {task : Task} {s s' s₁ : CacheState} {r : Except LoadError Module} {c c₁ c₂ : Cache}
  {p q directory : Path} {ds : List Directive} {m m' : Module} {t t' : IncludeTree} {l : Loader}
  {supplied : Option Text} {call : Call}

/-- **The trees of what is cached when a call has resolved its root.** A module that was cached
before keeps its tree. A module that was resolved anew has its source at the root of its tree, and
below it the tree of what is cached at the target of each of its directives. -/
inductive Origins.Grown (old : Origins) (c c₁ : Cache) : Path → IncludeTree → Prop
  | kept {q : Path} {m : Module} {t : IncludeTree} (hcached : c.get? q = some m) (ht : old q t) :
    Grown old c c₁ q t
  | resolved {q : Path} {m : Module} {children : List IncludeTree} (hnew : c.get? q = none)
      (hcached : c₁.get? q = some m)
      (hpaths : children.map IncludeTree.path =
        (Directive.scan m.source).map fun d => Path.target q.parent d.path)
      (hchildren : ∀ t ∈ children, Grown old c c₁ t.path t) :
    Grown old c c₁ q (.node q m.source children)

/-- **The trees account for a cache**: every cached module was built from exactly one of them, which
has the path of the module at its root and explains the module. -/
def Origins.Accounts (old : Origins) (c : Cache) : Prop :=
  ∀ q m, c.get? q = some m → ∃ t, (∀ t', old q t' ↔ t' = t) ∧ t.path = q ∧ t.Explains m

/-! ### Trees in a row -/

/-- What each path of a list has is had by all of them in a row. -/
theorem IncludeTree.exists_row (has : Path → IncludeTree → Prop) {qs : List Path}
    (h : ∀ q ∈ qs, ∃ t, t.path = q ∧ has q t) :
    ∃ ts : List IncludeTree, ts.map path = qs ∧ ∀ t ∈ ts, has t.path t := by
  induction qs with
  | nil => exact ⟨[], rfl, nofun⟩
  | cons q qs ih =>
    obtain ⟨t, rfl, ht⟩ := h q List.mem_cons_self
    obtain ⟨ts, hpaths, hts⟩ := ih fun q' hq' => h q' (List.mem_cons_of_mem _ hq')
    refine ⟨t :: ts, by rw [List.map_cons, hpaths], fun t' ht' => ?_⟩
    rcases List.mem_cons.mp ht' with rfl | ht'
    · exact ht
    · exact hts t' ht'

/-- Trees in a row that are determined by their paths. -/
theorem IncludeTree.row_unique {has : Path → IncludeTree → Prop} {ts ts' : List IncludeTree}
    (hunique : ∀ t ∈ ts, ∀ t', has t.path t' → t = t') (hpaths : ts.map path = ts'.map path)
    (hts' : ∀ t ∈ ts', has t.path t) : ts = ts' := by
  induction ts generalizing ts' with
  | nil => exact (List.map_eq_nil_iff.mp hpaths.symm).symm
  | cons t ts ih =>
    cases ts' with
    | nil => cases hpaths
    | cons t' ts' =>
      obtain ⟨hpath, hrest⟩ := List.cons_eq_cons.mp hpaths
      obtain rfl := hunique t List.mem_cons_self t' (hpath ▸ hts' t' List.mem_cons_self)
      congr 1
      exact ih (fun u hu => hunique u (List.mem_cons_of_mem _ hu)) hrest
        fun u hu => hts' u (List.mem_cons_of_mem _ hu)

/-- The trees of what is cached at the targets of directives give, in their place, what is put
together from there. -/
theorem IncludeTree.explains_assembled {ts : List IncludeTree}
    (hm : c.assemble directory ds m = some m')
    (hpaths : ts.map path = ds.reverse.map fun d => Path.target directory d.path)
    (hts : ∀ t ∈ ts, ∀ x, c.get? t.path = some x → t.Explains x) :
    m'.code = spliceAll ds.reverse (ts.map code) m.code ∧
      ∀ q, q ∈ m'.dependencies ↔ q ∈ pathsOf ts ∨ q ∈ m.dependencies := by
  induction ds generalizing m ts with
  | nil =>
    cases hm
    obtain rfl := List.map_eq_nil_iff.mp hpaths
    exact ⟨rfl, by simp [pathsOf]⟩
  | cons d ds ih =>
    obtain ⟨included, htarget, hrest⟩ := Option.bind_eq_some_iff.mp hm
    rw [List.reverse_cons, List.map_append] at hpaths
    obtain ⟨ts, row, rfl, hfront, hlast⟩ := List.map_eq_append_iff.mp hpaths
    obtain ⟨t, rfl, ht⟩ := List.map_eq_singleton_iff.mp hlast
    replace ht : t.path = Path.target directory d.path := ht
    have hexplains : t.Explains included := hts t (by simp) included (ht ▸ htarget)
    obtain ⟨hcode, hdeps⟩ := ih hrest hfront fun t' ht' =>
      hts t' (List.mem_append_left _ ht')
    have hlength : ds.reverse.length = (ts.map code).length := by
      simpa using (congrArg List.length hfront).symm
    refine ⟨?_, fun q => ?_⟩
    · rw [hcode, List.reverse_cons, List.map_append, List.map_singleton,
        spliceAll_concat hlength, ← hexplains.code_eq]
      rfl
    · rw [hdeps, Module.mem_dependencies_splice, hexplains.mem_dependencies, ← ht]
      simp only [mem_pathsOf, List.mem_append, List.mem_singleton, or_and_right, exists_or,
        exists_eq_left, or_assoc]

/-- **A module on top of the trees of its includes**: the tree explains the module if the module is
what is put together from there. -/
theorem IncludeTree.explains_node {children : List IncludeTree} (hm : c.rebuild? p m = some m)
    (hpaths : children.map path =
      (Directive.scan m.source).map fun d => Path.target p.parent d.path)
    (hchildren : ∀ t ∈ children, ∀ x, c.get? t.path = some x → t.Explains x) :
    (node p m.source children).Explains m := by
  obtain ⟨hcode, hdeps⟩ :=
    explains_assembled hm (hpaths.trans (by rw [List.reverse_reverse])) hchildren
  refine ⟨rfl, ?_, fun q => ?_⟩
  · rw [hcode, List.reverse_reverse, code, codes_eq_map]
    rfl
  · rw [hdeps, descendants]
    simp

/-! ### What a call resolves -/

theorem Origins.Grown.mono (h : old.Grown c c₁ q t) (hwithin : c₁.Within c₂) :
    old.Grown c c₂ q t := by
  induction h with
  | kept hcached ht => exact .kept hcached ht
  | resolved hnew hcached hpaths _ ih => exact .resolved hnew (hwithin _ _ hcached) hpaths ih

/-- What is grown on trees that account for a cache is determined by its path. -/
theorem Origins.Grown.unique (h : old.Grown c c₁ q t) (hold : old.Accounts c)
    (h' : old.Grown c c₁ q t') : t = t' := by
  induction h generalizing t' with
  | kept hcached ht =>
    cases h' with
    | kept _ ht' =>
      obtain ⟨t₀, htree, -⟩ := hold _ _ hcached
      rw [(htree _).mp ht, (htree _).mp ht']
    | resolved hnew => cases hnew.symm.trans hcached
  | resolved hnew hcached hpaths _ ih =>
    cases h' with
    | kept hcached' => cases hnew.symm.trans hcached'
    | resolved _ hcached' hpaths' hchildren' =>
      obtain rfl := Option.some.inj (hcached.symm.trans hcached')
      congr 1
      exact IncludeTree.row_unique (fun t ht t' ht' => ih t ht ht') (hpaths.trans hpaths'.symm)
        hchildren'

/-- What is grown on trees that account for a cache explains what a larger cache has, if that is put
together from what it has. -/
theorem Origins.Grown.explains (h : old.Grown c c₁ q t) (hold : old.Accounts c)
    (hwithin : c.Within c₁)
    (hbuilt : ∀ q m, c₁.get? q = some m → c.get? q = none → c₁.rebuild? q m = some m)
    (hq : c₁.get? q = some m) : t.path = q ∧ t.Explains m := by
  induction h generalizing m with
  | @kept q m₀ t hcached ht =>
    obtain rfl : m₀ = m := Option.some.inj ((hwithin q m₀ hcached).symm.trans hq)
    obtain ⟨t₀, htree, hpath, hexplains⟩ := hold q m₀ hcached
    rw [(htree t).mp ht]
    exact ⟨hpath, hexplains⟩
  | @resolved q m₀ children hnew hcached hpaths _ ih =>
    obtain rfl : m₀ = m := Option.some.inj (hcached.symm.trans hq)
    refine ⟨rfl, IncludeTree.explains_node (hbuilt q m₀ hcached hnew) hpaths fun t ht x hx => ?_⟩
    exact (ih t ht hx).2

/-- Whatever a task caches is grown. -/
theorem Derives.exists_grown (h : Derives reader limit referrer ancestors task s r s')
    (hwithin : c.Within s.cache)
    (hs : ∀ q m, s.cache.get? q = some m → ∃ t, t.path = q ∧ old.Grown c s.cache q t) :
    ∀ q m, s'.cache.get? q = some m → ∃ t, t.path = q ∧ old.Grown c s'.cache q t := by
  induction h with
  | tooDeep | circular | done | reused | unread | noDirectory => exact hs
  | failed _ _ _ _ _ ih => exact ih hwithin hs
  | halted _ ih => exact ih hwithin hs
  | spliced htarget _ ih₁ ih₂ =>
    exact ih₂ (fun q m hq => htarget.retains (hwithin q m hq)) (ih₁ hwithin hs)
  | @stored _ _ _ p directory s s' source m htrace hcached hread hdir hbody ih =>
    have hs' := ih hwithin hs
    have hpath : s'.cache.get? p = none := hbody.get?_eq_none List.mem_cons_self hcached
    have hgrow : s'.cache.Within (s'.cache.store p m) := Cache.within_store hpath m
    intro q m' hq
    rw [CacheState.cache_withCache, Cache.get?_store] at hq
    split at hq
    case isFalse =>
      obtain ⟨t, ht, hgrown⟩ := hs' q m' hq
      exact ⟨t, ht, hgrown.mono hgrow⟩
    case isTrue hpq =>
      subst hpq
      cases hq
      obtain ⟨hsource, -⟩ := hbody.rebuild?_of_ok hdir
      obtain ⟨rfl, -⟩ := Path.directory?_eq_some_iff.mp hdir
      -- the targets of the source are cached by now, each with its tree
      have htargets : ∀ x ∈ (Directive.scan m.source).map fun d => Path.target p.parent d.path,
          ∃ t, t.path = x ∧ old.Grown c (s'.cache.store p m) x t := by
        intro x hx
        have hmem : x ∈ (Task.ofSource p.parent source).targets := by
          simpa [Task.targets, hsource] using hx
        obtain ⟨-, m', hm'⟩ := hbody.get?_of_mem_targets rfl hmem
        obtain ⟨t, ht, hgrown⟩ := hs' x m' hm'
        exact ⟨t, ht, hgrown.mono hgrow⟩
      obtain ⟨children, hpaths, hchildren⟩ := IncludeTree.exists_row _ htargets
      exact ⟨.node p m.source children, rfl,
        .resolved (hwithin.get?_eq_none hcached) (by simp) hpaths hchildren⟩

/-- Whatever a root leaves in the cache before its commit is grown. -/
theorem Rooted.exists_grown (h : Rooted l p directory supplied ⟨c, []⟩ r s₁)
    (hold : old.Accounts c) (hq : s₁.cache.get? q = some m) :
    ∃ t, t.path = q ∧ old.Grown c s₁.cache q t := by
  have hstart : ∀ q m, c.get? q = some m → ∃ t, t.path = q ∧ old.Grown c c q t := by
    intro q m hq
    obtain ⟨t, htree, hpath, -⟩ := hold q m hq
    exact ⟨t, hpath, .kept hq ((htree t).mpr rfl)⟩
  have hbody : ∀ {source : Text} {s₀ s' : CacheState} {r : Except LoadError Module},
      RootSource l p ⟨c, []⟩ supplied source s₀ →
      Derives l.reader l.limit p [] (.ofSource directory source) s₀ r s' →
      ∀ q m, s'.cache.get? q = some m → ∃ t, t.path = q ∧ old.Grown c s'.cache q t := by
    intro source s₀ s' r hsource hbody
    refine hbody.exists_grown ?_ ?_
    · rw [hsource.cache_eq]
      exact fun _ _ h => h
    · rw [hsource.cache_eq]
      exact hstart
  cases h with
  | cached | unread => exact hstart q m hq
  | failed hsource hderives => exact hbody hsource hderives q m hq
  | resolved hsource hderives =>
    obtain ⟨t, ht, hgrown⟩ := hbody hsource hderives q m hq
    exact ⟨t, ht, hgrown.mono fun _ _ h => h⟩

/-! ### Along the calls of a cache -/

/-- The state when the resolution of a root has ended, before its code is checked. -/
def Loader.resolvedState (l : Loader) (p : Path) (supplied : Option Text) (s : CacheState) :
    CacheState :=
  match p.directory? with
  | none => s
  | some directory => (l.root p directory supplied s).2

/-- The cache when a call has resolved its root, if it has one. -/
def Call.resolvedCache (l : Loader) (c : Cache) (call : Call) : Cache :=
  match call.root? with
  | none => c
  | some (p, supplied) => (l.resolvedState p supplied ⟨c, []⟩).cache

/-- **The call renews a module**: it resolves its root anew, from a supplied source or because the
root is not cached, and hands the module out. -/
def Call.Renews (l : Loader) (c : Cache) (call : Call) (q : Path) (m : Module) : Prop :=
  ∃ supplied, call.root? = some (q, supplied) ∧ call.handedOut? l c = some (q, m) ∧
    (supplied = none → c.get? q = none)

/-- **The trees of what is cached after a call.** A module that the call has renewed has its source
at the root of its tree, and below it the trees of its targets when it was resolved. -/
inductive Call.OriginAfter (l : Loader) (c : Cache) (call : Call) (old : Origins) :
    Path → IncludeTree → Prop
  | renewed {q : Path} {m : Module} {children : List IncludeTree} (h : call.Renews l c q m)
      (hpaths : children.map IncludeTree.path =
        (Directive.scan m.source).map fun d => Path.target q.parent d.path)
      (hchildren : ∀ t ∈ children, old.Grown c (call.resolvedCache l c) t.path t) :
    OriginAfter l c call old q (.node q m.source children)
  | other {q : Path} {m : Module} {t : IncludeTree}
      (hcached : (call.after l c).cache.get? q = some m) (h : ∀ m', ¬call.Renews l c q m')
      (ht : old.Grown c (call.resolvedCache l c) q t) :
    OriginAfter l c call old q t

/-- The trees from which the modules were built that are cached after calls in a row. -/
def originsAfter (uses : List (Loader × Call)) : Origins :=
  (uses.foldl (fun (before : Cache × Origins) u =>
    ((u.2.after u.1 before.1).cache, u.2.OriginAfter u.1 before.1 before.2))
    (.empty, fun _ _ => False)).2

theorem Rooted.resolvedState_eq (h : Rooted l p directory supplied s r s₁)
    (hdir : p.directory? = some directory) : l.resolvedState p supplied s = s₁ := by
  simp only [Loader.resolvedState, hdir, h.root_eq]

/-- The root of a call is resolved in one of the ways that `Rooted` lists, if at all. -/
theorem Call.resolvedCache_cases (l : Loader) (c : Cache) (call : Call) :
    call.resolvedCache l c = c ∨ ∃ p directory supplied r s₁,
      Rooted l p directory supplied ⟨c, []⟩ r s₁ ∧ call.resolvedCache l c = s₁.cache := by
  unfold resolvedCache
  split
  · exact .inl rfl
  · next p supplied hroot =>
    cases hdir : p.directory? with
    | none => exact .inl (by simp [Loader.resolvedState, hdir])
    | some directory =>
      have hrooted := rooted_root l p directory supplied ⟨c, []⟩
      exact .inr ⟨p, directory, supplied, _, _, hrooted, by rw [hrooted.resolvedState_eq hdir]⟩

theorem Call.within_resolvedCache (l : Loader) (c : Cache) (call : Call) :
    c.Within (call.resolvedCache l c) := by
  obtain heq | ⟨p, directory, supplied, r, s₁, hrooted, heq⟩ := call.resolvedCache_cases l c
  · rw [heq]
    exact fun _ _ h => h
  · rw [heq]
    exact hrooted.within

/-- A module that a call has cached anew below its root is up to date then. -/
theorem Call.rebuild?_resolvedCache (hq : (call.resolvedCache l c).get? q = some m)
    (hnew : c.get? q = none) : (call.resolvedCache l c).rebuild? q m = some m := by
  obtain heq | ⟨p, directory, supplied, r, s₁, hrooted, heq⟩ := call.resolvedCache_cases l c
  · rw [heq] at hq
    cases hnew.symm.trans hq
  · have hstart : CacheState.Sound ⟨c, []⟩ l.reader c :=
      fun q m hq hnew => nomatch hq.symm.trans hnew
    rw [heq] at hq ⊢
    exact (hrooted.sound hstart q m hq hnew).2.rebuild?

/-- What is cached when a call has resolved its root is accounted for by what has grown. -/
theorem Call.accounts_resolvedCache (hold : old.Accounts c) :
    Origins.Accounts (old.Grown c (call.resolvedCache l c)) (call.resolvedCache l c) := by
  intro q m hq
  obtain ⟨t, ht, hgrown⟩ : ∃ t, t.path = q ∧ old.Grown c (call.resolvedCache l c) q t := by
    obtain heq | ⟨p, directory, supplied, r, s₁, hrooted, heq⟩ := call.resolvedCache_cases l c
    · rw [heq] at hq ⊢
      obtain ⟨t, htree, hpath, -⟩ := hold q m hq
      exact ⟨t, hpath, .kept hq ((htree t).mpr rfl)⟩
    · rw [heq] at hq ⊢
      exact hrooted.exists_grown hold hq
  refine ⟨t, fun t' => ⟨fun ht' => (hgrown.unique hold ht').symm, fun h => h ▸ hgrown⟩, ?_⟩
  exact hgrown.explains hold (call.within_resolvedCache l c)
    (fun q m => call.rebuild?_resolvedCache) hq

/-- What a load leaves in the cache was there when its root had been resolved, unless it is the
module of the root. -/
theorem Loads.get?_resolvedState (h : Loads l p supplied s r s') (hq : s'.cache.get? q = some m) :
    (l.resolvedState p supplied s).cache.get? q = some m ∨
      q = p ∧ r = .ok m ∧ (supplied = none → s.cache.get? p = none) := by
  cases r with
  | error e =>
    refine .inl ?_
    cases h with
    | noDirectory hdir => simpa only [Loader.resolvedState, hdir] using hq
    | unrooted hdir hroot => rwa [hroot.resolvedState_eq hdir]
    | refused hdir hroot =>
      rw [hroot.resolvedState_eq hdir]
      rwa [Loader.cache_checked] at hq
  | ok m₀ =>
    obtain ⟨directory, s₁, s₂, hdir, hroot, hsame, -, rfl⟩ := h.exists_committed
    rw [hroot.resolvedState_eq hdir]
    obtain ⟨rfl, rfl⟩ | ⟨-, hq⟩ := Loader.get?_committed hq
    · cases hroot with
      | cached _ hcached => exact .inl hcached
      | resolved hsource =>
        refine .inr ⟨rfl, rfl, fun hnone => ?_⟩
        cases hsource with
        | supplied => cases hnone
        | read hcached => exact hcached
    · exact .inl (hsame q ▸ hq)

/-- What a call leaves in the cache was there when its root had been resolved, unless the call has
renewed it. -/
theorem Call.renews_or_resolved (hq : (call.after l c).cache.get? q = some m) :
    call.Renews l c q m ∨
      (∀ m', ¬call.Renews l c q m') ∧ (call.resolvedCache l c).get? q = some m := by
  by_cases hrenews : ∃ m', call.Renews l c q m'
  · obtain ⟨m', hm'⟩ := hrenews
    obtain ⟨supplied, hroot, hhanded, -⟩ := id hm'
    obtain ⟨r, hloads, hr⟩ := Call.exists_loads l c hroot
    rw [hhanded] at hr
    cases r with
    | error => cases hr
    | ok m₀ =>
      cases hr
      obtain rfl := Option.some.inj (hq.symm.trans hloads.get?_of_ok)
      exact .inl hm'
  refine .inr ⟨fun m' hm' => hrenews ⟨m', hm'⟩, ?_⟩
  cases hroot : call.root? with
  | none =>
    have hserved := call.served l c
    generalize call.after l c = s' at hserved hq
    generalize call.handedOut? l c = handed at hserved
    cases hserved with
    | loaded hroot' => cases hroot.symm.trans hroot'
    | dropped _ hcached =>
      simp only [resolvedCache, hroot]
      exact hcached q m hq
  | some root =>
    obtain ⟨p, supplied⟩ := root
    obtain ⟨r, hloads, hr⟩ := Call.exists_loads l c hroot
    simp only [resolvedCache, hroot]
    obtain hq | ⟨rfl, rfl, hnew⟩ := hloads.get?_resolvedState hq
    · exact hq
    · exact absurd ⟨m, supplied, hroot, hr, hnew⟩ hrenews

/-- A module that a call renews is put together from what is cached when it has been resolved. -/
theorem Call.Renews.rebuild?_eq (h : call.Renews l c q m) :
    (call.resolvedCache l c).rebuild? q m = some m := by
  obtain ⟨supplied, hroot, hhanded, hnew⟩ := h
  obtain ⟨r, hloads, hr⟩ := Call.exists_loads l c hroot
  rw [hhanded] at hr
  simp only [resolvedCache, hroot]
  cases r with
  | error => cases hr
  | ok m₀ =>
    cases hr
    obtain ⟨directory, s₁, -, hdir, hrooted, -⟩ := hloads.exists_committed
    rw [hrooted.resolvedState_eq hdir]
    cases hrooted with
    | cached hsupplied hcached => cases (hnew hsupplied).symm.trans hcached
    | resolved _ hbody =>
      rw [← (hbody.rebuild?_of_ok hdir).2]
      exact Cache.rebuild?_congr fun _ _ => rfl

/-- **A call keeps account**: the trees after it account for the cache after it. -/
theorem Call.accounts_after (hold : old.Accounts c) :
    Origins.Accounts (call.OriginAfter l c old) (call.after l c).cache := by
  intro q m hq
  have hresolved := call.accounts_resolvedCache (l := l) hold
  obtain hrenews | ⟨hother, hq₁⟩ := Call.renews_or_resolved hq
  · have hm := hrenews.rebuild?_eq
    have htargets : ∀ x ∈ (Directive.scan m.source).map fun d => Path.target q.parent d.path,
        ∃ t, t.path = x ∧ old.Grown c (call.resolvedCache l c) x t := by
      intro x hx
      have hmem : x ∈ m.targets q := by simpa [Module.targets, Task.targets] using hx
      obtain ⟨m', hm'⟩ := Cache.exists_of_rebuild? hm hmem
      obtain ⟨t, htree, hpath, -⟩ := hresolved x m' hm'
      exact ⟨t, hpath, (htree t).mpr rfl⟩
    obtain ⟨children, hpaths, hchildren⟩ := IncludeTree.exists_row _ htargets
    refine ⟨.node q m.source children, fun t' => ⟨fun ht' => ?_, ?_⟩, rfl, ?_⟩
    · cases ht' with
      | other _ hother => exact absurd hrenews (hother m)
      | renewed hrenews' hpaths' hchildren' =>
        obtain ⟨-, -, hhanded, -⟩ := hrenews
        obtain ⟨-, -, hhanded', -⟩ := hrenews'
        obtain ⟨-, rfl⟩ := Prod.mk.inj (Option.some.inj (hhanded.symm.trans hhanded'))
        congr 1
        exact IncludeTree.row_unique (fun t ht t' h => (hchildren' t ht).unique hold h)
          (hpaths'.trans hpaths.symm) hchildren
    · rintro rfl
      exact .renewed hrenews hpaths hchildren
    · refine IncludeTree.explains_node hm hpaths fun t ht x hx => ?_
      obtain ⟨t₀, htree, -, hexplains⟩ := hresolved t.path x hx
      exact (htree t).mp (hchildren t ht) ▸ hexplains
  · obtain ⟨t, htree, hpath, hexplains⟩ := hresolved q m hq₁
    refine ⟨t, fun t' => ⟨fun ht' => ?_, ?_⟩, hpath, hexplains⟩
    · cases ht' with
      | renewed hrenews => exact absurd hrenews (hother _)
      | other _ _ ht' => exact (htree t').mp ht'
    · rintro rfl
      exact .other hq hother ((htree t').mpr rfl)

theorem originsAfter_concat (uses : List (Loader × Call)) (u : Loader × Call) :
    originsAfter (uses ++ [u]) = u.2.OriginAfter u.1 (cacheAfter uses) (originsAfter uses) := by
  have hcache : ∀ (uses : List (Loader × Call)) (before : Cache × Origins),
      (uses.foldl (fun (before : Cache × Origins) u =>
        ((u.2.after u.1 before.1).cache, u.2.OriginAfter u.1 before.1 before.2)) before).1 =
      uses.foldl (fun c u => (u.2.after u.1 c).cache) before.1 := by
    intro uses
    induction uses with
    | nil => exact fun _ => rfl
    | cons u uses ih => exact fun before => ih _
  rw [originsAfter, List.foldl_append, List.foldl_cons, List.foldl_nil, hcache]
  rfl

/-- **Every cached module was built from one tree, which explains it**, after whatever calls. -/
theorem accounts_originsAfter (uses : List (Loader × Call)) :
    (originsAfter uses).Accounts (cacheAfter uses) := by
  induction uses using List.reverseRecOn with
  | nil => exact nofun
  | append_singleton uses u ih =>
    rw [originsAfter_concat, cacheAfter_concat]
    exact Call.accounts_after ih

end ShaderInclude
