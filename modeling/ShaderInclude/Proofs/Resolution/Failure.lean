import ShaderInclude.Proofs.Resolution.Call

/-!
# Loads that fail

A load may fail at any depth, when some modules below the root are cached already. `Fails` says at
which of its steps a load fails, together with the chain of paths whose resolution has begun by then
and has not ended: the root, the modules that lead to the failure, and the module at which it
arises. `Loads.exists_fails` says that every load that ends with an error is described in this way,
and `Fails.loads` that nothing else is.

The main statement is `failed_load_keeps_cache`. A failed load changes no entry of the cache and
adds none for a path of the chain. What it adds is complete: each new module is its source with the
modules that are cached at the targets of its directives in their place (`Cache.Completed`). It sets
no mark, and the only mark that it may take away is that of the root.
-/

namespace ShaderInclude

variable {reader : Reader} {limit : Nat} {referrer : Path} {ancestors : List Path} {task : Task}
  {s s' : CacheState} {r : Except LoadError Module} {e : LoadError} {chain : List Path}
  {p q directory : Path} {m : Module}

/-! ### Where a resolution fails -/

/-- **A task that fails**, with its error, the state after it, and the paths whose resolution has
begun and not ended when the error arises, from the innermost outward. -/
inductive BreaksOff (reader : Reader) :
    (limit : Nat) → (referrer : Path) → (ancestors : List Path) → Task → CacheState →
      LoadError → (chain : List Path) → CacheState → Prop
  | tooDeep {referrer : Path} {ancestors : List Path} {p : Path} {s : CacheState} :
    BreaksOff reader 0 referrer ancestors (.path p) s (.fault .nestingTooDeep)
      (referrer :: ancestors) s
  | circular {limit : Nat} {referrer : Path} {ancestors : List Path} {p : Path} {s : CacheState}
      (htrace : p ∈ referrer :: ancestors) :
    BreaksOff reader (limit + 1) referrer ancestors (.path p) s (.finding (.circular p referrer))
      (referrer :: ancestors) s
  | unread {limit : Nat} {referrer : Path} {ancestors : List Path} {p : Path} {s : CacheState}
      {cause : SourceError} (htrace : p ∉ referrer :: ancestors) (hcached : s.cache.get? p = none)
      (hread : reader p = .error cause) :
    BreaksOff reader (limit + 1) referrer ancestors (.path p) s (cause.at p)
      (p :: referrer :: ancestors) (s.requested p)
  | noDirectory {limit : Nat} {referrer : Path} {ancestors : List Path} {p : Path}
      {s : CacheState} {source : Text} (htrace : p ∉ referrer :: ancestors)
      (hcached : s.cache.get? p = none) (hread : reader p = .ok source)
      (hdir : p.directory? = none) :
    BreaksOff reader (limit + 1) referrer ancestors (.path p) s (.finding (.noDirectory p))
      (p :: referrer :: ancestors) (s.requested p)
  | nested {limit : Nat} {referrer : Path} {ancestors chain : List Path} {p directory : Path}
      {s s' : CacheState} {source : Text} {e : LoadError} (htrace : p ∉ referrer :: ancestors)
      (hcached : s.cache.get? p = none) (hread : reader p = .ok source)
      (hdir : p.directory? = some directory)
      (hbody : BreaksOff reader limit p (referrer :: ancestors) (.ofSource directory source)
        (s.requested p) e chain s') :
    BreaksOff reader (limit + 1) referrer ancestors (.path p) s e chain s'
  | first {limit : Nat} {referrer : Path} {ancestors chain : List Path} {directory : Path}
      {d : Directive} {ds : List Directive} {m : Module} {s s' : CacheState} {e : LoadError}
      (htarget : BreaksOff reader limit referrer ancestors (.path (Path.target directory d.path)) s
        e chain s') :
    BreaksOff reader limit referrer ancestors (.directives directory (d :: ds) m) s e chain s'
  | later {limit : Nat} {referrer : Path} {ancestors chain : List Path} {directory : Path}
      {d : Directive} {ds : List Directive} {m included : Module} {s s₁ s₂ : CacheState}
      {e : LoadError}
      (htarget : Derives reader limit referrer ancestors (.path (Path.target directory d.path)) s
        (.ok included) s₁)
      (hrest : BreaksOff reader limit referrer ancestors
        (.directives directory ds (m.splice d (Path.target directory d.path) included))
        (s₁.note (.spliced (Path.target directory d.path) d.start d.stop)) e chain s₂) :
    BreaksOff reader limit referrer ancestors (.directives directory (d :: ds) m) s e chain s₂

/-- Every derivation that ends with an error breaks off somewhere. -/
theorem Derives.exists_breaksOff (h : Derives reader limit referrer ancestors task s r s')
    (hr : r = .error e) :
    ∃ chain, BreaksOff reader limit referrer ancestors task s e chain s' := by
  induction h with
  | tooDeep =>
    cases hr
    exact ⟨_, .tooDeep⟩
  | circular htrace =>
    cases hr
    exact ⟨_, .circular htrace⟩
  | unread htrace hcached hread =>
    cases hr
    exact ⟨_, .unread htrace hcached hread⟩
  | noDirectory htrace hcached hread hdir =>
    cases hr
    exact ⟨_, .noDirectory htrace hcached hread hdir⟩
  | failed htrace hcached hread hdir _ ih =>
    obtain ⟨chain, hbody⟩ := ih hr
    exact ⟨chain, .nested htrace hcached hread hdir hbody⟩
  | reused | stored | done => cases hr
  | halted _ ih =>
    obtain ⟨chain, htarget⟩ := ih hr
    exact ⟨chain, .first htarget⟩
  | spliced htarget _ _ ih₂ =>
    obtain ⟨chain, hrest⟩ := ih₂ hr
    exact ⟨chain, .later htarget hrest⟩

/-- What breaks off is a derivation that ends with the error. -/
theorem BreaksOff.derives (h : BreaksOff reader limit referrer ancestors task s e chain s') :
    Derives reader limit referrer ancestors task s (.error e) s' := by
  induction h with
  | tooDeep => exact .tooDeep
  | circular htrace => exact .circular htrace
  | unread htrace hcached hread => exact .unread htrace hcached hread
  | noDirectory htrace hcached hread hdir => exact .noDirectory htrace hcached hread hdir
  | nested htrace hcached hread hdir _ ih => exact .failed htrace hcached hread hdir ih
  | first _ ih => exact .halted ih
  | later htarget _ ih => exact .spliced htarget ih

/-- The paths that were being resolved before are the outer part of the chain. -/
theorem BreaksOff.trace_suffix
    (h : BreaksOff reader limit referrer ancestors task s e chain s') :
    referrer :: ancestors <:+ chain := by
  induction h with
  | tooDeep | circular => exact List.suffix_rfl
  | unread | noDirectory => exact List.suffix_cons _ _
  | nested _ _ _ _ _ ih => exact (List.suffix_cons _ _).trans ih
  | first _ ih | later _ _ ih => exact ih

/-- What the task itself has begun and not ended is not cached. -/
theorem BreaksOff.get?_eq_none
    (h : BreaksOff reader limit referrer ancestors task s e chain s') (hq : q ∈ chain)
    (hnew : q ∉ referrer :: ancestors) : s'.cache.get? q = none := by
  induction h with
  | tooDeep | circular => exact absurd hq hnew
  | unread _ hcached | noDirectory _ hcached =>
    obtain rfl := (List.mem_cons.mp hq).resolve_right hnew
    exact hcached
  | @nested _ _ _ _ p _ _ _ _ _ _ hcached _ _ hbody ih =>
    by_cases hqp : q = p
    · subst hqp
      exact hbody.derives.get?_eq_none List.mem_cons_self hcached
    · exact ih hq (List.not_mem_cons_of_ne_of_not_mem hqp hnew)
  | first _ ih | later _ _ ih => exact ih hq hnew

/-- **A path whose resolution was broken off** is cached after it as it was before. -/
theorem BreaksOff.get?_eq (h : BreaksOff reader limit referrer ancestors task s e chain s')
    (hq : q ∈ chain) : s'.cache.get? q = s.cache.get? q := by
  cases hold : s.cache.get? q with
  | some m => exact h.derives.retains hold
  | none =>
    by_cases htrace : q ∈ referrer :: ancestors
    · exact h.derives.get?_eq_none htrace hold
    · exact h.get?_eq_none hq htrace

/-! ### What is cached is complete -/

/-- Replace directives, given from the last to the first, by the modules that are cached at their
targets, if all of these are cached. -/
def Cache.assemble (c : Cache) (directory : Path) : List Directive → Module → Option Module
  | [], m => some m
  | d :: ds, m =>
    (c.get? (Path.target directory d.path)).bind fun included =>
      c.assemble directory ds (m.splice d (Path.target directory d.path) included)

/-- **The module is complete**: the reader has a source for its path, and with cached modules in
place of all directives the source becomes the module. -/
def Cache.Completed (c : Cache) (reader : Reader) (p : Path) (m : Module) : Prop :=
  ∃ source directory, reader p = .ok source ∧ p.directory? = some directory ∧
    c.assemble directory (Directive.scan source).reverse (Module.raw source) = some m

/-- The second cache has all modules of the first. -/
def Cache.Within (c c' : Cache) : Prop := ∀ q m, c.get? q = some m → c'.get? q = some m

variable {c c' : Cache}

theorem Cache.Within.get?_eq_none (h : c.Within c') (hq : c'.get? q = none) : c.get? q = none := by
  cases hold : c.get? q with
  | none => rfl
  | some m => exact nomatch hq.symm.trans (h q m hold)

/-- To store a module at a path that is not cached replaces nothing. -/
theorem Cache.within_store (hp : c.get? p = none) (m : Module) : c.Within (c.store p m) := by
  intro q m' hq
  have hne : p ≠ q := by
    rintro rfl
    exact nomatch hp.symm.trans hq
  rw [Cache.get?_store, if_neg hne, hq]

/-- More cached modules change nothing of what was assembled. -/
theorem Cache.Within.assemble (h : c.Within c') {ds : List Directive} {m m' : Module}
    (hm : c.assemble directory ds m = some m') : c'.assemble directory ds m = some m' := by
  induction ds generalizing m with
  | nil => exact hm
  | cons d ds ih =>
    obtain ⟨included, htarget, hrest⟩ := Option.bind_eq_some_iff.mp hm
    exact Option.bind_eq_some_iff.mpr ⟨included, h _ _ htarget, ih hrest⟩

theorem Cache.Within.completed (h : c.Within c') (hm : c.Completed reader p m) :
    c'.Completed reader p m := by
  obtain ⟨source, directory, hread, hdir, hassemble⟩ := hm
  exact ⟨source, directory, hread, hdir, h.assemble hassemble⟩

/-- A task with a result has cached what the result is made of. -/
def Task.Assembled (c : Cache) : Task → Module → Prop
  | .path p, m => c.get? p = some m
  | .directives directory ds m, m' => c.assemble directory ds m = some m'

/-- All that was cached since some earlier cache is complete and was read on the way. -/
def CacheState.Sound (s : CacheState) (reader : Reader) (c : Cache) : Prop :=
  ∀ q m, s.cache.get? q = some m → c.get? q = none →
    .read q ∈ s.events ∧ s.cache.Completed reader q m

theorem CacheState.Sound.note (hs : s.Sound reader c) (e : Event) : (s.note e).Sound reader c := by
  intro q m hq hnew
  obtain ⟨hread, hm⟩ := hs q m hq hnew
  exact ⟨by simp [hread], hm⟩

theorem CacheState.Sound.unaccept (hs : s.Sound reader c) (p : Path) :
    (s.withCache (s.cache.unaccept p)).Sound reader c := by
  intro q m hq hnew
  obtain ⟨hread, hm⟩ := hs q m hq hnew
  have hwithin : s.cache.Within (s.cache.unaccept p) := fun _ _ h => h
  exact ⟨hread, hwithin.completed hm⟩

/-- **A task keeps the cache sound**, whether it fails or not, and its result is assembled from
cached modules. -/
theorem Derives.sound (h : Derives reader limit referrer ancestors task s r s')
    (hs : s.Sound reader c) :
    s'.Sound reader c ∧ ∀ m, r = .ok m → task.Assembled s'.cache m := by
  induction h with
  | tooDeep | circular => exact ⟨hs, nofun⟩
  | reused _ hcached =>
    refine ⟨hs.note _, fun m hm => ?_⟩
    cases hm
    exact hcached
  | unread | noDirectory => exact ⟨(hs.note _).note _, nofun⟩
  | failed _ _ _ _ _ ih => exact ⟨(ih ((hs.note _).note _)).1, nofun⟩
  | @stored _ _ _ p _ _ s' _ m _ hcached hread hdir hbody ih =>
    obtain ⟨hs', hm⟩ := ih ((hs.note _).note _)
    -- the path was being resolved, so that storing it replaces nothing
    have hpath : s'.cache.get? p = none := hbody.get?_eq_none List.mem_cons_self hcached
    have hwithin : s'.cache.Within (s'.cache.store p m) := Cache.within_store hpath m
    refine ⟨fun q m' hq hnew => ?_, fun m' hm' => ?_⟩
    · rw [CacheState.cache_withCache, Cache.get?_store] at hq
      split at hq
      case isTrue hpq =>
        cases hq
        subst hpq
        exact ⟨hbody.mem_events CacheState.read_mem_requested,
          hwithin.completed ⟨_, _, hread, hdir, hm m rfl⟩⟩
      case isFalse => exact (hs' q m' hq hnew).imp_right hwithin.completed
    · cases hm'
      exact (Cache.get?_store _ _ _ _).trans (if_pos rfl)
  | done =>
    refine ⟨hs, fun m hm => ?_⟩
    cases hm
    rfl
  | halted _ ih => exact ⟨(ih hs).1, nofun⟩
  | spliced _ hrest ih₁ ih₂ =>
    obtain ⟨hs₁, hincluded⟩ := ih₁ hs
    obtain ⟨hs₂, hm⟩ := ih₂ (hs₁.note _)
    refine ⟨hs₂, fun m' hm' => Option.bind_eq_some_iff.mpr ⟨_, ?_, hm m' hm'⟩⟩
    exact hrest.retains (hincluded _ rfl)

/-! ### Where the loading of a root fails -/

variable {l : Loader} {supplied : Option Text}

/-- **The load of a root that fails**, with its error, the state after it, and the chain of the
paths whose resolution has begun and not ended. -/
inductive Fails (l : Loader) (p : Path) (supplied : Option Text) (s : CacheState) :
    LoadError → (chain : List Path) → CacheState → Prop
  | noDirectory (hdir : p.directory? = none) :
    Fails l p supplied s (.finding (.noDirectory p)) [p] s
  | unread {directory : Path} {cause : SourceError} (hdir : p.directory? = some directory)
      (hsupplied : supplied = none) (hcached : s.cache.get? p = none)
      (hread : l.reader p = .error cause) :
    Fails l p supplied s (cause.at p) [p] (s.note (.read p))
  | unresolved {directory : Path} {source : Text} {s₀ s' : CacheState} {e : LoadError}
      {chain : List Path} (hdir : p.directory? = some directory)
      (hsource : RootSource l p s supplied source s₀)
      (hbody : BreaksOff l.reader l.limit p [] (.ofSource directory source) s₀ e chain s') :
    Fails l p supplied s e chain s'
  | refused {directory : Path} {m : Module} {s₁ : CacheState} {e : ModuleError}
      (hdir : p.directory? = some directory) (hroot : Rooted l p directory supplied s (.ok m) s₁)
      (hmark : p ∉ s₁.cache.accepted) (hrefusal : l.refusal? m.code = some e) :
    Fails l p supplied s (.finding e) [p] (l.checked m.code s₁)

/-- What fails is a load that ends with the error. -/
theorem Fails.loads (h : Fails l p supplied s e chain s') :
    Loads l p supplied s (.error e) s' := by
  cases h with
  | noDirectory hdir => exact .noDirectory hdir
  | unread hdir hsupplied hcached hread => exact .unrooted hdir (.unread hsupplied hcached hread)
  | unresolved hdir hsource hbody => exact .unrooted hdir (.failed hsource hbody.derives)
  | refused hdir hroot hmark hrefusal => exact .refused hdir hroot hmark hrefusal

/-- Every load that ends with an error fails somewhere. -/
theorem Loads.exists_fails (h : Loads l p supplied s (.error e) s') :
    ∃ chain, Fails l p supplied s e chain s' := by
  cases h with
  | noDirectory hdir => exact ⟨_, .noDirectory hdir⟩
  | unrooted hdir hroot =>
    cases hroot with
    | unread hsupplied hcached hread => exact ⟨_, .unread hdir hsupplied hcached hread⟩
    | failed hsource hbody =>
      obtain ⟨chain, hbreaks⟩ := hbody.exists_breaksOff rfl
      exact ⟨chain, .unresolved hdir hsource hbreaks⟩
  | refused hdir hroot hmark hrefusal => exact ⟨_, .refused hdir hroot hmark hrefusal⟩

/-- A call that loads a root and hands out nothing is a load that ends with an error. -/
theorem Call.exists_error {call : Call} (hroot : call.root? = some (p, supplied))
    (hfails : call.handedOut? l c = none) :
    ∃ e, Loads l p supplied ⟨c, []⟩ (.error e) (call.after l c) := by
  obtain ⟨r, hloads, hhanded⟩ := Call.exists_loads l c hroot
  rw [hfails] at hhanded
  cases r with
  | ok => cases hhanded
  | error e => exact ⟨e, hloads⟩

/-- The root is the outermost path of the chain. -/
theorem Fails.root_mem (h : Fails l p supplied s e chain s') : p ∈ chain := by
  cases h with
  | noDirectory | unread | refused => exact List.mem_singleton_self p
  | unresolved _ _ hbody => exact hbody.trace_suffix.subset (List.mem_singleton_self p)

/-! ### What a root leaves in the cache before its commit -/

/-- A root keeps what is cached. -/
theorem Rooted.within (h : Rooted l p directory supplied s r s') : s.cache.Within s'.cache := by
  intro q m hq
  cases h with
  | cached | unread => exact hq
  | failed hsource hbody | resolved hsource hbody => exact hbody.retains (hsource.cache_eq ▸ hq)

/-- A root is not cached before its commit, unless it was before. -/
theorem Rooted.get?_root (h : Rooted l p directory supplied s r s') :
    s'.cache.get? p = s.cache.get? p := by
  cases hold : s.cache.get? p with
  | some m => exact h.within p m hold
  | none =>
    cases h with
    | cached | unread => exact hold
    | failed hsource hbody | resolved hsource hbody =>
      exact hbody.get?_eq_none List.mem_cons_self (hsource.cache_eq ▸ hold)

/-- What a root caches is complete. -/
theorem Rooted.sound (h : Rooted l p directory supplied s r s') (hs : s.Sound l.reader c) :
    s'.Sound l.reader c := by
  have hsource : ∀ {source s₀}, RootSource l p s supplied source s₀ → s₀.Sound l.reader c := by
    intro source s₀ hsource
    cases hsource with
    | supplied => exact hs
    | read => exact hs.note _
  cases h with
  | cached => exact hs
  | unread => exact hs.note _
  | failed h hbody => exact (hbody.sound (hsource h)).1
  | resolved h hbody => exact (hbody.sound (hsource h)).1.unaccept p

/-- A root takes away no mark but its own, and sets none. -/
theorem Rooted.mem_accepted (h : Rooted l p directory supplied s r s') :
    (q ∈ s'.cache.accepted → q ∈ s.cache.accepted) ∧
      (q ∈ s.cache.accepted → q ∈ s'.cache.accepted ∨ q = p) := by
  cases h with
  | cached | unread => exact ⟨id, .inl⟩
  | failed hsource hbody =>
    rw [hbody.accepted_eq, hsource.cache_eq]
    exact ⟨id, .inl⟩
  | resolved hsource hbody =>
    rw [CacheState.cache_withCache, Cache.mem_accepted_unaccept, hbody.accepted_eq,
      hsource.cache_eq]
    refine ⟨And.left, fun hq => ?_⟩
    by_cases hqp : q = p
    · exact .inr hqp
    · exact .inl ⟨hq, hqp⟩

/-! ### What a failed load leaves behind -/

/-- A failed load has left what its root has left, if it came to resolve it. -/
theorem Loads.exists_rooted (h : Loads l p supplied s (.error e) s') :
    s' = s ∨ ∃ directory r₁ s₁, Rooted l p directory supplied s r₁ s₁ ∧ s'.cache = s₁.cache ∧
      ∀ q, .read q ∈ s₁.events → .read q ∈ s'.events := by
  cases h with
  | noDirectory => exact .inl rfl
  | unrooted _ hroot => exact .inr ⟨_, _, _, hroot, rfl, fun _ => id⟩
  | refused _ hroot =>
    exact .inr ⟨_, _, _, hroot, l.cache_checked _ _, fun _ => l.read_mem_checked.mpr⟩

/-- **The paths of the chain** are cached after a failed load as they were before it. -/
theorem Fails.get?_eq (h : Fails l p supplied s e chain s') (hq : q ∈ chain) :
    s'.cache.get? q = s.cache.get? q := by
  cases h with
  | noDirectory | unread => rfl
  | unresolved _ hsource hbody => rw [hbody.get?_eq hq, hsource.cache_eq]
  | refused _ hroot =>
    obtain rfl := List.mem_singleton.mp hq
    rw [l.cache_checked, hroot.get?_root]

/-- **A failed load does no damage.** Whatever the cache, the reader and the validator, a call that
loads a root and hands out no module has failed at some step, and then
* every cached module is still cached,
* a module that is cached anew was read by the call and is complete,
* the root, and every other path whose resolution had begun and not ended when the call failed, is
  cached as before or not at all, and
* no path is marked that was not, and no mark but that of the root is gone. -/
theorem failed_load_keeps_cache (l : Loader) (c : Cache) (call : Call) (p : Path)
    (supplied : Option Text) (hroot : call.root? = some (p, supplied))
    (hfails : call.handedOut? l c = none) :
    let s' := call.after l c
    c.Within s'.cache ∧
      (∀ q m, s'.cache.get? q = some m → c.get? q = none →
        .read q ∈ s'.events ∧ s'.cache.Completed l.reader q m) ∧
      (∃ e chain, Fails l p supplied ⟨c, []⟩ e chain s' ∧ p ∈ chain ∧
        ∀ q ∈ chain, s'.cache.get? q = c.get? q) ∧
      (∀ q ∈ s'.cache.accepted, q ∈ c.accepted) ∧
      ∀ q ∈ c.accepted, q ∈ s'.cache.accepted ∨ q = p := by
  intro s'
  obtain ⟨e, hloads⟩ := call.exists_error hroot hfails
  obtain ⟨chain, hchain⟩ := hloads.exists_fails
  have hfailed : ∃ e chain, Fails l p supplied ⟨c, []⟩ e chain s' ∧ p ∈ chain ∧
      ∀ q ∈ chain, s'.cache.get? q = c.get? q :=
    ⟨e, chain, hchain, hchain.root_mem, fun q hq => hchain.get?_eq hq⟩
  have hstart : CacheState.Sound ⟨c, []⟩ l.reader c := fun q m hq hnew => nomatch hq.symm.trans hnew
  obtain hsame | ⟨directory, r₁, s₁, hrooted, hcache, hreads⟩ := hloads.exists_rooted
  · rw [show s' = _ from hsame] at hfailed ⊢
    exact ⟨fun _ _ h => h, hstart, hfailed, fun _ => id, fun _ => .inl⟩
  · rw [show s'.cache = _ from hcache] at hfailed ⊢
    refine ⟨hrooted.within, fun q m hq hnew => ?_, hfailed, fun q => hrooted.mem_accepted.1,
      fun q => hrooted.mem_accepted.2⟩
    exact (hrooted.sound hstart q m hq hnew).imp_left (hreads q)

/-- A cached root is to be replaced by one that includes another module, and the validator refuses
the new code. The included module stays cached, and so does the old root, without its mark. -/
theorem failed_load_keeps_cache_replacing :
    let x := Path.parse "x".toList
    let y := Path.parse "y".toList
    let l : Loader := ⟨.ofTable (.ofList [(y, "Y".toList)]), some (.refusing (some "Y".toList)),
      Loader.defaultLimit⟩
    let c := cacheAfter [(l, .load x "old".toList)]
    let call : Call := .load x "& include 'y';".toList
    call.handedOut? l c = none ∧ (call.after l c).cache.paths = [x, y] ∧
      (call.after l c).cache.get? x = c.get? x ∧
      (call.after l c).cache.Completed l.reader y (.raw "Y".toList) ∧
      c.accepted = [x] ∧ (call.after l c).cache.accepted = [] := by
  intro x y l c call
  have hfails : call.handedOut? l c = none := by decide +kernel
  obtain ⟨-, hadded, ⟨e, chain, -, hroot, hkept⟩, -⟩ := failed_load_keeps_cache l c call x
    (some "& include 'y';".toList) (by decide +kernel) hfails
  refine ⟨hfails, by decide +kernel, hkept x hroot, ?_, by decide +kernel, by decide +kernel⟩
  exact (hadded y _ (by decide +kernel) (by decide +kernel)).2

end ShaderInclude
