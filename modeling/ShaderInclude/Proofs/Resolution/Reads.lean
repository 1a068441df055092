import ShaderInclude.Proofs.Resolution.Derivation

/-!
# What a resolution reads

A call depends on its reader only through the paths that it reads (`Derives.congr_reader`), none of
which is being resolved (`Derives.not_mem_trace_of_read`), and on the state in which it begins only
through the cache (`Derives.congr_cache`). It reads no path twice (`Derives.nodup_readPaths`). If it
succeeds, all paths that it has read are dependencies of its module
(`Derives.mem_dependencies_of_read`).

If it fails, some of them are neither cached nor what the error is about: the modules between the
root and the failure. Each of them was read and has a directive
(`Derives.exists_directive_of_read`), and the failure depends on its source: a source in its place
that leads to an unreadable path makes the call fail there (`Derives.obstructed`).
-/

namespace ShaderInclude

variable {reader : Reader} {limit : Nat} {referrer : Path} {ancestors : List Path} {task : Task}
  {s s' : CacheState} {r : Except LoadError Module} {q : Path}

/-! ### The paths that are read -/

/-- The paths that were read, in their order. -/
def CacheState.readPaths (s : CacheState) : List Path := s.events.filterMap Event.readPath?

theorem CacheState.mem_readPaths {s : CacheState} {q : Path} :
    q ∈ s.readPaths ↔ .read q ∈ s.events := by
  simp only [readPaths, List.mem_filterMap]
  constructor
  · rintro ⟨e, he, hq⟩
    cases e <;> cases hq
    exact he
  · exact fun h => ⟨_, h, rfl⟩

@[simp]
theorem CacheState.readPaths_note (s : CacheState) (e : Event) :
    (s.note e).readPaths = s.readPaths ++ e.readPath?.toList := by
  rw [readPaths, events_note, List.filterMap_append, readPaths]
  cases h : e.readPath? <;> simp [h]

@[simp]
theorem CacheState.readPaths_withCache (s : CacheState) (c : Cache) :
    (s.withCache c).readPaths = s.readPaths := rfl

/-- Every path that was read is being resolved or has been cached. -/
def CacheState.ReadsAccounted (s : CacheState) (trace : List Path) : Prop :=
  ∀ q ∈ s.readPaths, q ∈ trace ∨ ∃ m, s.cache.get? q = some m

/-- What is requested had not been read before. -/
private theorem nodup_readPaths_requested {trace : List Path} {p : Path}
    (hreads : s.readPaths.Nodup) (hs : s.ReadsAccounted trace) (htrace : p ∉ trace)
    (hcached : s.cache.get? p = none) :
    (s.requested p).readPaths.Nodup ∧ (s.requested p).ReadsAccounted (p :: trace) := by
  have hpaths : (s.requested p).readPaths = s.readPaths ++ [p] := by
    simp [CacheState.requested, Event.readPath?]
  have hnew : p ∉ s.readPaths := by
    intro hp
    obtain hp | ⟨m, hm⟩ := hs p hp
    · exact htrace hp
    · rw [hcached] at hm
      cases hm
  refine ⟨?_, fun q hq => ?_⟩
  · rw [hpaths]
    exact List.nodup_append.mpr ⟨hreads, by simp, by rintro a ha b hb rfl; simp_all⟩
  · rw [hpaths, List.mem_append, List.mem_singleton] at hq
    obtain hq | rfl := hq
    · exact (hs q hq).imp_left (List.mem_cons_of_mem p)
    · exact .inl List.mem_cons_self

/-- **A call reads no path twice**, and none that was read before it. -/
theorem Derives.nodup_readPaths (h : Derives reader limit referrer ancestors task s r s')
    (hreads : s.readPaths.Nodup) (hs : s.ReadsAccounted (referrer :: ancestors)) :
    s'.readPaths.Nodup := by
  induction h with
  | tooDeep | circular | done => exact hreads
  | reused => simpa [Event.readPath?] using hreads
  | unread htrace hcached | noDirectory htrace hcached =>
    exact (nodup_readPaths_requested hreads hs htrace hcached).1
  | failed htrace hcached _ _ _ ih | stored htrace hcached _ _ _ ih =>
    obtain ⟨hreads', hs'⟩ := nodup_readPaths_requested hreads hs htrace hcached
    exact ih hreads' hs'
  | halted _ ih => exact ih hreads hs
  | @spliced _ _ _ _ _ _ _ _ s s₁ _ _ htarget _ ih₁ ih₂ =>
    refine ih₂ (by simpa [Event.readPath?] using ih₁ hreads hs) ?_
    -- what the target has read on its own is cached by now
    intro q hq
    have hread : .read q ∈ s₁.events := by
      simpa [CacheState.mem_readPaths, Event.readPath?] using hq
    by_cases hold : q ∈ s.readPaths
    · exact (hs q hold).imp_right fun ⟨m, hm⟩ => ⟨m, htarget.retains hm⟩
    · exact .inr (htarget.has_of_read rfl hread (mt CacheState.mem_readPaths.mpr hold))

/-- **Locality.** A call depends on its reader only through the paths that it reads. -/
theorem Derives.congr_reader {reader' : Reader}
    (h : Derives reader limit referrer ancestors task s r s')
    (hagree : ∀ q, .read q ∈ s'.events → reader' q = reader q) :
    Derives reader' limit referrer ancestors task s r s' := by
  induction h with
  | tooDeep => exact .tooDeep
  | circular htrace => exact .circular htrace
  | reused htrace hcached => exact .reused htrace hcached
  | unread htrace hcached hread =>
    exact .unread htrace hcached ((hagree _ (by simp)).trans hread)
  | noDirectory htrace hcached hread hdir =>
    exact .noDirectory htrace hcached ((hagree _ (by simp)).trans hread) hdir
  | failed htrace hcached hread hdir hbody ih =>
    have hown := hagree _ (hbody.mem_events CacheState.read_mem_requested)
    exact .failed htrace hcached (hown.trans hread) hdir (ih hagree)
  | stored htrace hcached hread hdir hbody ih =>
    have hown := hagree _ (hbody.mem_events CacheState.read_mem_requested)
    exact .stored htrace hcached (hown.trans hread) hdir (ih hagree)
  | done => exact .done
  | halted _ ih => exact .halted (ih hagree)
  | spliced _ hrest ih₁ ih₂ =>
    refine .spliced (ih₁ fun q hq => hagree q ?_) (ih₂ hagree)
    exact hrest.mem_events (by simp [hq])

/-- A call depends on the state in which it begins through the cache alone. -/
theorem Derives.congr_cache {t : CacheState}
    (h : Derives reader limit referrer ancestors task s r s')
    (ht : t.cache = s.cache) :
    ∃ t', Derives reader limit referrer ancestors task t r t' ∧ t'.cache = s'.cache := by
  induction h generalizing t with
  | tooDeep => exact ⟨t, .tooDeep, ht⟩
  | circular htrace => exact ⟨t, .circular htrace, ht⟩
  | reused htrace hcached => exact ⟨_, .reused htrace (ht ▸ hcached), ht⟩
  | unread htrace hcached hread => exact ⟨_, .unread htrace (ht ▸ hcached) hread, ht⟩
  | noDirectory htrace hcached hread hdir =>
    exact ⟨_, .noDirectory htrace (ht ▸ hcached) hread hdir, ht⟩
  | @failed _ _ _ p _ _ _ _ _ htrace hcached hread hdir _ ih =>
    obtain ⟨t', hbody, ht'⟩ := ih (t := t.requested p) ht
    exact ⟨t', .failed htrace (ht ▸ hcached) hread hdir hbody, ht'⟩
  | @stored _ _ _ p _ _ _ _ m htrace hcached hread hdir _ ih =>
    obtain ⟨t', hbody, ht'⟩ := ih (t := t.requested p) ht
    refine ⟨_, .stored htrace (ht ▸ hcached) hread hdir hbody, ?_⟩
    exact congrArg (·.store p m) ht'
  | done => exact ⟨t, .done, ht⟩
  | halted _ ih =>
    obtain ⟨t', htarget, ht'⟩ := ih ht
    exact ⟨t', .halted htarget, ht'⟩
  | @spliced _ _ _ directory d _ _ _ _ _ _ _ _ _ ih₁ ih₂ =>
    obtain ⟨t₁, htarget, ht₁⟩ := ih₁ ht
    obtain ⟨t', hrest, ht'⟩ :=
      ih₂ (t := t₁.note (.spliced (Path.target directory d.path) d.start d.stop)) ht₁
    exact ⟨t', .spliced htarget hrest, ht'⟩

/-- A path that is being resolved is not read again. -/
theorem Derives.not_mem_trace_of_read (h : Derives reader limit referrer ancestors task s r s')
    (hq : .read q ∈ s'.events) (hnew : .read q ∉ s.events) : q ∉ referrer :: ancestors := by
  induction h with
  | tooDeep | circular | done => exact absurd hq hnew
  | reused => simp [hnew] at hq
  | unread htrace | noDirectory htrace =>
    obtain rfl := by simpa [hnew] using hq
    exact htrace
  | @failed _ _ _ p _ _ _ _ _ htrace _ _ _ _ ih | @stored _ _ _ p _ _ _ _ _ htrace _ _ _ _ ih =>
    by_cases hqp : q = p
    · exact hqp ▸ htrace
    · exact fun hmem =>
        ih (by simpa using hq) (by simpa [hnew] using hqp) (List.mem_cons_of_mem p hmem)
  | halted _ ih => exact ih hq hnew
  | @spliced _ _ _ _ _ _ _ _ _ s₁ _ _ _ _ ih₁ ih₂ =>
    by_cases hmid : .read q ∈ s₁.events
    · exact ih₁ hmid hnew
    · exact ih₂ hq (by simpa using hmid)

/-- **What a call ends with** depends on the cache in which it begins, and on what is stored at paths
that are not being resolved. -/
theorem Task.fst_run_congr {reader' : Reader} {t : CacheState} (task : Task)
    (hreader : ∀ q, q ∉ referrer :: ancestors → reader' q = reader q) (ht : t.cache = s.cache) :
    (task.run reader' limit referrer ancestors t).1 =
      (task.run reader limit referrer ancestors s).1 := by
  -- begun with no events, the call tells of all that it reads
  obtain ⟨s₀, hs₀, -⟩ := (derives_run reader limit referrer ancestors task s).congr_cache
    (t := ⟨s.cache, []⟩) rfl
  have hs₀' := hs₀.congr_reader fun q hq => hreader q (hs₀.not_mem_trace_of_read hq nofun)
  obtain ⟨t', ht', -⟩ := hs₀'.congr_cache (t := t) ht
  rw [ht'.run_eq]

/-- What a call has cached anew could be read. -/
theorem Derives.readable_of_cached (h : Derives reader limit referrer ancestors task s r s')
    {m : Module} (hq : s'.cache.get? q = some m) (hnew : s.cache.get? q = none) :
    ∃ source, reader q = .ok source := by
  induction h generalizing m with
  | tooDeep | circular | done | reused | unread | noDirectory =>
    exact nomatch hnew.symm.trans hq
  | failed _ _ _ _ _ ih => exact ih hq hnew
  | @stored _ _ _ p _ _ _ source _ _ _ hread _ _ ih =>
    by_cases hpq : p = q
    · exact ⟨source, hpq ▸ hread⟩
    · rw [CacheState.cache_withCache, Cache.get?_store, if_neg hpq] at hq
      exact ih hq hnew
  | halted _ ih => exact ih hq hnew
  | @spliced _ _ _ _ _ _ _ _ _ s₁ _ _ _ _ ih₁ ih₂ =>
    cases hmid : s₁.cache.get? q with
    | some m' => exact ih₁ hmid hnew
    | none => exact ih₂ hq hmid

/-- Nothing is checked while modules are resolved. -/
theorem Derives.mem_events_of_checked (h : Derives reader limit referrer ancestors task s r s')
    {code : Text} {verdict : Verdict} (he : .checked code verdict ∈ s'.events) :
    .checked code verdict ∈ s.events := by
  induction h with
  | tooDeep | circular | done => exact he
  | reused | unread | noDirectory => simpa using he
  | failed _ _ _ _ _ ih | stored _ _ _ _ _ ih => simpa using ih he
  | halted _ ih => exact ih he
  | spliced _ _ ih₁ ih₂ => exact ih₁ (by simpa using ih₂ he)

/-! ### Reads of a call that succeeds -/

/-- A module keeps its dependencies while its directives are replaced. -/
theorem Derives.dependencies_subset {directory : Path} {ds : List Directive} {m m' : Module}
    (h : Derives reader limit referrer ancestors (.directives directory ds m) s (.ok m') s') :
    m.dependencies ⊆ m'.dependencies := by
  generalize htask : Task.directives directory ds m = task at h
  generalize hr : Except.ok m' = r at h
  induction h generalizing ds m with
  | tooDeep | circular | reused | unread | noDirectory | failed | stored => cases htask
  | done =>
    cases htask
    cases hr
    exact List.Subset.refl _
  | halted => cases hr
  | spliced _ _ _ ih₂ =>
    cases htask
    intro q hq
    exact ih₂ rfl hr (Module.mem_dependencies_splice.mpr (.inr (.inr hq)))

/-- What a call that succeeds reads, its module depends on. -/
theorem Derives.mem_dependencies_of_read (h : Derives reader limit referrer ancestors task s r s')
    {m : Module} (hr : r = .ok m) (htask : task ≠ .path q) (hq : .read q ∈ s'.events)
    (hnew : .read q ∉ s.events) : q ∈ m.dependencies := by
  induction h generalizing m with
  | tooDeep | circular | unread | noDirectory | failed | halted => cases hr
  | reused => simp [hnew] at hq
  | done => exact absurd hq hnew
  | @stored _ _ _ p _ _ _ _ _ _ _ _ _ _ ih =>
    have hne : p ≠ q := by
      rintro rfl
      exact htask rfl
    exact ih hr nofun (by simpa using hq) (by simpa [hnew] using fun h => hne h.symm)
  | @spliced _ _ _ directory d _ _ included _ s₁ _ _ _ hrest ih₁ ih₂ =>
    by_cases hmid : .read q ∈ s₁.events
    · subst hr
      -- what the target has read comes into the dependencies with the splice
      apply hrest.dependencies_subset
      rw [Module.mem_dependencies_splice]
      by_cases htarget : q = Path.target directory d.path
      · exact .inl htarget
      · exact .inr (.inl (ih₁ rfl (by simpa using Ne.symm htarget) hmid hnew))
    · exact ih₂ hr nofun hq (by simpa using hmid)

/-! ### Reads of a call that fails -/

/-- A fault of a call is that of the nesting or one of its reader. -/
theorem Derives.fault_cases (h : Derives reader limit referrer ancestors task s r s') {f : Fault}
    (hr : r = .error (.fault f)) : f = .nestingTooDeep ∨ ∃ q, reader q = .error (.fault f) := by
  induction h with
  | tooDeep =>
    cases hr
    exact .inl rfl
  | circular | reused | noDirectory | stored | done => cases hr
  | @unread _ _ _ p _ e _ _ hread =>
    cases e with
    | failed => cases hr
    | fault f' =>
      cases hr
      exact .inr ⟨p, hread⟩
  | failed _ _ _ _ _ ih | halted _ ih => exact ih hr
  | spliced _ _ _ ih₂ => exact ih₂ hr

/-- The only fault of a call is that of the nesting, if its reader has none. -/
theorem Derives.fault_eq (h : Derives reader limit referrer ancestors task s r s')
    (hreader : ∀ q f, reader q ≠ .error (.fault f)) {f : Fault} (hr : r = .error (.fault f)) :
    f = .nestingTooDeep :=
  (h.fault_cases hr).resolve_right fun ⟨q, hq⟩ => hreader q f hq

/-- What a failed call has read without caching it, and without its error being about it, has a
source with directives. -/
theorem Derives.exists_directive_of_read (h : Derives reader limit referrer ancestors task s r s')
    {e : ModuleError} (hr : r = .error (.finding e)) (he : e.path? ≠ some q)
    (hcached : s'.cache.get? q = none) (hq : .read q ∈ s'.events) (hnew : .read q ∉ s.events) :
    ∃ source directory, reader q = .ok source ∧ q.directory? = some directory ∧
      Directive.scan source ≠ [] := by
  induction h with
  | tooDeep | reused | stored | done => cases hr
  | circular => exact absurd hq hnew
  | @unread _ _ _ p _ cause =>
    obtain rfl : q = p := by simpa [hnew] using hq
    cases cause with
    | failed =>
      cases hr
      exact absurd rfl he
    | fault => cases hr
  | @noDirectory _ _ _ p =>
    obtain rfl : q = p := by simpa [hnew] using hq
    cases hr
    exact absurd rfl he
  | @failed _ _ _ p directory _ _ source _ _ _ hread hdir hbody ih =>
    by_cases hqp : q = p
    · -- the failure is below, so there is a directive that leads to it
      subst hqp
      refine ⟨source, directory, hread, hdir, fun hscan => ?_⟩
      rw [Task.ofSource, hscan] at hbody
      cases hbody
    · exact ih hr hcached hq (by simpa [hnew] using hqp)
  | halted _ ih => exact ih hr hcached hq hnew
  | @spliced _ _ _ _ _ _ _ _ _ s₁ _ _ htarget hrest _ ih₂ =>
    by_cases hmid : .read q ∈ s₁.events
    · obtain ⟨m, hm⟩ := htarget.has_of_read rfl hmid hnew
      rw [hrest.retains (by exact hm)] at hcached
      cases hcached
    · exact ih₂ hr hcached hq (by simpa using hmid)

/-- The second reader has a source at `q` that leads to the unreadable path `x` alone, and else
agrees with the first. -/
structure Obstructs (reader reader' : Reader) (q x : Path) (cause : ReadFailure) : Prop where
  agree : ∀ p, p ≠ q → reader' p = reader p
  source : ∃ text d, reader' q = .ok text ∧ Directive.scan text = [d] ∧
    ∀ directory, Path.target directory d.path = x
  unreadable : reader x = .error (.failed cause)

/-- Where there are directives, some nesting is left. -/
private theorem Derives.limit_eq_succ {directory : Path} {ds : List Directive} {m : Module}
    (h : Derives reader limit referrer ancestors (.directives directory ds m) s r s')
    (hds : ds ≠ []) (hr : r ≠ .error (.fault .nestingTooDeep)) : ∃ k, limit = k + 1 := by
  cases limit with
  | succ k => exact ⟨k, rfl⟩
  | zero =>
    cases h with
    | done => exact absurd rfl hds
    | halted htarget =>
      cases htarget
      exact absurd rfl hr
    | spliced htarget => cases htarget

variable {reader' : Reader} {x directory : Path} {cause : ReadFailure} {source : Text}

/-- The failure at the path itself: its source leads to the unreadable path, which is reached as
the directives of the old source were. -/
private theorem Obstructs.derives (h : Obstructs reader reader' q x cause)
    (hread : reader q = .ok source) (hdir : q.directory? = some directory)
    (hscan : Directive.scan source ≠ []) (htrace : q ∉ referrer :: ancestors)
    (hcached : s.cache.get? q = none) (hx : x ∉ referrer :: ancestors)
    (hxcached : s.cache.get? x = none) (hr : r ≠ .error (.fault .nestingTooDeep))
    (hbody : Derives reader limit q (referrer :: ancestors) (.ofSource directory source)
      (s.requested q) r s') :
    ∃ s'', Derives reader' (limit + 1) referrer ancestors (.path q) s
      (.error (.finding (.unreadable x cause))) s'' := by
  have hne : x ≠ q := by
    rintro rfl
    exact nomatch hread.symm.trans h.unreadable
  obtain ⟨k, rfl⟩ := hbody.limit_eq_succ (by simpa using hscan) hr
  obtain ⟨text, d, hread', hscan', htarget⟩ := h.source
  have hx' : x ∉ q :: referrer :: ancestors := List.not_mem_cons_of_ne_of_not_mem hne hx
  have hunread : Derives reader' (k + 1) q (referrer :: ancestors)
      (.path (Path.target directory d.path)) (s.requested q)
      (.error (SourceError.at x (.failed cause))) ((s.requested q).requested x) := by
    rw [htarget]
    exact .unread hx' hxcached ((h.agree x hne).trans h.unreadable)
  have hbody' : Derives reader' (k + 1) q (referrer :: ancestors) (.ofSource directory text)
      (s.requested q) (.error (.finding (.unreadable x cause))) ((s.requested q).requested x) := by
    rw [Task.ofSource, hscan']
    exact .halted hunread
  exact ⟨_, .failed htrace hcached hread' hdir hbody'⟩

/-- The failure at a path that is resolved: it is there or below, as `q` is read there or below. -/
private theorem Obstructs.resolved {p directory' : Path} {source' : Text}
    (h : Obstructs reader reader' q x cause) (hread : reader q = .ok source)
    (hdir : q.directory? = some directory) (hscan : Directive.scan source ≠ [])
    (htrace : p ∉ referrer :: ancestors) (hcached : s.cache.get? p = none)
    (hread' : reader p = .ok source') (hdir' : p.directory? = some directory')
    (hx : x ∉ referrer :: ancestors) (hr : r ≠ .error (.fault .nestingTooDeep))
    (hbody : Derives reader limit p (referrer :: ancestors) (.ofSource directory' source')
      (s.requested p) r s')
    (hxcached : s'.cache.get? x = none)
    (hbelow : q ≠ p → ∃ s'', Derives reader' limit p (referrer :: ancestors)
      (.ofSource directory' source') (s.requested p)
      (.error (.finding (.unreadable x cause))) s'') :
    ∃ s'', Derives reader' (limit + 1) referrer ancestors (.path p) s
      (.error (.finding (.unreadable x cause))) s'' := by
  by_cases hqp : q = p
  · subst hqp
    obtain rfl := Except.ok.inj (hread.symm.trans hread')
    obtain rfl := Option.some.inj (hdir.symm.trans hdir')
    exact h.derives hread hdir hscan htrace hcached hx (hbody.uncached_before hxcached) hr hbody
  · obtain ⟨s'', hbody'⟩ := hbelow hqp
    exact ⟨s'', .failed htrace hcached ((h.agree p (Ne.symm hqp)).trans hread') hdir' hbody'⟩

/-- **A failure depends on every source on its way.** If a call has read a path with directives, a
source in their place that leads to an unreadable path makes the call fail there. -/
theorem Derives.obstructed (h : Derives reader limit referrer ancestors task s r s')
    (hobstructs : Obstructs reader reader' q x cause) (hread : reader q = .ok source)
    (hdir : q.directory? = some directory) (hscan : Directive.scan source ≠ [])
    (hr : r ≠ .error (.fault .nestingTooDeep)) (hx : x ∉ referrer :: ancestors)
    (hxcached : s'.cache.get? x = none) (hq : .read q ∈ s'.events) (hnew : .read q ∉ s.events) :
    ∃ s'', Derives reader' limit referrer ancestors task s
      (.error (.finding (.unreadable x cause))) s'' := by
  have hne : ∀ {p : Path} {source : Text}, reader p = .ok source → x ≠ p := by
    rintro p source hp rfl
    exact nomatch hp.symm.trans hobstructs.unreadable
  induction h with
  | tooDeep => exact absurd rfl hr
  | circular | done => exact absurd hq hnew
  | reused => simp [hnew] at hq
  | @unread _ _ _ p _ _ _ _ hread' =>
    obtain rfl : q = p := by simpa [hnew] using hq
    exact nomatch hread.symm.trans hread'
  | @noDirectory _ _ _ p _ _ _ _ _ hdir' =>
    obtain rfl : q = p := by simpa [hnew] using hq
    exact nomatch hdir.symm.trans hdir'
  | @failed _ _ _ p _ _ _ _ _ htrace hcached hread' hdir' hbody ih =>
    refine hobstructs.resolved hread hdir hscan htrace hcached hread' hdir' hx hr hbody hxcached ?_
    intro hqp
    have hx' := List.not_mem_cons_of_ne_of_not_mem (hne hread') hx
    exact ih hr hx' hxcached hq (by simpa [hnew] using hqp)
  | @stored _ _ _ p _ _ s₁ _ _ htrace hcached hread' hdir' hbody ih =>
    have hxbody : s₁.cache.get? x = none := by
      rw [CacheState.cache_withCache, Cache.get?_store, if_neg (Ne.symm (hne hread'))] at hxcached
      exact hxcached
    refine hobstructs.resolved hread hdir hscan htrace hcached hread' hdir' hx hr hbody hxbody ?_
    intro hqp
    have hx' := List.not_mem_cons_of_ne_of_not_mem (hne hread') hx
    exact ih hr hx' hxbody hq (by simpa [hnew] using hqp)
  | halted _ ih =>
    obtain ⟨s'', h⟩ := ih hr hx hxcached hq hnew
    exact ⟨s'', .halted h⟩
  | @spliced _ _ _ _ _ _ _ _ _ s₁ _ _ htarget hrest ih₁ ih₂ =>
    by_cases hmid : .read q ∈ s₁.events
    · obtain ⟨s'', h⟩ := ih₁ nofun hx (hrest.uncached_before hxcached) hmid hnew
      exact ⟨s'', .halted h⟩
    · -- the target was resolved without the path, so it still is
      have htarget' : Derives reader' _ _ _ _ _ _ s₁ := htarget.congr_reader fun p hp =>
        hobstructs.agree p (by rintro rfl; exact hmid hp)
      obtain ⟨s'', h⟩ := ih₂ hr hx hxcached hq (by simpa using hmid)
      exact ⟨s'', .spliced htarget' h⟩

end ShaderInclude
