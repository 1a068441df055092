import ShaderInclude.Proofs.Resolution.Reads

/-!
# Calls of a cache

A cache is used through four calls: a root is loaded from a supplied source or from its path, a
module is taken out, or all are dropped. `Call.after` is the state after a call, with the events
of this call only, and `cacheAfter` the cache after a sequence of calls. Every call comes with the
loader that serves it, so that between two calls the sources may change, and with them the
validator.

`Rooted` and `Loads` say, by one constructor for each way in which it ends, what the loading of a
root does; `rooted_root` and `loads_loadCanonical` derive them from the functions.
-/

namespace ShaderInclude

namespace Loader

variable (l : Loader)

/-- The error for which the validator refuses a flattened source, if it does. -/
def refusal? (code : Text) : Option ModuleError :=
  l.validator.bind fun validator => errorOf? (validator code)

/-- The state after a flattened source was handed to the validator, if there is one. -/
def checked (code : Text) (s : CacheState) : CacheState :=
  match l.validator with
  | none => s
  | some validator => s.note (.checked code (validator code))

@[simp]
theorem cache_checked (code : Text) (s : CacheState) : (l.checked code s).cache = s.cache := by
  unfold checked
  split <;> rfl

/-- A check reads nothing. -/
@[simp]
theorem readPaths_checked (code : Text) (s : CacheState) :
    (l.checked code s).readPaths = s.readPaths := by
  unfold checked
  split <;> simp [Event.readPath?]

theorem read_mem_checked {code : Text} {s : CacheState} {q : Path} :
    .read q ∈ (l.checked code s).events ↔ .read q ∈ s.events := by
  simp [← CacheState.mem_readPaths]

/-- What happened before a check stands before it. -/
theorem events_prefix_checked (code : Text) (s : CacheState) :
    s.events <+: (l.checked code s).events := by
  unfold checked
  split
  · exact List.prefix_rfl
  · exact List.prefix_append _ _

/-- The validator runs on the code of a path that has no mark, and what it accepts is marked. -/
theorem check_eq (p : Path) (code : Text) (s : CacheState) :
    l.check p code s =
      if p ∈ s.cache.accepted then (.ok (), s)
      else match l.refusal? code with
        | some e => (.error (.finding e), l.checked code s)
        | none => (.ok (), (l.checked code s).withCache (s.cache.accept p)) := by
  unfold check refusal? checked
  split
  · rfl
  · cases l.validator with
    | none => rfl
    | some validator =>
      simp only [Option.bind_some]
      cases errorOf? (validator code) <;> rfl

/-- The state after a root that passed its check is committed. -/
def committed (p : Path) (supplied : Option Text) (m : Module) (s : CacheState) : CacheState :=
  let s := if supplied.isSome && s.cache.has p then evict p s else s
  s.withCache (s.cache.store p m)

/-- After a commit the path has the new module, and every other cached module was cached
before. -/
theorem get?_committed {p q : Path} {supplied : Option Text} {m m' : Module} {s : CacheState}
    (h : (committed p supplied m s).cache.get? q = some m') :
    q = p ∧ m' = m ∨ q ≠ p ∧ s.cache.get? q = some m' := by
  unfold committed at h
  by_cases hpq : p = q
  · subst hpq
    simp only [CacheState.cache_withCache, Cache.get?_store, if_true, Option.some.injEq] at h
    exact .inl ⟨rfl, h.symm⟩
  · refine .inr ⟨Ne.symm hpq, ?_⟩
    simp only [CacheState.cache_withCache, Cache.get?_store, hpq, if_false] at h
    split at h
    · simp only [evict, Cache.get?_evictIncluders, Option.filter_eq_some_iff] at h
      exact h.1
    · exact h

/-- A commit tells of nothing but evictions. -/
theorem events_committed (p : Path) (supplied : Option Text) (m : Module) (s : CacheState) :
    ∃ evictions, (committed p supplied m s).events = s.events ++ evictions ∧
      ∀ e ∈ evictions, ∃ q, e = .evicted q p := by
  unfold committed
  split
  · refine ⟨_, rfl, fun e he => ?_⟩
    obtain ⟨q, -, rfl⟩ := List.mem_map.mp he
    exact ⟨q, rfl⟩
  · exact ⟨[], (List.append_nil _).symm, nofun⟩

/-- What happened before a commit stands before it. -/
theorem events_prefix_committed (p : Path) (supplied : Option Text) (m : Module) (s : CacheState) :
    s.events <+: (committed p supplied m s).events := by
  obtain ⟨evictions, hevents, -⟩ := events_committed p supplied m s
  rw [hevents]
  exact List.prefix_append _ _

/-- A commit checks nothing. -/
theorem checked_mem_committed {p : Path} {supplied : Option Text} {m : Module} {s : CacheState}
    {code : Text} {verdict : Verdict} :
    .checked code verdict ∈ (committed p supplied m s).events ↔
      .checked code verdict ∈ s.events := by
  unfold committed
  split <;> simp [evict]

/-- What a commit makes of the cache depends on the cache alone. -/
theorem cache_committed_congr {p : Path} {supplied : Option Text} {m : Module} {s s' : CacheState}
    (h : s.cache = s'.cache) :
    (committed p supplied m s).cache = (committed p supplied m s').cache := by
  unfold committed
  rw [h]
  split <;> simp [evict, h]

/-- A commit reads nothing. -/
@[simp]
theorem readPaths_committed (p : Path) (supplied : Option Text) (m : Module) (s : CacheState) :
    (committed p supplied m s).readPaths = s.readPaths := by
  unfold committed
  split <;> simp [evict, CacheState.readPaths, Event.readPath?]

theorem read_mem_committed {p q : Path} {supplied : Option Text} {m : Module} {s : CacheState} :
    .read q ∈ (committed p supplied m s).events ↔ .read q ∈ s.events := by
  simp [← CacheState.mem_readPaths]

end Loader

variable {l : Loader} {p directory : Path} {supplied : Option Text} {s : CacheState}

/-- **Where the source of a root comes from**, and the state once it is there. -/
inductive RootSource (l : Loader) (p : Path) (s : CacheState) :
    (supplied : Option Text) → Text → CacheState → Prop
  | supplied {source : Text} : RootSource l p s (some source) source s
  | read {source : Text} (hcached : s.cache.get? p = none) (hread : l.reader p = .ok source) :
    RootSource l p s none source (s.note (.read p))

theorem RootSource.cache_eq {source : Text} {s₀ : CacheState}
    (h : RootSource l p s supplied source s₀) : s₀.cache = s.cache := by
  cases h <;> rfl

/-- **The module of a root before its check.** -/
inductive Rooted (l : Loader) (p directory : Path) (supplied : Option Text) (s : CacheState) :
    Except LoadError Module → CacheState → Prop
  | cached {m : Module} (hsupplied : supplied = none) (hcached : s.cache.get? p = some m) :
    Rooted l p directory supplied s (.ok m) s
  | unread {e : SourceError} (hsupplied : supplied = none) (hcached : s.cache.get? p = none)
      (hread : l.reader p = .error e) :
    Rooted l p directory supplied s (.error (e.at p)) (s.note (.read p))
  | failed {source : Text} {s₀ s' : CacheState} {e : LoadError}
      (hsource : RootSource l p s supplied source s₀)
      (hbody : Derives l.reader l.limit p [] (.ofSource directory source) s₀ (.error e) s') :
    Rooted l p directory supplied s (.error e) s'
  | resolved {source : Text} {s₀ s' : CacheState} {m : Module}
      (hsource : RootSource l p s supplied source s₀)
      (hbody : Derives l.reader l.limit p [] (.ofSource directory source) s₀ (.ok m) s') :
    Rooted l p directory supplied s (.ok m) (s'.withCache (s'.cache.unaccept p))

/-- **The loading of a root.** -/
inductive Loads (l : Loader) (p : Path) (supplied : Option Text) (s : CacheState) :
    Except LoadError Module → CacheState → Prop
  | noDirectory (hdir : p.directory? = none) :
    Loads l p supplied s (.error (.finding (.noDirectory p))) s
  | unrooted {directory : Path} {e : LoadError} {s' : CacheState}
      (hdir : p.directory? = some directory)
      (hroot : Rooted l p directory supplied s (.error e) s') :
    Loads l p supplied s (.error e) s'
  | refused {directory : Path} {m : Module} {s₁ : CacheState} {e : ModuleError}
      (hdir : p.directory? = some directory) (hroot : Rooted l p directory supplied s (.ok m) s₁)
      (hmark : p ∉ s₁.cache.accepted) (hrefusal : l.refusal? m.code = some e) :
    Loads l p supplied s (.error (.finding e)) (l.checked m.code s₁)
  | marked {directory : Path} {m : Module} {s₁ : CacheState}
      (hdir : p.directory? = some directory) (hroot : Rooted l p directory supplied s (.ok m) s₁)
      (hmark : p ∈ s₁.cache.accepted) :
    Loads l p supplied s (.ok m) (Loader.committed p supplied m s₁)
  | passed {directory : Path} {m : Module} {s₁ : CacheState}
      (hdir : p.directory? = some directory) (hroot : Rooted l p directory supplied s (.ok m) s₁)
      (hmark : p ∉ s₁.cache.accepted) (hrefusal : l.refusal? m.code = none) :
    Loads l p supplied s (.ok m)
      (Loader.committed p supplied m ((l.checked m.code s₁).withCache (s₁.cache.accept p)))

private theorem rooted_resolveRoot {source : Text} {s₀ : CacheState}
    (hsource : RootSource l p s supplied source s₀) :
    Rooted l p directory supplied s (l.resolveRoot p directory source s₀).1
      (l.resolveRoot p directory source s₀).2 := by
  have hbody := derives_run l.reader l.limit p [] (.ofSource directory source) s₀
  rw [← expandSource_eq_run] at hbody
  unfold Loader.resolveRoot
  rcases hexp : expandSource (resolve l.reader l.limit p []) directory source s₀ with ⟨_ | m, s₁⟩
  · rw [hexp] at hbody
    exact .failed hsource hbody
  · rw [hexp] at hbody
    exact .resolved hsource hbody

theorem rooted_root (l : Loader) (p directory : Path) (supplied : Option Text) (s : CacheState) :
    Rooted l p directory supplied s (l.root p directory supplied s).1
      (l.root p directory supplied s).2 := by
  cases supplied with
  | some source => exact rooted_resolveRoot .supplied
  | none =>
    unfold Loader.root
    cases hcached : s.cache.get? p with
    | some m => exact .cached rfl hcached
    | none =>
      cases hread : l.reader p with
      | error e => simpa [hread] using .unread rfl hcached hread
      | ok source => simpa [hread] using rooted_resolveRoot (.read hcached hread)

theorem loads_loadCanonical (l : Loader) (p : Path) (supplied : Option Text) (s : CacheState) :
    Loads l p supplied s (l.loadCanonical p supplied s).1 (l.loadCanonical p supplied s).2 := by
  unfold Loader.loadCanonical
  cases hdir : p.directory? with
  | none => exact .noDirectory hdir
  | some directory =>
    have hroot := rooted_root l p directory supplied s
    rcases hres : l.root p directory supplied s with ⟨e | m, s₁⟩
    · rw [hres] at hroot
      simpa [hres] using .unrooted hdir hroot
    rw [hres] at hroot
    simp only [hres, Loader.check_eq]
    by_cases hmark : p ∈ s₁.cache.accepted
    · simp only [if_pos hmark]
      exact .marked hdir hroot hmark
    · simp only [if_neg hmark]
      cases hrefusal : l.refusal? m.code with
      | some e => exact .refused hdir hroot hmark hrefusal
      | none => exact .passed hdir hroot hmark hrefusal

theorem RootSource.root_eq {source : Text} {s₀ : CacheState}
    (h : RootSource l p s supplied source s₀) :
    l.root p directory supplied s = l.resolveRoot p directory source s₀ := by
  cases h with
  | supplied => rfl
  | read hcached hread => simp only [Loader.root, hcached, hread]

private theorem Loader.resolveRoot_eq {source : Text} {s₀ s' : CacheState}
    {r : Except LoadError Module}
    (hbody : Derives l.reader l.limit p [] (.ofSource directory source) s₀ r s') :
    l.resolveRoot p directory source s₀ =
      match r with
      | .error e => (.error e, s')
      | .ok m => (.ok m, s'.withCache (s'.cache.unaccept p)) := by
  have hrun := hbody.run_eq
  rw [← expandSource_eq_run] at hrun
  unfold Loader.resolveRoot
  rw [hrun]
  cases r <;> rfl

/-- What is derived of a root is its outcome. -/
theorem Rooted.root_eq {r : Except LoadError Module} {s' : CacheState}
    (h : Rooted l p directory supplied s r s') : l.root p directory supplied s = (r, s') := by
  cases h with
  | cached hsupplied hcached =>
    subst hsupplied
    simp only [Loader.root, hcached]
  | unread hsupplied hcached hread =>
    subst hsupplied
    simp only [Loader.root, hcached, hread]
  | failed hsource hbody | resolved hsource hbody =>
    rw [hsource.root_eq, Loader.resolveRoot_eq hbody]

/-- What is derived of a load is its outcome. -/
theorem Loads.loadCanonical_eq {r : Except LoadError Module} {s' : CacheState}
    (h : Loads l p supplied s r s') : l.loadCanonical p supplied s = (r, s') := by
  unfold Loader.loadCanonical
  cases h with
  | noDirectory hdir => rw [hdir]
  | unrooted hdir hroot => simp only [hdir, hroot.root_eq]
  | refused hdir hroot hmark hrefusal =>
    simp only [hdir, hroot.root_eq, Loader.check_eq, if_neg hmark, hrefusal]
  | marked hdir hroot hmark =>
    simp only [hdir, hroot.root_eq, Loader.check_eq, if_pos hmark]
    rfl
  | passed hdir hroot hmark hrefusal =>
    simp only [hdir, hroot.root_eq, Loader.check_eq, if_neg hmark, hrefusal]
    rfl

/-- A load that succeeds has resolved its root, marked it and committed it. -/
theorem Loads.exists_committed {m : Module} {s' : CacheState}
    (h : Loads l p supplied s (.ok m) s') :
    ∃ directory s₁ s₂, p.directory? = some directory ∧
      Rooted l p directory supplied s (.ok m) s₁ ∧
      (∀ q, s₂.cache.get? q = s₁.cache.get? q) ∧
      (∀ q, q ∈ s₂.cache.accepted ↔ q = p ∨ q ∈ s₁.cache.accepted) ∧
      s' = Loader.committed p supplied m s₂ := by
  cases h with
  | @marked directory _ s₁ hdir hroot hmark =>
    refine ⟨directory, s₁, s₁, hdir, hroot, fun _ => rfl, fun q => ?_, rfl⟩
    exact (or_iff_right_of_imp fun hq => hq ▸ hmark).symm
  | @passed directory _ s₁ hdir hroot =>
    exact ⟨directory, s₁, (l.checked m.code s₁).withCache (s₁.cache.accept p), hdir, hroot,
      fun _ => rfl, fun _ => Cache.mem_accepted_accept, rfl⟩

/-- **How the outcome of a load comes from that of its source**: the load fails where resolving the
source fails, and beyond that it may only refuse the code. -/
inductive Settles : Except LoadError Module → CacheState → Except LoadError Module → CacheState →
    Prop
  | failed {e : LoadError} {s₁ : CacheState} : Settles (.error e) s₁ (.error e) s₁
  | passed {m : Module} {s₁ s' : CacheState} : Settles (.ok m) s₁ (.ok m) s'
  | refused {m : Module} {e : ModuleError} {s₁ s' : CacheState}
      (hsame : ∀ q, s'.cache.get? q = s₁.cache.get? q) :
    Settles (.ok m) s₁ (.error (.finding e)) s'

/-- The load of a supplied source resolves this source, unless its path has no directory. -/
theorem Loads.exists_body {text : Text} {r : Except LoadError Module} {s' : CacheState}
    (h : Loads l p (some text) s r s') :
    r = .error (.finding (.noDirectory p)) ∧ s' = s ∨
      ∃ directory r₀ s₁, p.directory? = some directory ∧
        Derives l.reader l.limit p [] (.ofSource directory text) s r₀ s₁ ∧
        s'.readPaths = s₁.readPaths ∧ Settles r₀ s₁ r s' := by
  cases h with
  | noDirectory => exact .inl ⟨rfl, rfl⟩
  | unrooted hdir hroot =>
    cases hroot with
    | unread hsupplied => cases hsupplied
    | failed hsource hbody =>
      cases hsource
      exact .inr ⟨_, _, _, hdir, hbody, rfl, .failed⟩
  | refused hdir hroot =>
    cases hroot with
    | cached hsupplied => cases hsupplied
    | resolved hsource hbody =>
      cases hsource
      exact .inr ⟨_, _, _, hdir, hbody, by simp, .refused (by simp)⟩
  | marked hdir hroot | passed hdir hroot =>
    cases hroot with
    | cached hsupplied => cases hsupplied
    | resolved hsource hbody =>
      cases hsource
      exact .inr ⟨_, _, _, hdir, hbody, by simp, .passed⟩

/-! ### What a load depends on -/

section Congr

variable {l' : Loader} {r : Except LoadError Module} {s' : CacheState}

private theorem RootSource.congr {source : Text} {s₀ : CacheState}
    (h : RootSource l p s supplied source s₀)
    (hreader : ∀ q, .read q ∈ s₀.events → l'.reader q = l.reader q) :
    RootSource l' p s supplied source s₀ := by
  cases h with
  | supplied => exact .supplied
  | read hcached hread => exact .read hcached ((hreader p (by simp)).trans hread)

private theorem Rooted.congr (h : Rooted l p directory supplied s r s')
    (hlimit : l'.limit = l.limit) (hreader : ∀ q, .read q ∈ s'.events → l'.reader q = l.reader q) :
    Rooted l' p directory supplied s r s' := by
  cases h with
  | cached hsupplied hcached => exact .cached hsupplied hcached
  | unread hsupplied hcached hread =>
    exact .unread hsupplied hcached ((hreader p (by simp)).trans hread)
  | failed hsource hbody =>
    refine .failed (hsource.congr fun q hq => hreader q (hbody.mem_events hq)) ?_
    rw [hlimit]
    exact hbody.congr_reader hreader
  | resolved hsource hbody =>
    refine .resolved (hsource.congr fun q hq => hreader q (hbody.mem_events hq)) ?_
    rw [hlimit]
    exact hbody.congr_reader hreader

/-- A load that succeeds depends on its loader only through the paths that it reads and through what
is not refused. -/
theorem Loads.congr_ok {m : Module} (h : Loads l p supplied s (.ok m) s')
    (hlimit : l'.limit = l.limit) (hreader : ∀ q, .read q ∈ s'.events → l'.reader q = l.reader q)
    (hrefusal : ∀ code, l.refusal? code = none → l'.refusal? code = none) :
    ∃ s'', Loads l' p supplied s (.ok m) s'' ∧ s''.cache = s'.cache ∧
      s''.readPaths = s'.readPaths := by
  simp only [← CacheState.mem_readPaths] at hreader
  cases h with
  | marked hdir hroot hmark =>
    simp only [Loader.readPaths_committed, CacheState.mem_readPaths] at hreader
    exact ⟨_, .marked hdir (hroot.congr hlimit hreader) hmark, rfl, rfl⟩
  | passed hdir hroot hmark hcode =>
    simp only [Loader.readPaths_committed, CacheState.readPaths_withCache,
      Loader.readPaths_checked, CacheState.mem_readPaths] at hreader
    refine ⟨_, .passed hdir (hroot.congr hlimit hreader) hmark (hrefusal _ hcode), ?_, ?_⟩
    · exact Loader.cache_committed_congr rfl
    · simp

/-- A load depends on its loader only through the paths that it reads and through what is
refused. -/
theorem Loads.congr (h : Loads l p supplied s r s') (hlimit : l'.limit = l.limit)
    (hreader : ∀ q, .read q ∈ s'.events → l'.reader q = l.reader q)
    (hrefusal : ∀ code, l'.refusal? code = l.refusal? code) :
    ∃ s'', Loads l' p supplied s r s'' ∧ s''.cache = s'.cache ∧ s''.readPaths = s'.readPaths := by
  cases r with
  | ok m => exact h.congr_ok hlimit hreader fun code hcode => (hrefusal code).trans hcode
  | error e =>
    cases h with
    | noDirectory hdir => exact ⟨_, .noDirectory hdir, rfl, rfl⟩
    | unrooted hdir hroot =>
      exact ⟨_, .unrooted hdir (hroot.congr hlimit hreader), rfl, rfl⟩
    | refused hdir hroot hmark hcode =>
      simp only [Loader.read_mem_checked] at hreader
      have hcode' := (hrefusal _).trans hcode
      exact ⟨_, .refused hdir (hroot.congr hlimit hreader) hmark hcode', by simp, by simp⟩

end Congr

/-! ### Checks of a root -/

section Checks

variable {r : Except LoadError Module} {s' : CacheState} {code : Text} {verdict : Verdict}

/-- Nothing is checked before the module of a root is there. -/
theorem Rooted.mem_events_of_checked (h : Rooted l p directory supplied s r s')
    (he : .checked code verdict ∈ s'.events) : .checked code verdict ∈ s.events := by
  have hsource : ∀ {source s₀}, RootSource l p s supplied source s₀ →
      .checked code verdict ∈ s₀.events → .checked code verdict ∈ s.events := by
    intro source s₀ hsource h₀
    cases hsource with
    | supplied => exact h₀
    | read => simpa using h₀
  cases h with
  | cached => exact he
  | unread => simpa using he
  | failed h hbody => exact hsource h (hbody.mem_events_of_checked he)
  | resolved h hbody => exact hsource h (hbody.mem_events_of_checked he)

/-- What a load reports of a check is the verdict of its validator. -/
theorem Loads.verdict_eq (h : Loads l p supplied s r s')
    (he : .checked code verdict ∈ s'.events) (hnew : .checked code verdict ∉ s.events) :
    ∃ validator, l.validator = some validator ∧ verdict = validator code := by
  have hchecked : ∀ {s₁ : CacheState} {m : Module}, .checked code verdict ∉ s₁.events →
      .checked code verdict ∈ (l.checked m.code s₁).events →
      ∃ validator, l.validator = some validator ∧ verdict = validator code := by
    intro s₁ m hold h
    unfold Loader.checked at h
    split at h
    · exact absurd h hold
    · next validator hvalidator =>
      obtain ⟨rfl, rfl⟩ : code = m.code ∧ verdict = validator m.code := by simpa [hold] using h
      exact ⟨validator, hvalidator, rfl⟩
  cases h with
  | noDirectory => exact absurd he hnew
  | unrooted _ hroot => exact absurd (hroot.mem_events_of_checked he) hnew
  | refused _ hroot => exact hchecked (fun h => hnew (hroot.mem_events_of_checked h)) he
  | marked _ hroot =>
    rw [Loader.checked_mem_committed] at he
    exact absurd (hroot.mem_events_of_checked he) hnew
  | passed _ hroot =>
    rw [Loader.checked_mem_committed] at he
    exact hchecked (fun h => hnew (hroot.mem_events_of_checked h)) he

end Checks

/-! ### Reads of a root -/

private theorem RootSource.nodup_readPaths {c : Cache} {source : Text} {s₀ s' : CacheState}
    {r : Except LoadError Module} (h : RootSource l p ⟨c, []⟩ supplied source s₀)
    (hbody : Derives l.reader l.limit p [] (.ofSource directory source) s₀ r s') :
    s'.readPaths.Nodup := by
  cases h with
  | supplied => exact hbody.nodup_readPaths List.nodup_nil nofun
  | read =>
    have hpaths : ((⟨c, []⟩ : CacheState).note (.read p)).readPaths = [p] := by
      simp [CacheState.readPaths, Event.readPath?]
    refine hbody.nodup_readPaths (by simp [hpaths]) fun q hq => ?_
    rw [hpaths] at hq
    exact .inl hq

private theorem Rooted.nodup_readPaths {c : Cache} {r : Except LoadError Module} {s' : CacheState}
    (h : Rooted l p directory supplied ⟨c, []⟩ r s') : s'.readPaths.Nodup := by
  cases h with
  | cached => exact List.nodup_nil
  | unread => simp [CacheState.readPaths, Event.readPath?]
  | failed hsource hbody => exact hsource.nodup_readPaths hbody
  | resolved hsource hbody =>
    rw [CacheState.readPaths_withCache]
    exact hsource.nodup_readPaths hbody

/-- The loading of a root reads no path twice. -/
theorem Loads.nodup_readPaths {c : Cache} {r : Except LoadError Module} {s' : CacheState}
    (h : Loads l p supplied ⟨c, []⟩ r s') : s'.readPaths.Nodup := by
  cases h with
  | noDirectory => exact List.nodup_nil
  | unrooted _ hroot => exact hroot.nodup_readPaths
  | refused _ hroot => simpa using hroot.nodup_readPaths
  | marked _ hroot | passed _ hroot => simpa using hroot.nodup_readPaths

/-- A load that succeeds depends on all that it reads, its own stored source apart. -/
theorem Loads.mem_dependencies_of_read {c : Cache} {m : Module} {s' : CacheState} {q : Path}
    (h : Loads l p supplied ⟨c, []⟩ (.ok m) s') (hq : .read q ∈ s'.events) :
    supplied = none ∧ q = p ∨ q ∈ m.dependencies := by
  have hrooted : ∀ {directory : Path} {s₁ : CacheState},
      Rooted l p directory supplied ⟨c, []⟩ (.ok m) s₁ → .read q ∈ s₁.events →
      supplied = none ∧ q = p ∨ q ∈ m.dependencies := by
    intro directory s₁ hroot hq
    cases hroot with
    | cached => cases hq
    | resolved hsource hbody =>
      cases hsource with
      | supplied => exact .inr (hbody.mem_dependencies_of_read rfl nofun hq List.not_mem_nil)
      | read =>
        by_cases hqp : q = p
        · exact .inl ⟨rfl, hqp⟩
        · exact .inr (hbody.mem_dependencies_of_read rfl nofun hq (by simpa using hqp))
  cases h with
  | marked _ hroot =>
    rw [Loader.read_mem_committed] at hq
    exact hrooted hroot hq
  | passed _ hroot =>
    rw [Loader.read_mem_committed, CacheState.events_withCache, Loader.read_mem_checked] at hq
    exact hrooted hroot hq

/-! ### Sequences of calls -/

/-- What can be asked of a cache. -/
inductive Call where
  | load (p : Path) (source : Text)
  | loadFromPath (p : Path)
  | detach (p : Path)
  | clear

namespace Call

/-- The source that a call supplies. -/
def supplied? : Call → Option Text
  | load _ source => some source
  | loadFromPath _ | detach _ | clear => none

/-- The state after a call, with the events of this call. -/
def after (l : Loader) (c : Cache) : Call → CacheState
  | load p source => (l.load p source ⟨c, []⟩).2
  | loadFromPath p => (l.loadFromPath p ⟨c, []⟩).2
  | detach p => ⟨(c.detach p).2, []⟩
  | clear => ⟨c.clear, []⟩

/-- The module that a call hands out, with its path. -/
def handedOut? (l : Loader) (c : Cache) : Call → Option (Path × Module)
  | load p source => (l.load p source ⟨c, []⟩).1.toOption.map fun m => (p.normal, m)
  | loadFromPath p => (l.loadFromPath p ⟨c, []⟩).1.toOption.map fun m => (p.normal, m)
  | detach p => (c.detach p).1.map fun m => (p.normal, m)
  | clear => none

/-- The canonical path of the root that a call loads, with the source if the call supplies it. -/
def root? : Call → Option (Path × Option Text)
  | load p source => some (p.normal, some source)
  | loadFromPath p => some (p.normal, none)
  | detach _ | clear => none

theorem isCanonical_of_root? {call : Call} (h : call.root? = some (p, supplied)) :
    p.IsCanonical := by
  cases call with
  | load p' source | loadFromPath p' =>
    obtain ⟨rfl, -⟩ := Prod.mk.injEq .. ▸ Option.some.inj h
    exact Path.normal_isCanonical p'
  | detach | clear => cases h

/-- **What a call does**, with the module that it hands out and the state after it: it loads a
root, or it drops cached modules. -/
inductive Served (l : Loader) (c : Cache) (call : Call) :
    Option (Path × Module) → CacheState → Prop
  | loaded {p : Path} {supplied : Option Text} {result : Except LoadError Module} {s' : CacheState}
      (hroot : call.root? = some (p, supplied)) (hloads : Loads l p supplied ⟨c, []⟩ result s') :
    Served l c call (result.toOption.map fun m => (p, m)) s'
  | dropped {handed : Option (Path × Module)} {c' : Cache} (hroot : call.root? = none)
      (hcached : ∀ q m, c'.get? q = some m → c.get? q = some m)
      (hhanded : ∀ q m, handed = some (q, m) → c.get? q = some m) :
    Served l c call handed ⟨c', []⟩

theorem served (l : Loader) (c : Cache) (call : Call) :
    call.Served l c (call.handedOut? l c) (call.after l c) := by
  cases call with
  | load p source => exact .loaded rfl (loads_loadCanonical l p.normal (some source) ⟨c, []⟩)
  | loadFromPath p => exact .loaded rfl (loads_loadCanonical l p.normal none ⟨c, []⟩)
  | detach p =>
    refine .dropped rfl (fun q m hq => ?_) fun q m hq => ?_
    · rw [Cache.get?_detach] at hq
      split at hq
      · cases hq
      · exact hq
    · simp only [handedOut?, Cache.detach, Option.map_eq_some_iff, Prod.mk.injEq] at hq
      obtain ⟨m', hm', rfl, rfl⟩ := hq
      exact hm'
  | clear => exact .dropped rfl nofun nofun

/-- A call with a root loads it. -/
theorem exists_loads (l : Loader) (c : Cache) {call : Call} (h : call.root? = some (p, supplied)) :
    ∃ r, Loads l p supplied ⟨c, []⟩ r (call.after l c) ∧
      call.handedOut? l c = r.toOption.map fun m => (p, m) := by
  cases call with
  | load p' source =>
    cases h
    exact ⟨_, loads_loadCanonical l p'.normal (some source) ⟨c, []⟩, rfl⟩
  | loadFromPath p' =>
    cases h
    exact ⟨_, loads_loadCanonical l p'.normal none ⟨c, []⟩, rfl⟩
  | detach | clear => cases h

/-- A call of a cache reads no path twice. -/
theorem nodup_readPaths (l : Loader) (c : Cache) (call : Call) :
    (call.after l c).readPaths.Nodup := by
  generalize hafter : call.after l c = s'
  have hserved := call.served l c
  rw [hafter] at hserved
  generalize call.handedOut? l c = handed at hserved
  cases hserved with
  | loaded _ hloads => exact hloads.nodup_readPaths
  | dropped => exact List.nodup_nil

end Call

/-- The reader that finds the sources of a table and no others. -/
def Reader.ofTable (table : OrderedMap Path Text) : Reader := fun p =>
  match table.get? p with
  | some source => .ok source
  | none => .error (.failed (.access (.system .noEntry)))

/-- The cache after calls in a row, each with the loader that serves it. -/
def cacheAfter (uses : List (Loader × Call)) : Cache :=
  uses.foldl (fun c u => (u.2.after u.1 c).cache) .empty

@[simp]
theorem cacheAfter_nil : cacheAfter [] = .empty := rfl

@[simp]
theorem cacheAfter_concat (uses : List (Loader × Call)) (u : Loader × Call) :
    cacheAfter (uses ++ [u]) = (u.2.after u.1 (cacheAfter uses)).cache := by
  simp [cacheAfter]

end ShaderInclude
