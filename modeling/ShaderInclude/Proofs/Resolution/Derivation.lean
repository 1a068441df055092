import ShaderInclude.Module.Load
import ShaderInclude.Proofs.Path.Canonical

/-!
# Derivations of a resolution

`resolve` and `expand` call each other, and what holds of a load is proved along these calls.
`Derives` is their call tree as a relation, with one constructor for each way in which a call
ends, so that a property of all calls takes one induction with one case for each of them.
`derives_iff_run` says that the relation is the graph of the two functions.

The rest of the module is what every later argument needs of a call: the events so far are kept
and cached modules stay as they are (`Derives.events_prefix`, `Derives.retains`), the marks are
left alone (`Derives.accepted_eq`), no path being resolved is cached (`Derives.get?_eq_none`), and
a call that succeeds has cached the targets of its task and everything that it read
(`Derives.get?_of_mem_targets`, `Derives.has_of_read`).
-/

namespace ShaderInclude

/-- What a resolution works on. -/
inductive Task where
  /-- The module at a canonical path. -/
  | path (p : Path)
  /-- The directives of a module in a directory that are still to be replaced, from the last to
  the first. -/
  | directives (directory : Path) (ds : List Directive) (m : Module)

/-- The task resolves a canonical path, if it resolves one. -/
abbrev Task.IsCanonical : Task → Prop
  | path p => p.IsCanonical
  | directives _ _ _ => True

/-- The outcome of a task below the module `referrer`, itself included by `ancestors`. -/
def Task.run (reader : Reader) (limit : Nat) (referrer : Path) (ancestors : List Path) :
    Task → CacheState → Outcome Module
  | path p, s => resolve reader limit referrer ancestors p s
  | directives directory ds m, s =>
    expand (resolve reader limit referrer ancestors) directory ds m s

/-- A source before its first directive is replaced. -/
def Module.raw (source : Text) : Module := { Module.unresolved source with code := source }

@[simp]
theorem Module.dependencies_raw (source : Text) : (Module.raw source).dependencies = [] := rfl

/-- The task of replacing all directives of a source. -/
abbrev Task.ofSource (directory : Path) (source : Text) : Task :=
  .directives directory (Directive.scan source).reverse (Module.raw source)

theorem expandSource_eq_run (reader : Reader) (limit : Nat) (referrer : Path)
    (ancestors : List Path) (directory : Path) (source : Text) (s : CacheState) :
    expandSource (resolve reader limit referrer ancestors) directory source s =
      (Task.ofSource directory source).run reader limit referrer ancestors s := rfl

/-- The paths to which a task leads next. -/
def Task.targets : Task → List Path
  | path p => [p]
  | directives directory ds _ => ds.map fun d => Path.target directory d.path

/-- The module at `p` has a directive that leads to `q`. -/
def Includes (reader : Reader) (p q : Path) : Prop :=
  ∃ source directory, reader p = .ok source ∧ p.directory? = some directory ∧
    q ∈ (Task.ofSource directory source).targets

/-- A module that can be read includes what its directives lead to. -/
theorem includes_iff_of_read {reader : Reader} {p q directory : Path} {source : Text}
    (hread : reader p = .ok source) (hdir : p.directory? = some directory) :
    Includes reader p q ↔ q ∈ (Task.ofSource directory source).targets := by
  simp [Includes, hread, hdir]

/-- The state after a module that is not cached was requested from the reader. -/
def CacheState.requested (s : CacheState) (p : Path) : CacheState :=
  (s.note (.loading p)).note (.read p)

@[simp]
theorem CacheState.cache_requested (s : CacheState) (p : Path) :
    (s.requested p).cache = s.cache := rfl

@[simp]
theorem CacheState.events_requested (s : CacheState) (p : Path) :
    (s.requested p).events = s.events ++ [.loading p, .read p] := by
  simp [requested]

theorem CacheState.read_mem_requested {s : CacheState} {p : Path} :
    .read p ∈ (s.requested p).events := by
  simp

/-- **The call tree of a resolution.** `Derives reader limit referrer ancestors task s r s'` says
that the task, begun in the state `s`, ends with the result `r` in the state `s'`. -/
inductive Derives (reader : Reader) :
    (limit : Nat) → (referrer : Path) → (ancestors : List Path) → Task → CacheState →
      Except LoadError Module → CacheState → Prop
  | tooDeep {referrer : Path} {ancestors : List Path} {p : Path} {s : CacheState} :
    Derives reader 0 referrer ancestors (.path p) s (.error (.fault .nestingTooDeep)) s
  | circular {limit : Nat} {referrer : Path} {ancestors : List Path} {p : Path} {s : CacheState}
      (htrace : p ∈ referrer :: ancestors) :
    Derives reader (limit + 1) referrer ancestors (.path p) s
      (.error (.finding (.circular p referrer))) s
  | reused {limit : Nat} {referrer : Path} {ancestors : List Path} {p : Path} {s : CacheState}
      {m : Module} (htrace : p ∉ referrer :: ancestors) (hcached : s.cache.get? p = some m) :
    Derives reader (limit + 1) referrer ancestors (.path p) s (.ok m) (s.note (.reused p))
  | unread {limit : Nat} {referrer : Path} {ancestors : List Path} {p : Path} {s : CacheState}
      {e : SourceError} (htrace : p ∉ referrer :: ancestors) (hcached : s.cache.get? p = none)
      (hread : reader p = .error e) :
    Derives reader (limit + 1) referrer ancestors (.path p) s (.error (e.at p)) (s.requested p)
  | noDirectory {limit : Nat} {referrer : Path} {ancestors : List Path} {p : Path}
      {s : CacheState} {source : Text} (htrace : p ∉ referrer :: ancestors)
      (hcached : s.cache.get? p = none) (hread : reader p = .ok source)
      (hdir : p.directory? = none) :
    Derives reader (limit + 1) referrer ancestors (.path p) s
      (.error (.finding (.noDirectory p))) (s.requested p)
  | failed {limit : Nat} {referrer : Path} {ancestors : List Path} {p directory : Path}
      {s s' : CacheState} {source : Text} {e : LoadError} (htrace : p ∉ referrer :: ancestors)
      (hcached : s.cache.get? p = none) (hread : reader p = .ok source)
      (hdir : p.directory? = some directory)
      (hbody : Derives reader limit p (referrer :: ancestors) (.ofSource directory source)
        (s.requested p) (.error e) s') :
    Derives reader (limit + 1) referrer ancestors (.path p) s (.error e) s'
  | stored {limit : Nat} {referrer : Path} {ancestors : List Path} {p directory : Path}
      {s s' : CacheState} {source : Text} {m : Module} (htrace : p ∉ referrer :: ancestors)
      (hcached : s.cache.get? p = none) (hread : reader p = .ok source)
      (hdir : p.directory? = some directory)
      (hbody : Derives reader limit p (referrer :: ancestors) (.ofSource directory source)
        (s.requested p) (.ok m) s') :
    Derives reader (limit + 1) referrer ancestors (.path p) s (.ok m)
      (s'.withCache (s'.cache.store p m))
  | done {limit : Nat} {referrer : Path} {ancestors : List Path} {directory : Path} {m : Module}
      {s : CacheState} :
    Derives reader limit referrer ancestors (.directives directory [] m) s (.ok m) s
  | halted {limit : Nat} {referrer : Path} {ancestors : List Path} {directory : Path}
      {d : Directive} {ds : List Directive} {m : Module} {s s' : CacheState} {e : LoadError}
      (htarget : Derives reader limit referrer ancestors (.path (Path.target directory d.path)) s
        (.error e) s') :
    Derives reader limit referrer ancestors (.directives directory (d :: ds) m) s (.error e) s'
  | spliced {limit : Nat} {referrer : Path} {ancestors : List Path} {directory : Path}
      {d : Directive} {ds : List Directive} {m included : Module} {s s₁ s₂ : CacheState}
      {r : Except LoadError Module}
      (htarget : Derives reader limit referrer ancestors (.path (Path.target directory d.path)) s
        (.ok included) s₁)
      (hrest : Derives reader limit referrer ancestors
        (.directives directory ds (m.splice d (Path.target directory d.path) included))
        (s₁.note (.spliced (Path.target directory d.path) d.start d.stop)) r s₂) :
    Derives reader limit referrer ancestors (.directives directory (d :: ds) m) s r s₂

variable {reader : Reader} {limit : Nat} {referrer : Path} {ancestors : List Path} {task : Task}
  {s s' : CacheState} {r : Except LoadError Module}

/-! ### The relation is the graph of the two functions -/

/-- What becomes of a source that was read, in a module that has a directory. -/
private theorem readAndExpand_eq {resolver : Resolver} {p directory : Path} {source : Text}
    (hread : reader p = .ok source) (hdir : p.directory? = some directory) :
    readAndExpand reader resolver p s =
      match expandSource resolver directory source (s.requested p) with
      | (.error e, s) => (.error e, s)
      | (.ok m, s) => (.ok m, s.withCache (s.cache.store p m)) := by
  simp only [readAndExpand, hread, hdir]
  rfl

/-- If every path is derived at a limit, so are all lists of directives. -/
private theorem derives_expand
    (hpath : ∀ (p : Path) (s : CacheState), Derives reader limit referrer ancestors (.path p) s
      (resolve reader limit referrer ancestors p s).1
      (resolve reader limit referrer ancestors p s).2)
    (directory : Path) (ds : List Directive) (m : Module) (s : CacheState) :
    Derives reader limit referrer ancestors (.directives directory ds m) s
      (expand (resolve reader limit referrer ancestors) directory ds m s).1
      (expand (resolve reader limit referrer ancestors) directory ds m s).2 := by
  induction ds generalizing m s with
  | nil => exact .done
  | cons d ds ih =>
    have htarget := hpath (Path.target directory d.path) s
    rw [expand]
    rcases hres : resolve reader limit referrer ancestors (Path.target directory d.path) s with
      ⟨_ | included, s₁⟩
    · rw [hres] at htarget
      exact .halted htarget
    · rw [hres] at htarget
      exact .spliced htarget (ih _ _)

private theorem derives_resolve (reader : Reader) (limit : Nat) (referrer : Path)
    (ancestors : List Path) (p : Path) (s : CacheState) :
    Derives reader limit referrer ancestors (.path p) s
      (resolve reader limit referrer ancestors p s).1
      (resolve reader limit referrer ancestors p s).2 := by
  induction limit generalizing referrer ancestors p s with
  | zero => exact .tooDeep
  | succ limit ih =>
    -- the cases stand in the order in which `resolve` tells them apart
    rw [resolve]
    by_cases htrace : p ∈ referrer :: ancestors
    · rw [if_pos htrace]
      exact .circular htrace
    rw [if_neg htrace]
    cases hcached : s.cache.get? p with
    | some m => exact .reused htrace hcached
    | none =>
      cases hread : reader p with
      | error e => simpa [readAndExpand, hread] using .unread htrace hcached hread
      | ok source =>
        cases hdir : p.directory? with
        | none => simpa [readAndExpand, hread, hdir] using .noDirectory htrace hcached hread hdir
        | some directory =>
          let resolver := resolve reader limit p (referrer :: ancestors)
          have hbody : Derives reader limit p (referrer :: ancestors) (.ofSource directory source)
              (s.requested p) (expandSource resolver directory source (s.requested p)).1
              (expandSource resolver directory source (s.requested p)).2 :=
            derives_expand (fun q t => ih p (referrer :: ancestors) q t) directory _ _ _
          simp only [readAndExpand_eq hread hdir]
          rcases hexp : expandSource resolver directory source (s.requested p) with ⟨_ | m, s₁⟩
          · rw [hexp] at hbody
            exact .failed htrace hcached hread hdir hbody
          · rw [hexp] at hbody
            exact .stored htrace hcached hread hdir hbody

/-- Every task has a derivation of its outcome. -/
theorem derives_run (reader : Reader) (limit : Nat) (referrer : Path) (ancestors : List Path)
    (task : Task) (s : CacheState) :
    Derives reader limit referrer ancestors task s
      (task.run reader limit referrer ancestors s).1
      (task.run reader limit referrer ancestors s).2 := by
  cases task with
  | path p => exact derives_resolve reader limit referrer ancestors p s
  | directives directory ds m =>
    exact derives_expand (derives_resolve reader limit referrer ancestors) directory ds m s

/-- What a derivation ends with is the outcome of its task. -/
theorem Derives.run_eq (h : Derives reader limit referrer ancestors task s r s') :
    task.run reader limit referrer ancestors s = (r, s') := by
  induction h with
  | tooDeep => rfl
  | circular htrace => simp [Task.run, resolve, htrace]
  | reused htrace hcached => simp [Task.run, resolve, htrace, hcached]
  | unread htrace hcached hread =>
    simp [Task.run, resolve, htrace, hcached, readAndExpand, hread, CacheState.requested]
  | noDirectory htrace hcached hread hdir =>
    simp [Task.run, resolve, htrace, hcached, readAndExpand, hread, hdir, CacheState.requested]
  | failed htrace hcached hread hdir _ ih | stored htrace hcached hread hdir _ ih =>
    rw [← expandSource_eq_run] at ih
    simp only [Task.run, resolve, if_neg htrace, hcached, readAndExpand_eq hread hdir, ih]
  | done => rfl
  | halted _ ih =>
    simp only [Task.run] at ih ⊢
    rw [expand, ih]
  | spliced _ _ ih₁ ih₂ =>
    simp only [Task.run] at ih₁ ih₂ ⊢
    rw [expand, ih₁]
    exact ih₂

/-- **The derivations are the graph of `resolve` and `expand`.** -/
theorem derives_iff_run :
    Derives reader limit referrer ancestors task s r s' ↔
      task.run reader limit referrer ancestors s = (r, s') := by
  refine ⟨Derives.run_eq, fun h => ?_⟩
  have hrun := derives_run reader limit referrer ancestors task s
  rwa [h] at hrun

/-! ### What a call keeps and what it adds -/

/-- The events before a call stand at the beginning of the events after it. -/
theorem Derives.events_prefix (h : Derives reader limit referrer ancestors task s r s') :
    s.events <+: s'.events := by
  induction h with
  | tooDeep | circular | done => exact List.prefix_rfl
  | reused => exact List.prefix_append _ _
  | unread | noDirectory => rw [CacheState.events_requested]; exact List.prefix_append _ _
  | failed _ _ _ _ _ ih | stored _ _ _ _ _ ih =>
    rw [CacheState.events_requested] at ih
    exact (List.prefix_append _ _).trans ih
  | halted _ ih => exact ih
  | spliced _ _ ih₁ ih₂ =>
    rw [CacheState.events_note] at ih₂
    exact ih₁.trans ((List.prefix_append _ _).trans ih₂)

/-- What happened before a call is among what happened after it. -/
theorem Derives.mem_events (h : Derives reader limit referrer ancestors task s r s') {e : Event}
    (he : e ∈ s.events) : e ∈ s'.events :=
  h.events_prefix.subset he

/-- A cached module stays as it is. -/
theorem Derives.retains (h : Derives reader limit referrer ancestors task s r s') {q : Path}
    {m : Module} (hq : s.cache.get? q = some m) : s'.cache.get? q = some m := by
  induction h with
  | tooDeep | circular | done | reused | unread | noDirectory => exact hq
  | failed _ _ _ _ _ ih => exact ih hq
  | @stored _ _ _ p _ _ _ _ _ _ hcached _ _ _ ih =>
    have hne : p ≠ q := by
      rintro rfl
      rw [hcached] at hq
      cases hq
    simpa [hne] using ih hq
  | halted _ ih => exact ih hq
  | spliced _ _ ih₁ ih₂ => exact ih₂ (ih₁ hq)

/-- What is not cached after a call was not cached before it. -/
theorem Derives.uncached_before (h : Derives reader limit referrer ancestors task s r s')
    {q : Path} (hq : s'.cache.get? q = none) : s.cache.get? q = none := by
  cases hs : s.cache.get? q with
  | none => rfl
  | some m =>
    rw [h.retains hs] at hq
    cases hq

/-- Resolving leaves the marks of accepted paths alone. -/
theorem Derives.accepted_eq (h : Derives reader limit referrer ancestors task s r s') :
    s'.cache.accepted = s.cache.accepted := by
  induction h with
  | tooDeep | circular | done | reused | unread | noDirectory => rfl
  | failed _ _ _ _ _ ih | stored _ _ _ _ _ ih => exact ih
  | halted _ ih => exact ih
  | spliced _ _ ih₁ ih₂ => exact ih₂.trans ih₁

/-- A path that is being resolved is not cached by a call below it. -/
theorem Derives.get?_eq_none (h : Derives reader limit referrer ancestors task s r s') {t : Path}
    (ht : t ∈ referrer :: ancestors) (hnone : s.cache.get? t = none) :
    s'.cache.get? t = none := by
  induction h with
  | tooDeep | circular | done | reused | unread | noDirectory => exact hnone
  | failed _ _ _ _ _ ih => exact ih (List.mem_cons_of_mem _ ht) hnone
  | @stored _ _ _ p _ _ _ _ _ htrace _ _ _ _ ih =>
    have hne : p ≠ t := by
      rintro rfl
      exact htrace ht
    simpa [hne] using ih (List.mem_cons_of_mem _ ht) hnone
  | halted _ ih => exact ih ht hnone
  | spliced _ _ ih₁ ih₂ => exact ih₂ ht (ih₁ ht hnone)

/-- A module that was resolved is cached, and was not being resolved. -/
theorem Derives.get?_of_ok {p : Path} {m : Module}
    (h : Derives reader limit referrer ancestors (.path p) s (.ok m) s') :
    p ∉ referrer :: ancestors ∧ s'.cache.get? p = some m := by
  cases h with
  | reused htrace hcached => exact ⟨htrace, hcached⟩
  | stored htrace => exact ⟨htrace, by simp⟩

/-- A call that succeeds has cached the targets of its task, and none of them was being
resolved. -/
theorem Derives.get?_of_mem_targets (h : Derives reader limit referrer ancestors task s r s')
    {m : Module} (hr : r = .ok m) {q : Path} (hq : q ∈ task.targets) :
    q ∉ referrer :: ancestors ∧ ∃ m, s'.cache.get? q = some m := by
  induction h with
  | tooDeep | circular | unread | noDirectory | failed | halted => cases hr
  | reused htrace hcached =>
    obtain rfl := List.mem_singleton.mp hq
    exact ⟨htrace, _, hcached⟩
  | @stored _ _ _ p _ _ _ _ m' htrace =>
    obtain rfl := List.mem_singleton.mp hq
    exact ⟨htrace, m', by simp⟩
  | done => cases hq
  | spliced htarget hrest _ ih₂ =>
    rcases List.mem_cons.mp hq with rfl | hq
    · exact ⟨htarget.get?_of_ok.1, _, hrest.retains htarget.get?_of_ok.2⟩
    · exact ih₂ hr hq

/-- A call that succeeds has cached everything that it read. -/
theorem Derives.has_of_read (h : Derives reader limit referrer ancestors task s r s') {m : Module}
    (hr : r = .ok m) {q : Path} (hq : .read q ∈ s'.events) (hnew : .read q ∉ s.events) :
    ∃ m, s'.cache.get? q = some m := by
  induction h generalizing m with
  | tooDeep | circular | unread | noDirectory | failed | halted => cases hr
  | reused => simp [hnew] at hq
  | done => exact absurd hq hnew
  | @stored _ _ _ p _ _ _ _ _ _ _ _ _ _ ih =>
    by_cases hpq : p = q
    · exact ⟨_, by rw [CacheState.cache_withCache, Cache.get?_store, if_pos hpq]⟩
    · simpa [hpq] using ih rfl hq (by simpa [hnew] using fun h => hpq h.symm)
  | @spliced _ _ _ _ _ _ _ _ _ s₁ _ _ _ hrest ih₁ ih₂ =>
    by_cases hmid : .read q ∈ s₁.events
    · -- the target itself has succeeded, and what it has cached stays
      obtain ⟨m, hm⟩ := ih₁ rfl hmid hnew
      exact ⟨m, hrest.retains hm⟩
    · exact ih₂ hr hq (by simpa using hmid)

end ShaderInclude
