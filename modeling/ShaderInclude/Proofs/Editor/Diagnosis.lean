import ShaderInclude.Editor.Diagnosis
import ShaderInclude.Proofs.Resolution.Call

/-!
# What a diagnosis depends on

A diagnosis is read off the load of a document into an empty cache (`Session.diagnosis_eq`). It
depends on the session through the paths that the load reads and through what the validator
refuses, and on nothing else (`Session.diagnosis_congr`).

A diagnosis records the paths on which it is said to depend. If nothing was found, these are all
the paths that it has read (`Session.mem_dependencies_of_clean`). After a failure some may be
missing: a path that was read and not recorded lies between the document and the failure, and a
source in its place that leads to an unreadable path changes what is found
(`Session.diagnosis_obstructed`).
-/

namespace ShaderInclude

/-- A tool that was started accepts or rejects. -/
theorem Tool.verdict_of_started (tool : Tool) {run : ToolRun} (h : run ≠ .notStarted) :
    tool.verdict run = .accepted ∨
      ∃ message report, tool.verdict run = .rejected message report := by
  cases run with
  | notStarted => exact absurd rfl h
  | timedOut => exact .inr ⟨_, _, rfl⟩
  | exited status errorOutput output =>
    by_cases hstatus : status = 0
    · exact .inl (if_pos hstatus)
    · exact .inr ⟨_, _, if_neg hstatus⟩

namespace Editor

/-- The diagnosis that the outcome of a load amounts to. -/
def Diagnosis.ofOutcome (p : Path) (text : Text) :
    Except LoadError Module → CacheState → Except Fault Diagnosis
  | .ok m, state => .ok (.ofModule m state)
  | .error (.finding e), state => .ok (.ofError p text e state)
  | .error (.fault f), _ => .error f

variable {w : Surroundings} {s s' : Session} {p q : Path} {text : Text} {d : Diagnosis}

/-- Only a load that ends with a fault leaves no diagnosis. -/
theorem Diagnosis.ofOutcome_eq_error_iff {r : Except LoadError Module} {state : CacheState}
    {f : Fault} : ofOutcome p text r state = .error f ↔ r = .error (.fault f) := by
  match r with
  | .ok _ | .error (.finding _) => exact ⟨nofun, nofun⟩
  | .error (.fault _) => simp [ofOutcome]

/-- A diagnosis is read off the load of the document into an empty cache. -/
theorem Session.diagnosis_eq (hp : p.IsCanonical) {r : Except LoadError Module} {state : CacheState}
    (h : Loads (s.loader w) p (some text) .initial r state) :
    s.diagnosis w p text = Diagnosis.ofOutcome p text r state := by
  unfold diagnosis Loader.loadAlone
  rw [hp, h.loadCanonical_eq]
  match r with
  | .ok _ | .error (.finding _) | .error (.fault _) => rfl

/-- Every diagnosis is read off some load. -/
theorem Session.exists_loads (s : Session) (w : Surroundings) (hp : p.IsCanonical) (text : Text) :
    ∃ r state, Loads (s.loader w) p (some text) .initial r state ∧
      s.diagnosis w p text = Diagnosis.ofOutcome p text r state :=
  ⟨_, _, loads_loadCanonical _ _ _ _, diagnosis_eq hp (loads_loadCanonical _ _ _ _)⟩

/-- **A diagnosis depends on the session only through the paths that it reads and through what is
refused.** -/
theorem Session.diagnosis_congr (hp : p.IsCanonical) (hd : s.diagnosis w p text = .ok d)
    (hreader : ∀ q, .read q ∈ d.events → s'.reader w.files q = s.reader w.files q)
    (hrefusal : ∀ code, (s'.loader w).refusal? code = (s.loader w).refusal? code) :
    ∃ d', s'.diagnosis w p text = .ok d' ∧ d'.diagnostics = d.diagnostics ∧
      d'.dependencies = d.dependencies := by
  obtain ⟨r, state, hloads, houtcome⟩ := s.exists_loads w hp text
  rw [hd] at houtcome
  have hevents : d.events = state.events := by
    match r with
    | .ok _ | .error (.finding _) =>
      cases houtcome
      rfl
    | .error (.fault _) => cases houtcome
  rw [hevents] at hreader
  have hlimit : (s'.loader w).limit = (s.loader w).limit := rfl
  obtain ⟨state', hloads', hcache, -⟩ := hloads.congr hlimit hreader hrefusal
  rw [diagnosis_eq hp hloads']
  match r with
  | .ok m =>
    cases houtcome
    exact ⟨_, rfl, rfl, rfl⟩
  | .error (.finding e) =>
    cases houtcome
    refine ⟨_, rfl, ?_, ?_⟩
    · simp only [Diagnosis.ofError, hcache]
    · simp only [Diagnosis.ofError, hcache]
  | .error (.fault f) => cases houtcome

/-- A diagnosis has one finding at most, and the events of its load. -/
theorem Session.diagnosis_cases {r : Except LoadError Module} {state : CacheState}
    (hd : .ok d = Diagnosis.ofOutcome p text r state) :
    d.events = state.events ∧
      ((∃ m, r = .ok m ∧ d.diagnostics = [] ∧ d.dependencies = m.dependencies) ∨
        ∃ e, r = .error (.finding e) ∧ d.dependencies = touched state.cache p text e ∧
          d.diagnostics = [⟨failureSpan text (unresolved? state.cache p text), e.message⟩]) := by
  match r with
  | .ok m =>
    cases hd
    exact ⟨rfl, .inl ⟨m, rfl, rfl, rfl⟩⟩
  | .error (.finding e) =>
    cases hd
    exact ⟨rfl, .inr ⟨e, rfl, rfl, rfl⟩⟩
  | .error (.fault f) => cases hd

/-- A diagnosis that reads anything has resolved its document, and has read it in doing so. -/
theorem Session.exists_body (hp : p.IsCanonical) (hd : s.diagnosis w p text = .ok d)
    (hq : .read q ∈ d.events) :
    ∃ r state directory r₀ s₁, .ok d = Diagnosis.ofOutcome p text r state ∧
      p.directory? = some directory ∧
      Derives (s.reader w.files) (s.loader w).limit p [] (.ofSource directory text) .initial r₀ s₁ ∧
      .read q ∈ s₁.events ∧ Settles r₀ s₁ r state := by
  obtain ⟨r, state, hloads, houtcome⟩ := s.exists_loads w hp text
  rw [hd] at houtcome
  rw [(diagnosis_cases houtcome).1, ← CacheState.mem_readPaths] at hq
  obtain ⟨-, rfl⟩ | ⟨directory, r₀, s₁, hdir, hbody, hreads, hsettles⟩ := hloads.exists_body
  case inl => cases hq
  rw [hreads, CacheState.mem_readPaths] at hq
  exact ⟨r, state, directory, r₀, s₁, houtcome, hdir, hbody, hq, hsettles⟩

/-- Nothing has been read before a diagnosis. -/
private theorem read_not_mem_initial : .read q ∉ CacheState.initial.events := by
  simp [CacheState.initial]

/-- A diagnosis that finds nothing is read off a load that succeeds. -/
private theorem Session.exists_loads_of_clean (hp : p.IsCanonical)
    (hd : s.diagnosis w p text = .ok d) (hclean : d.diagnostics = []) :
    ∃ m state, Loads (s.loader w) p (some text) .initial (.ok m) state ∧
      d.events = state.events ∧ d.dependencies = m.dependencies := by
  obtain ⟨r, state, hloads, houtcome⟩ := s.exists_loads w hp text
  rw [hd] at houtcome
  obtain ⟨hevents, ⟨m, rfl, -, hdeps⟩ | ⟨e, -, -, hfound⟩⟩ := diagnosis_cases houtcome
  · exact ⟨m, state, hloads, hevents, hdeps⟩
  · rw [hclean] at hfound
    cases hfound

/-- A diagnosis that finds nothing depends on all that it reads. -/
theorem Session.mem_dependencies_of_clean (hp : p.IsCanonical) (hd : s.diagnosis w p text = .ok d)
    (hclean : d.diagnostics = []) (hq : .read q ∈ d.events) : q ∈ d.dependencies := by
  obtain ⟨m, state, hloads, hevents, hdeps⟩ := exists_loads_of_clean hp hd hclean
  rw [hevents] at hq
  obtain ⟨hsupplied, -⟩ | hmem := hloads.mem_dependencies_of_read hq
  · cases hsupplied
  · exact hdeps ▸ hmem

/-- **A diagnosis that finds nothing** finds nothing either where the same texts are read and
nothing more is refused. -/
theorem Session.diagnosis_congr_clean (hp : p.IsCanonical) (hd : s.diagnosis w p text = .ok d)
    (hclean : d.diagnostics = [])
    (hreader : ∀ q, .read q ∈ d.events → s'.reader w.files q = s.reader w.files q)
    (hrefusal : ∀ code, (s.loader w).refusal? code = none →
      (s'.loader w).refusal? code = none) :
    ∃ d', s'.diagnosis w p text = .ok d' ∧ d'.diagnostics = [] ∧
      d'.dependencies = d.dependencies := by
  obtain ⟨m, state, hloads, hevents, hdeps⟩ := exists_loads_of_clean hp hd hclean
  rw [hevents] at hreader
  have hlimit : (s'.loader w).limit = (s.loader w).limit := rfl
  obtain ⟨state', hloads', -⟩ := hloads.congr_ok hlimit hreader hrefusal
  exact ⟨_, diagnosis_eq hp hloads', rfl, hdeps.symm⟩

/-- A diagnosis does not read the path of its own document. -/
theorem Session.ne_of_read (hp : p.IsCanonical) (hd : s.diagnosis w p text = .ok d)
    (hq : .read q ∈ d.events) : q ≠ p := by
  obtain ⟨r, state, directory, r₀, s₁, -, -, hbody, hq, -⟩ := exists_body hp hd hq
  rintro rfl
  exact hbody.not_mem_trace_of_read hq read_not_mem_initial List.mem_cons_self

/-- A path that a diagnosis with a finding has read, but not recorded, has a source with
directives. -/
theorem Session.exists_directive_of_unrecorded (hp : p.IsCanonical)
    (hd : s.diagnosis w p text = .ok d) (hfound : d.diagnostics ≠ []) (hq : .read q ∈ d.events)
    (hunrecorded : q ∉ d.dependencies) :
    ∃ source directory, s.reader w.files q = .ok source ∧ q.directory? = some directory ∧
      Directive.scan source ≠ [] := by
  have hne := ne_of_read hp hd hq
  obtain ⟨r, state, directory, r₀, s₁, houtcome, -, hbody, hq, hsettles⟩ := exists_body hp hd hq
  obtain ⟨-, ⟨_, -, hclean, -⟩ | ⟨e, rfl, hdeps, -⟩⟩ := diagnosis_cases houtcome
  case inl => exact absurd hclean hfound
  -- a touched path is a target of the document, cached, or what the finding is about
  have hcached : state.cache.get? q = none := by
    cases hget : state.cache.get? q with
    | none => rfl
    | some m =>
      refine absurd ?_ hunrecorded
      rw [hdeps]
      simp [touched, hne, Cache.paths, OrderedMap.mem_keys_iff.mpr ⟨m, hget⟩]
  have hpath : e.path? ≠ some q := by
    intro hpath
    refine absurd ?_ hunrecorded
    rw [hdeps]
    simp [touched, hne, hpath]
  cases hsettles with
  | failed => exact hbody.exists_directive_of_read rfl hpath hcached hq read_not_mem_initial
  | refused hsame =>
    -- the source was resolved, so all that it read is cached
    obtain ⟨m', hm'⟩ := hbody.has_of_read rfl hq read_not_mem_initial
    rw [hsame, hm'] at hcached
    cases hcached

/-- **A finding depends on every source on the way to it.** If a diagnosis has read a path with
directives, a source in their place that leads to an unreadable path is what it finds. -/
theorem Session.diagnosis_obstructed {x directory : Path} {cause : ReadFailure} {source : Text}
    (hp : p.IsCanonical) (hd : s.diagnosis w p text = .ok d)
    (hobstructs : Obstructs (s.reader w.files) (s'.reader w.files) q x cause)
    (hread : s.reader w.files q = .ok source) (hdir : q.directory? = some directory)
    (hscan : Directive.scan source ≠ []) (hx : x ≠ p) (hq : .read q ∈ d.events) :
    ∃ d' span, s'.diagnosis w p text = .ok d' ∧
      d'.diagnostics = [⟨span, (ModuleError.unreadable x cause).message⟩] := by
  obtain ⟨r, state, directory', r₀, s₁, houtcome, hdir', hbody, hq, hsettles⟩ :=
    exists_body hp hd hq
  -- a fault would have left no diagnosis
  have hr₀ : r₀ ≠ .error (.fault .nestingTooDeep) := by
    rintro rfl
    cases hsettles
    cases houtcome
  have hxcached : s₁.cache.get? x = none := by
    cases hget : s₁.cache.get? x with
    | none => rfl
    | some m =>
      obtain ⟨source', hsource'⟩ := hbody.readable_of_cached hget rfl
      exact nomatch hsource'.symm.trans hobstructs.unreadable
  obtain ⟨state', hbody'⟩ := hbody.obstructed hobstructs hread hdir hscan hr₀
    (by simpa using hx) hxcached hq read_not_mem_initial
  have hloads' : Loads (s'.loader w) p (some text) .initial _ state' :=
    .unrooted hdir' (.failed .supplied hbody')
  exact ⟨_, _, diagnosis_eq hp hloads', rfl⟩

/-- A document that leads to an unreadable path alone has a diagnosis. -/
theorem Session.exists_diagnosis_of_unreadable {x : Path} {cause : ReadFailure}
    {directive : Directive} (hp : p.IsCanonical) (hscan : Directive.scan text = [directive])
    (htarget : ∀ directory, Path.target directory directive.path = x)
    (hread : s.reader w.files x = .error (.failed cause)) (hx : x ≠ p) :
    ∃ d, s.diagnosis w p text = .ok d := by
  cases hdir : p.directory? with
  | none => exact ⟨_, diagnosis_eq hp (.noDirectory hdir)⟩
  | some directory =>
    obtain ⟨k, hlimit⟩ : ∃ k, (s.loader w).limit = k + 1 := ⟨_, rfl⟩
    have hunread : Derives (s.loader w).reader (s.loader w).limit p []
        (.path (Path.target directory directive.path)) .initial
        (.error (SourceError.at x (.failed cause))) (CacheState.initial.requested x) := by
      rw [hlimit, htarget]
      exact .unread (by simpa using hx) rfl hread
    have hbody : Derives (s.loader w).reader (s.loader w).limit p [] (.ofSource directory text)
        .initial (.error (.finding (.unreadable x cause))) (CacheState.initial.requested x) := by
      rw [Task.ofSource, hscan]
      exact .halted hunread
    exact ⟨_, diagnosis_eq hp (.unrooted hdir (.failed .supplied hbody))⟩

/-! ### Faults and waived checks -/

/-- Where the encoding is known, the reader of a session has no faults. -/
theorem Session.reader_ne_fault {e : Encoding} (hencoding : s.settings.sourceEncoding = .ok e)
    (files : FileTree) (q : Path) (f : Fault) : s.reader files q ≠ .error (.fault f) := by
  intro h
  unfold reader at h
  split at h
  · cases h
  unfold FileTree.readSource at h
  rw [hencoding] at h
  split at h
  · cases h
  · simp only [textOfBytes] at h
    split at h <;> cases h

/-- Where the encoding is known, the only fault of a diagnosis is that of the nesting. -/
theorem Session.fault_eq {e : Encoding} (hencoding : s.settings.sourceEncoding = .ok e)
    (hp : p.IsCanonical) {f : Fault} (hd : s.diagnosis w p text = .error f) :
    f = .nestingTooDeep := by
  obtain ⟨r, state, hloads, houtcome⟩ := s.exists_loads w hp text
  rw [hd] at houtcome
  obtain rfl := Diagnosis.ofOutcome_eq_error_iff.mp houtcome.symm
  obtain ⟨hr, -⟩ | ⟨directory, r₀, s₁, -, hbody, -, hsettles⟩ := hloads.exists_body
  case inl => cases hr
  cases hsettles with
  | failed => exact hbody.fault_eq (reader_ne_fault hencoding w.files) rfl

/-- A check is waived only if the tool could not be started for it. -/
theorem Session.notStarted_of_waived (hp : p.IsCanonical) (hd : s.diagnosis w p text = .ok d)
    (hwaived : d.events.any Event.isWaived = true) : ∃ code, w.run code = .notStarted := by
  obtain ⟨r, state, hloads, houtcome⟩ := s.exists_loads w hp text
  rw [hd] at houtcome
  rw [(diagnosis_cases houtcome).1] at hwaived
  obtain ⟨event, hevent, hwaived⟩ := List.any_eq_true.mp hwaived
  match event, hwaived with
  | .checked code (.waived executable), _ =>
    obtain ⟨validator, hvalidator, hverdict⟩ :=
      hloads.verdict_eq hevent (by simp [CacheState.initial])
    refine ⟨code, Classical.byContradiction fun hstarted => ?_⟩
    simp only [loader, validator?, Option.ite_none_right_eq_some, Option.some.injEq] at hvalidator
    rw [← hvalidator.2, Validator.waiving, Tool.validator] at hverdict
    obtain haccepted | ⟨message, report, hrejected⟩ :=
      (Tool.ofSettings s.settings).verdict_of_started hstarted
    · rw [haccepted] at hverdict
      cases hverdict
    · rw [hrejected] at hverdict
      cases hverdict

/-- Nothing is refused where the tool cannot be started. -/
theorem Session.refusal?_of_notStarted (h : ∀ code, w.run code = .notStarted) (code : Text) :
    (s.loader w).refusal? code = none := by
  unfold Loader.refusal? loader validator?
  split
  · simp [Validator.waiving, Tool.validator, Tool.verdict, h, Loader.errorOf?]
  · rfl

end Editor

end ShaderInclude
