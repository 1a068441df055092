import Mathlib.Data.List.Permutation
import ShaderInclude.Proofs.Resolution.Requests

/-!
# What a load reads

A load reads the source of its root, unless this is supplied, and the paths that are requested on
the way down, and it reads nothing without need. Every read is made where a path is requested that
is neither being resolved nor cached (`Derives.exists_request_of_read`), and from then on the path
is one or the other until the load ends, so that it is not read again.

Where nothing is cached before, all that a module is made of has to be read
(`Derives.readsCovered`). The main statement is `reads_exact`: it puts both together.
-/

namespace ShaderInclude

variable {reader : Reader} {limit : Nat} {referrer : Path} {ancestors : List Path} {task : Task}
  {s s' : CacheState} {r : Except LoadError Module} {p q : Path}

/-! ### Where a path is read -/

/-- **A path is read where it is requested**, at a moment at which it is neither being resolved nor
cached. -/
theorem Derives.exists_request_of_read (h : Derives reader limit referrer ancestors task s r s')
    (hq : .read q ∈ s'.events) (hnew : .read q ∉ s.events) :
    ∃ trace t, Requests reader limit referrer ancestors task s trace q t ∧ q ∉ trace ∧
      t.cache.get? q = none ∧ (t.requested q).events <+: s'.events := by
  induction h with
  | tooDeep | circular | done => exact absurd hq hnew
  | reused => simp [hnew] at hq
  | unread htrace hcached | noDirectory htrace hcached =>
    obtain rfl := by simpa [hnew] using hq
    exact ⟨_, _, .self, htrace, hcached, List.prefix_rfl⟩
  | @failed _ _ _ p _ _ _ _ _ htrace hcached hread hdir hbody ih
  | @stored _ _ _ p _ _ _ _ _ htrace hcached hread hdir hbody ih =>
    by_cases hqp : q = p
    · subst hqp
      exact ⟨_, _, .self, htrace, hcached, hbody.events_prefix⟩
    · obtain ⟨trace, t, hrequest, hopen, hnone, hevents⟩ :=
        ih (by simpa using hq) (by simpa [hnew] using hqp)
      exact ⟨trace, t, .nested htrace hcached hread hdir hrequest, hopen, hnone, hevents⟩
  | halted _ ih =>
    obtain ⟨trace, t, hrequest, hrest⟩ := ih hq hnew
    exact ⟨trace, t, .first hrequest, hrest⟩
  | @spliced _ _ _ _ _ _ _ _ _ s₁ _ _ htarget hrest ih₁ ih₂ =>
    by_cases hmid : .read q ∈ s₁.events
    · obtain ⟨trace, t, hrequest, hopen, hnone, hevents⟩ := ih₁ hmid hnew
      have hrest := hrest.events_prefix
      rw [CacheState.events_note] at hrest
      exact ⟨trace, t, .first hrequest, hopen, hnone,
        hevents.trans ((List.prefix_append _ _).trans hrest)⟩
    · obtain ⟨trace, t, hrequest, hmoment⟩ := ih₂ hq (by simpa using hmid)
      exact ⟨trace, t, .later htarget hrequest, hmoment⟩

/-! ### What has to be read -/

/-- Every cached module was read, and so was all that it depends on. -/
def CacheState.ReadsCovered (s : CacheState) : Prop :=
  ∀ q m, s.cache.get? q = some m → ∀ x, x = q ∨ x ∈ m.dependencies → .read x ∈ s.events

/-- The dependencies that the module of a task has before the task begins. -/
def Task.dependencies : Task → List Path
  | path _ => []
  | directives _ _ m => m.dependencies

private theorem CacheState.ReadsCovered.note (hs : s.ReadsCovered) (e : Event) :
    (s.note e).ReadsCovered := by
  intro q m hq x hx
  simp [hs q m hq x hx]

/-- **Nothing that a module is made of was there without a read**, if nothing cached was. -/
theorem Derives.readsCovered (h : Derives reader limit referrer ancestors task s r s')
    (hs : s.ReadsCovered) :
    s'.ReadsCovered ∧ ∀ m, r = .ok m → ∀ x ∈ m.dependencies,
      x ∈ task.dependencies ∨ .read x ∈ s'.events := by
  induction h with
  | tooDeep | circular => exact ⟨hs, nofun⟩
  | @reused _ _ _ p _ m _ hcached =>
    refine ⟨hs.note _, fun m' hm' x hx => ?_⟩
    cases hm'
    exact .inr (hs.note _ p m hcached x (.inr hx))
  | unread | noDirectory => exact ⟨(hs.note _).note _, nofun⟩
  | failed _ _ _ _ _ ih => exact ⟨(ih ((hs.note _).note _)).1, nofun⟩
  | @stored _ _ _ p _ _ s' _ m _ _ _ _ hbody ih =>
    obtain ⟨hs', hm⟩ := ih ((hs.note _).note _)
    have hdeps : ∀ x ∈ m.dependencies, .read x ∈ s'.events := by
      intro x hx
      exact (hm m rfl x hx).resolve_left List.not_mem_nil
    refine ⟨fun q m' hq x hx => ?_, fun m' hm' x hx => ?_⟩
    · rw [CacheState.cache_withCache, Cache.get?_store] at hq
      split at hq
      case isTrue hpq =>
        cases hq
        subst hpq
        obtain rfl | hx := hx
        · exact hbody.mem_events CacheState.read_mem_requested
        · exact hdeps x hx
      case isFalse => exact hs' q m' hq x hx
    · cases hm'
      exact .inr (hdeps x hx)
  | done =>
    refine ⟨hs, fun m hm x hx => .inl ?_⟩
    cases hm
    exact hx
  | halted _ ih => exact ⟨(ih hs).1, nofun⟩
  | @spliced _ _ _ directory d _ _ included _ s₁ _ _ htarget hrest ih₁ ih₂ =>
    obtain ⟨hs₁, -⟩ := ih₁ hs
    obtain ⟨hs₂, hm⟩ := ih₂ (hs₁.note _)
    refine ⟨hs₂, fun m' hm' x hx => ?_⟩
    obtain hx | hx := hm m' hm' x hx
    · -- what the splice has brought in was read with the target, which is cached
      obtain hx | hx | hx := Module.mem_dependencies_splice.mp hx
      · exact .inr (hrest.mem_events (by simp [hs₁ _ _ htarget.get?_of_ok.2 x (.inl hx)]))
      · exact .inr (hrest.mem_events (by simp [hs₁ _ _ htarget.get?_of_ok.2 x (.inr hx)]))
      · exact .inl hx
    · exact .inr hx

/-! ### Loading a root -/

variable {l : Loader} {directory : Path} {supplied : Option Text} {c : Cache} {t : CacheState}
  {m : Module}

/-- **The paths that a load reaches**, each with the state at that moment: the root, if its source
is not supplied, and the paths that are requested and are not being resolved. -/
inductive Loader.Reaches (l : Loader) (p : Path) (supplied : Option Text) (s : CacheState) :
    Path → CacheState → Prop
  | root (hsupplied : supplied = none) : Reaches l p supplied s p s
  | included {q : Path} {trace : List Path} {t : CacheState}
      (hrequest : l.Requests p supplied s trace q t) (htrace : q ∉ trace) :
    Reaches l p supplied s q (t.note (.loading q))

private theorem RootSource.exists_reached {source : Text} {s₀ : CacheState}
    (hsource : RootSource l p ⟨c, []⟩ supplied source s₀) (hdir : p.directory? = some directory)
    (h : Derives l.reader l.limit p [] (.ofSource directory source) s₀ r s')
    (hq : .read q ∈ s'.events) :
    ∃ t, l.Reaches p supplied ⟨c, []⟩ q t ∧ t.cache.get? q = none ∧
      (t.note (.read q)).events <+: s'.events := by
  by_cases hold : .read q ∈ s₀.events
  · cases hsource with
    | supplied => cases hold
    | read hcached =>
      obtain rfl : q = p := by simpa using hold
      exact ⟨_, .root rfl, hcached, h.events_prefix⟩
  · obtain ⟨trace, t, hrequest, htrace, hcached, hevents⟩ := h.exists_request_of_read hq hold
    exact ⟨_, .included ⟨directory, source, s₀, hdir, hsource, hrequest⟩ htrace, hcached, hevents⟩

/-- A root reads what it reaches and finds uncached. -/
private theorem Rooted.exists_reached (h : Rooted l p directory supplied ⟨c, []⟩ r s')
    (hdir : p.directory? = some directory) (hq : .read q ∈ s'.events) :
    ∃ t, l.Reaches p supplied ⟨c, []⟩ q t ∧ t.cache.get? q = none ∧
      (t.note (.read q)).events <+: s'.events := by
  cases h with
  | cached => cases hq
  | unread hsupplied hcached =>
    obtain rfl : q = p := by simpa using hq
    exact ⟨_, .root hsupplied, hcached, List.prefix_rfl⟩
  | failed hsource hbody => exact hsource.exists_reached hdir hbody hq
  | resolved hsource hbody =>
    rw [CacheState.events_withCache] at hq ⊢
    exact hsource.exists_reached hdir hbody hq

/-- A root whose source is supplied is not read. -/
private theorem Rooted.root_not_read (h : Rooted l p directory supplied ⟨c, []⟩ r s')
    (hsupplied : supplied ≠ none) : .read p ∉ s'.events := by
  intro hp
  cases h with
  | cached hnone | unread hnone => exact hsupplied hnone
  | failed hsource h | resolved hsource h =>
    cases hsource with
    | supplied => exact h.not_mem_trace_of_read hp List.not_mem_nil List.mem_cons_self
    | read => exact hsupplied rfl

/-- A root that is resolved with nothing cached has read itself and all that it depends on. -/
private theorem Rooted.read_of_mem_dependencies
    (h : Rooted l p directory none .initial (.ok m) s') (hq : q = p ∨ q ∈ m.dependencies) :
    .read q ∈ s'.events := by
  cases h with
  | cached _ hcached => cases hcached
  | resolved hsource h =>
    cases hsource
    obtain rfl | hq := hq
    · exact h.mem_events (by simp)
    · have hcovered : (CacheState.initial.note (.read p)).ReadsCovered := nofun
      exact ((h.readsCovered hcovered).2 m rfl q hq).resolve_left List.not_mem_nil

/-- A load resolves its root, and what it does after that reads nothing. -/
private theorem Loads.exists_root (h : Loads l p supplied s r s') :
    s' = s ∧ (∀ m, r ≠ .ok m) ∨
      ∃ directory r₁ s₁, p.directory? = some directory ∧ Rooted l p directory supplied s r₁ s₁ ∧
        (∀ m, r = .ok m → r₁ = .ok m) ∧ s₁.events <+: s'.events ∧
        s'.readPaths = s₁.readPaths := by
  cases h with
  | noDirectory => exact .inl ⟨rfl, nofun⟩
  | unrooted hdir hroot =>
    exact .inr ⟨_, _, _, hdir, hroot, fun _ => id, List.prefix_rfl, rfl⟩
  | @refused directory m s₁ _ hdir hroot =>
    exact .inr ⟨directory, .ok m, s₁, hdir, hroot, nofun, l.events_prefix_checked m.code s₁,
      l.readPaths_checked m.code s₁⟩
  | @marked directory m s₁ hdir hroot =>
    exact .inr ⟨directory, .ok m, s₁, hdir, hroot, fun _ => id,
      Loader.events_prefix_committed p supplied m s₁,
      Loader.readPaths_committed p supplied m s₁⟩
  | @passed directory m s₁ hdir hroot =>
    refine .inr ⟨directory, .ok m, s₁, hdir, hroot, fun _ => id, ?_, by simp⟩
    have hcommit := Loader.events_prefix_committed p supplied m
      ((l.checked m.code s₁).withCache (s₁.cache.accept p))
    rw [CacheState.events_withCache] at hcommit
    exact (l.events_prefix_checked m.code s₁).trans hcommit

/-- What a load reads, it reads while it resolves its root. -/
private theorem Loads.exists_root_of_mem_readPaths (h : Loads l p supplied ⟨c, []⟩ r s')
    (hq : q ∈ s'.readPaths) :
    ∃ directory r₁ s₁, p.directory? = some directory ∧ Rooted l p directory supplied ⟨c, []⟩ r₁ s₁ ∧
      .read q ∈ s₁.events ∧ s₁.events <+: s'.events := by
  obtain ⟨rfl, -⟩ | ⟨directory, r₁, s₁, hdir, hroot, -, hevents, hreads⟩ := h.exists_root
  · cases hq
  · rw [hreads, CacheState.mem_readPaths] at hq
    exact ⟨directory, r₁, s₁, hdir, hroot, hq, hevents⟩

/-- **Reads are exact and never repeated.** Whatever the cache, the reader, the root and its source,
and whether the load succeeds or fails,
* the load reads no path twice,
* it reads a path where it reaches it and finds it uncached, and nowhere else, and
* it does not read the root if its source is supplied.

If nothing is cached before, a stored root that is loaded has read itself, all that its module
depends on, and nothing else. -/
theorem reads_exact (l : Loader) (c : Cache) (p : Path) (supplied : Option Text) :
    let s' := (l.loadCanonical p.normal supplied ⟨c, []⟩).2
    s'.readPaths.Nodup ∧
      (∀ q ∈ s'.readPaths, ∃ t, l.Reaches p.normal supplied ⟨c, []⟩ q t ∧
        t.cache.get? q = none ∧ (t.note (.read q)).events <+: s'.events) ∧
      (supplied ≠ none → p.normal ∉ s'.readPaths) ∧
      ∀ m s₁, l.loadFromPath p .initial = (.ok m, s₁) →
        ∀ q, q ∈ s₁.readPaths ↔ q = p.normal ∨ q ∈ m.dependencies := by
  intro s'
  have hloads := loads_loadCanonical l p.normal supplied ⟨c, []⟩
  refine ⟨hloads.nodup_readPaths, fun q hq => ?_, fun hsupplied hp => ?_,
    fun m s₁ hs₁ q => ?_⟩
  · obtain ⟨directory, r₁, s₁, hdir, hroot, hread, hevents⟩ :=
      hloads.exists_root_of_mem_readPaths hq
    obtain ⟨t, hreached, hcached, hmoment⟩ := hroot.exists_reached hdir hread
    exact ⟨t, hreached, hcached, hmoment.trans hevents⟩
  · obtain ⟨directory, r₁, s₁, -, hroot, hread, -⟩ := hloads.exists_root_of_mem_readPaths hp
    exact hroot.root_not_read hsupplied hread
  · have hfresh := loads_loadCanonical l p.normal none .initial
    rw [show l.loadCanonical p.normal none .initial = _ from hs₁] at hfresh
    refine ⟨fun hq => ?_, fun hq => ?_⟩
    · rw [CacheState.mem_readPaths] at hq
      exact (hfresh.mem_dependencies_of_read hq).imp_left And.right
    · obtain ⟨-, hfails⟩ | ⟨directory, r₁, s₂, -, hroot, hok, -, hreads⟩ := hfresh.exists_root
      · exact absurd rfl (hfails m)
      · obtain rfl := hok m rfl
        rw [hreads, CacheState.mem_readPaths]
        exact hroot.read_of_mem_dependencies hq

/-- A module that includes a second one in two spellings, and a third one, which the second one
includes too. -/
def diamondTable : OrderedMap Path Text :=
  .ofList [(.parse "x".toList, "& include 'a';\n& include 'b';\n& include './a';".toList),
    (.parse "a".toList, "& include 'b';".toList), (.parse "b".toList, "B".toList)]

/-- The modules of the table are read once each, and the root is not read if it is supplied. -/
theorem reads_exact_diamond :
    let x := Path.parse "x".toList
    let l : Loader := ⟨.ofTable diamondTable, none, Loader.defaultLimit⟩
    let source := "& include 'a';".toList
    (∃ m s₁, l.loadFromPath x .initial = (.ok m, s₁) ∧
        s₁.readPaths = [x, .parse "a".toList, .parse "b".toList] ∧
        ∀ q, q ∈ s₁.readPaths ↔ q = x.normal ∨ q ∈ m.dependencies) ∧
      some source ≠ none ∧
      x.normal ∉ (l.loadCanonical x.normal (some source) ⟨.empty, []⟩).2.readPaths := by
  intro x l source
  obtain ⟨-, -, hsupplied, hfresh⟩ := reads_exact l .empty x (some source)
  refine ⟨?_, nofun, hsupplied nofun⟩
  have hok : (l.loadFromPath x .initial).1.toOption.isSome = true := by cbv
  have hreads : (l.loadFromPath x .initial).2.readPaths =
      [x, .parse "a".toList, .parse "b".toList] := by cbv
  rcases hload : l.loadFromPath x .initial with ⟨e | m, s₁⟩
  · rw [hload] at hok
    cases hok
  · rw [hload] at hreads
    exact ⟨m, s₁, rfl, hreads, hfresh m s₁ hload⟩

end ShaderInclude
