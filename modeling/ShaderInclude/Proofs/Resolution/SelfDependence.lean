import Mathlib.Data.List.Induction
import ShaderInclude.Proofs.Resolution.Call

/-!
# Modules that depend on themselves

A call that resolves a module compares the targets of directives with the paths that it is
resolving, so no module is built from itself within one call. But it takes over cached modules as
they are. A cached module may include a path that is no longer cached, or whose source the call
replaces, and if that path is resolved anew and leads to the cached module, it comes to depend on
itself.

`Call.ClosesCircle` is this situation, and `self_not_mem_dependencies_iff` says that it is the only
one: throughout a run no module depends on itself if and only if no call of the run closes a
circle. The proof follows one call by `Cache.BuiltFrom`, which says what the modules that are new in
its cache depend on. `self_mem_dependencies` is a run of two calls that closes a circle.
-/

namespace ShaderInclude

/-- `p` leads to `q` through paths that are not cached. -/
inductive LeadsAnew (reader : Reader) (c : Cache) : Path → Path → Prop
  | target {p q : Path} (h : Includes reader p q) : LeadsAnew reader c p q
  | through {p y q : Path} (h : Includes reader p y) (hnew : c.get? y = none)
      (hq : LeadsAnew reader c y q) : LeadsAnew reader c p q

/-- `p` leads to a cached module with `q` among its dependencies, through paths that are not
cached. -/
def LeadsBelow (reader : Reader) (c : Cache) (p q : Path) : Prop :=
  ∃ x m, LeadsAnew reader c p x ∧ c.get? x = some m ∧ q ∈ m.dependencies

/-- What the module of a path depends on: its own dependencies if it is cached, and else
everything to which the path leads. -/
def DependsOn (reader : Reader) (c : Cache) (p q : Path) : Prop :=
  match c.get? p with
  | some m => q ∈ m.dependencies
  | none => LeadsAnew reader c p q ∨ LeadsBelow reader c p q

variable {reader : Reader} {c : Cache} {p q : Path}

/-- A path leads to its targets and to what these depend on. -/
theorem leads_iff :
    LeadsAnew reader c p q ∨ LeadsBelow reader c p q ↔
      ∃ y, Includes reader p y ∧ (q = y ∨ DependsOn reader c y q) := by
  constructor
  · rintro (h | ⟨x, m, h, hx, hq⟩)
    · cases h with
      | target h => exact ⟨q, h, .inl rfl⟩
      | @through _ y _ h hnew hq => exact ⟨y, h, .inr (by simp [DependsOn, hnew, hq])⟩
    · cases h with
      | target h => exact ⟨x, h, .inr (by simp [DependsOn, hx, hq])⟩
      | @through _ y _ h hnew hx' =>
        have hbelow : LeadsBelow reader c y q := ⟨x, m, hx', hx, hq⟩
        exact ⟨y, h, .inr (by simp [DependsOn, hnew, hbelow])⟩
  · rintro ⟨y, h, rfl | hq⟩
    · exact .inl (.target h)
    unfold DependsOn at hq
    split at hq
    case h_1 m hy => exact .inr ⟨y, m, .target h, hy, hq⟩
    case h_2 hnew =>
      obtain hq | ⟨x, m, hx, hm, hq⟩ := hq
      · exact .inl (.through h hnew hq)
      · exact .inr ⟨x, m, .through h hnew hx, hm, hq⟩

/-- **What is known of a module that a call has resolved anew**, in a cache that has grown from
`c` below the root `root`: what it depends on, and that everything to which it leads is cached and
is neither the root nor the module itself. -/
structure ResolvedAnew (reader : Reader) (c : Cache) (root : Path) (c' : Cache) (p : Path)
    (m : Module) : Prop where
  mem_dependencies : ∀ q, q ∈ m.dependencies ↔ LeadsAnew reader c p q ∨ LeadsBelow reader c p q
  cached : ∀ q, LeadsAnew reader c p q → q ≠ root ∧ ∃ m, c'.get? q = some m
  not_self : ¬ LeadsAnew reader c p p

/-- Every module that is cached in `c'` but not in `c` is resolved anew. -/
def Cache.BuiltFrom (c' : Cache) (reader : Reader) (c : Cache) (root : Path) : Prop :=
  ∀ q m, c.get? q = none → c'.get? q = some m → ResolvedAnew reader c root c' q m

/-! ### Along one call -/

variable {root : Path} {c' c'' : Cache} {m : Module}

theorem ResolvedAnew.mono (h : ResolvedAnew reader c root c' p m)
    (hgrow : ∀ q m, c'.get? q = some m → ∃ m, c''.get? q = some m) :
    ResolvedAnew reader c root c'' p m := by
  refine ⟨h.mem_dependencies, fun q hq => ?_, h.not_self⟩
  obtain ⟨hroot, m', hm'⟩ := h.cached q hq
  exact ⟨hroot, hgrow q m' hm'⟩

/-- A cache stays built when a module is stored that was resolved anew. -/
theorem Cache.BuiltFrom.store (h : c'.BuiltFrom reader c root) (hnew : c'.get? p = none)
    (hp : ResolvedAnew reader c root c' p m) : (c'.store p m).BuiltFrom reader c root := by
  have hgrow : ∀ q m', c'.get? q = some m' → ∃ m', (c'.store p m).get? q = some m' := by
    intro q m' hq
    have hne : p ≠ q := by
      rintro rfl
      rw [hnew] at hq
      cases hq
    exact ⟨m', by rw [Cache.get?_store, if_neg hne, hq]⟩
  intro q m' hold hq
  rw [Cache.get?_store] at hq
  split at hq
  case isTrue hpq =>
    cases hq
    exact hpq ▸ hp.mono hgrow
  case isFalse => exact (h q m' hold hq).mono hgrow

/-- What the result of a task depends on: for directives the targets and what these depend on,
beside what the module depended on before. -/
def Task.Collects (reader : Reader) (c : Cache) : Task → Module → Prop
  | .path p, m => ∀ q, q ∈ m.dependencies ↔ DependsOn reader c p q
  | .directives directory ds m, m' => ∀ q, q ∈ m'.dependencies ↔
      q ∈ m.dependencies ∨
        ∃ y ∈ (Task.directives directory ds m).targets, q = y ∨ DependsOn reader c y q

/-- The dependencies of a source whose directives are all replaced. -/
theorem Task.Collects.ofSource {directory : Path} {source : Text}
    (h : (Task.ofSource directory source).Collects reader c m) (hread : reader p = .ok source)
    (hdir : p.directory? = some directory) (q : Path) :
    q ∈ m.dependencies ↔ LeadsAnew reader c p q ∨ LeadsBelow reader c p q := by
  rw [h q, leads_iff]
  simp [includes_iff_of_read hread hdir]

/-- Everything to which a source leads is cached once its directives are all replaced. -/
theorem leadsAnew_cached {limit : Nat} {referrer : Path} {ancestors : List Path}
    {directory : Path} {source : Text} {reader' : Reader} {s s' : CacheState}
    (hbody : Derives reader' limit referrer ancestors (.ofSource directory source) s (.ok m) s')
    (hroot : root ∈ referrer :: ancestors) (hs' : s'.cache.BuiltFrom reader c root)
    (hread : reader p = .ok source) (hdir : p.directory? = some directory)
    (hq : LeadsAnew reader c p q) : q ≠ root ∧ ∃ m, s'.cache.get? q = some m := by
  have hincludes : ∀ y, Includes reader p y → y ≠ root ∧ ∃ m, s'.cache.get? y = some m := by
    intro y hy
    obtain ⟨htrace, hcached⟩ :=
      hbody.get?_of_mem_targets rfl ((includes_iff_of_read hread hdir).mp hy)
    refine ⟨?_, hcached⟩
    rintro rfl
    exact htrace hroot
  cases hq with
  | target h => exact hincludes q h
  | @through _ y _ h hnew hq =>
    obtain ⟨m', hm'⟩ := (hincludes y h).2
    exact (hs' y m' hnew hm').cached q hq

/-- **What a call makes of its cache and of its module**, below the root of the call. -/
theorem Derives.builtFrom {reader' : Reader} {limit : Nat} {referrer : Path}
    {ancestors : List Path} {task : Task} {s s' : CacheState} {r : Except LoadError Module}
    (h : Derives reader' limit referrer ancestors task s r s')
    (hreader : ∀ q, q ≠ root → reader q = reader' q) (hroot : root ∈ referrer :: ancestors)
    (hkept : ∀ q m, c.get? q = some m → s.cache.get? q = some m)
    (hs : s.cache.BuiltFrom reader c root) :
    s'.cache.BuiltFrom reader c root ∧ ∀ m, r = .ok m → task.Collects reader c m := by
  induction h with
  | tooDeep | circular | unread | noDirectory => exact ⟨hs, nofun⟩
  | @reused _ _ _ p s m _ hcached =>
    refine ⟨hs, fun m' hm' q => ?_⟩
    cases hm'
    -- the module was there before the call, or the call has built it
    unfold DependsOn
    split
    case h_1 m' hm' => rw [Option.some.inj (hcached.symm.trans (hkept p m' hm'))]
    case h_2 hnew => exact (hs p m hnew hcached).mem_dependencies q
  | failed _ _ _ _ _ ih =>
    exact ⟨(ih (List.mem_cons_of_mem _ hroot) hkept hs).1, nofun⟩
  | @stored _ _ _ p directory s s' source m htrace hcached hown hdir hbody ih =>
    obtain ⟨hs', hm⟩ := ih (List.mem_cons_of_mem _ hroot) hkept hs
    have hread : reader p = .ok source := by
      rw [hreader p (by rintro rfl; exact htrace hroot), hown]
    have hnew : c.get? p = none := by
      cases hget : c.get? p with
      | none => rfl
      | some m' =>
        rw [hkept p m' hget] at hcached
        cases hcached
    have hpath : s'.cache.get? p = none := hbody.get?_eq_none List.mem_cons_self hcached
    have hleads := fun q =>
      leadsAnew_cached (q := q) hbody (List.mem_cons_of_mem _ hroot) hs' hread hdir
    have hdeps := (hm m rfl).ofSource hread hdir
    refine ⟨hs'.store hpath ⟨hdeps, hleads, fun hself => ?_⟩, fun m' hm' q => ?_⟩
    · -- a path that is being resolved is not cached, but everything that it leads to is
      obtain ⟨-, m', hm'⟩ := hleads p hself
      rw [hpath] at hm'
      cases hm'
    · cases hm'
      rw [hdeps q, DependsOn, hnew]
  | done =>
    refine ⟨hs, fun m' hm' q => ?_⟩
    cases hm'
    simp [Task.targets]
  | halted _ ih => exact ⟨(ih hroot hkept hs).1, nofun⟩
  | @spliced _ _ _ directory d _ _ included _ _ _ _ htarget _ ih₁ ih₂ =>
    obtain ⟨hs₁, hincluded⟩ := ih₁ hroot hkept hs
    obtain ⟨hs₂, hm⟩ := ih₂ hroot (fun q m hq => htarget.retains (hkept q m hq)) hs₁
    refine ⟨hs₂, fun m' hm' q => ?_⟩
    rw [hm m' hm' q, Module.mem_dependencies_splice, hincluded included rfl q]
    simp only [Task.targets, List.map_cons, List.mem_cons, exists_eq_or_imp]
    constructor
    · rintro ((h | h | h) | h)
      · exact .inr (.inl (.inl h))
      · exact .inr (.inl (.inr h))
      · exact .inl h
      · exact .inr (.inr h)
    · rintro (h | (h | h) | h)
      · exact .inl (.inr (.inr h))
      · exact .inl (.inl h)
      · exact .inl (.inr (.inl h))
      · exact .inr h

/-! ### At the root of a call -/

/-- The answers of a loader's reader, with a supplied source in place of the one at a path. -/
def Loader.supplying (l : Loader) (p : Path) (supplied : Option Text) : Reader := fun q =>
  match supplied with
  | some source => if q = p then .ok source else l.reader q
  | none => l.reader q

variable {l : Loader} {directory : Path} {supplied : Option Text} {s s' : CacheState}
  {r : Except LoadError Module}

theorem Loader.supplying_of_ne (h : q ≠ p) : l.supplying p supplied q = l.reader q := by
  cases supplied <;> simp [supplying, h]

theorem RootSource.supplying_eq {source : Text} {s₀ : CacheState}
    (h : RootSource l p s supplied source s₀) : l.supplying p supplied p = .ok source := by
  cases h with
  | supplied => simp [Loader.supplying]
  | read _ hread => exact hread

/-- A source of a root, resolved. -/
theorem RootSource.builtFrom {source : Text} {s₀ : CacheState}
    (h : RootSource l p s supplied source s₀)
    (hbody : Derives l.reader l.limit p [] (.ofSource directory source) s₀ r s') :
    s'.cache.BuiltFrom (l.supplying p supplied) s.cache p ∧
      (∀ q m, s.cache.get? q = some m → s'.cache.get? q = some m) ∧
      ∀ m, r = .ok m →
        (Task.ofSource directory source).Collects (l.supplying p supplied) s.cache m := by
  have hstart : s₀.cache.BuiltFrom (l.supplying p supplied) s.cache p := by
    intro q m hnew hq
    rw [h.cache_eq, hnew] at hq
    cases hq
  obtain ⟨hs', hm⟩ := hbody.builtFrom (fun q hq => Loader.supplying_of_ne hq) List.mem_cons_self
    (fun q m hq => h.cache_eq ▸ hq) hstart
  exact ⟨hs', fun q m hq => hbody.retains (h.cache_eq ▸ hq), hm⟩

/-- A root that was resolved depends on itself if and only if it leads to a module that was cached
and depends on it. -/
private theorem Rooted.self_mem_iff (h : Rooted l p directory supplied s r s')
    (hdir : p.directory? = some directory) :
    s'.cache.BuiltFrom (l.supplying p supplied) s.cache p ∧
      (∀ q m, s.cache.get? q = some m → s'.cache.get? q = some m) ∧
      ∀ m, r = .ok m → s.cache.get? p ≠ some m →
        (p ∈ m.dependencies ↔ LeadsBelow (l.supplying p supplied) s.cache p p) := by
  have hsame : s.cache.BuiltFrom (l.supplying p supplied) s.cache p := by
    intro q m hnew hq
    rw [hnew] at hq
    cases hq
  cases h with
  | cached _ hcached =>
    refine ⟨hsame, fun q m hq => hq, fun m hm hnew => ?_⟩
    cases hm
    exact absurd hcached hnew
  | unread => exact ⟨hsame, fun q m hq => hq, nofun⟩
  | failed hsource hbody =>
    obtain ⟨hs', hkept, -⟩ := hsource.builtFrom hbody
    exact ⟨hs', hkept, nofun⟩
  | resolved hsource hbody =>
    obtain ⟨hs', hkept, hm⟩ := hsource.builtFrom hbody
    refine ⟨fun q m hold hq => (hs' q m hold hq).mono fun q m hq => ⟨m, hq⟩, hkept, ?_⟩
    intro m hr _
    cases hr
    rw [(hm _ rfl).ofSource hsource.supplying_eq hdir p]
    -- the root is on the trace of the whole call, so nothing new leads to it
    refine or_iff_right fun hself => ?_
    exact (leadsAnew_cached hbody List.mem_cons_self hs' hsource.supplying_eq hdir hself).1 rfl

/-- **A module that a load caches anew depends on itself if and only if it leads to a module that
was cached before the load and depends on it.** -/
theorem Loads.self_mem_iff (h : Loads l p supplied s r s') (hq : s'.cache.get? q = some m)
    (hnew : s.cache.get? q ≠ some m) :
    q ∈ m.dependencies ↔ LeadsBelow (l.supplying p supplied) s.cache q q := by
  have hbuilt : ∀ {s₁ : CacheState}, s₁.cache.BuiltFrom (l.supplying p supplied) s.cache p →
      (∀ q m, s.cache.get? q = some m → s₁.cache.get? q = some m) → s₁.cache.get? q = some m →
      (q ∈ m.dependencies ↔ LeadsBelow (l.supplying p supplied) s.cache q q) := by
    intro s₁ hs₁ hkept hq
    -- a module cached before would still be the same
    have hold : s.cache.get? q = none := by
      cases hget : s.cache.get? q with
      | none => rfl
      | some m' => exact absurd (hget.trans (hkept q m' hget ▸ hq)) hnew
    have hanew := hs₁ q m hold hq
    rw [hanew.mem_dependencies]
    exact or_iff_right hanew.not_self
  cases h with
  | noDirectory => exact absurd hq hnew
  | unrooted hdir hroot =>
    obtain ⟨hs₁, hkept, -⟩ := hroot.self_mem_iff hdir
    exact hbuilt hs₁ hkept hq
  | refused hdir hroot =>
    obtain ⟨hs₁, hkept, -⟩ := hroot.self_mem_iff hdir
    rw [Loader.cache_checked] at hq
    exact hbuilt hs₁ hkept hq
  | marked hdir hroot | passed hdir hroot =>
    obtain ⟨hs₁, hkept, hm⟩ := hroot.self_mem_iff hdir
    obtain ⟨rfl, rfl⟩ | ⟨-, hq⟩ := Loader.get?_committed hq
    · exact hm _ rfl hnew
    · exact hbuilt hs₁ hkept hq

/-- A module that was loaded is cached. -/
theorem Loads.get?_of_ok (h : Loads l p supplied s (.ok m) s') : s'.cache.get? p = some m := by
  cases h with
  | marked | passed => simp [Loader.committed]

/-! ### Along a run -/

/-- The sources from which a call resolves modules anew. -/
def Call.sources (l : Loader) (call : Call) : Reader :=
  match call.root? with
  | some (p, supplied) => l.supplying p supplied
  | none => l.reader

/-- **The call closes a circle**: at some path it caches a new module, and the path leads, through
paths that were not cached before, to a module that was cached before and depends on the path. -/
def Call.ClosesCircle (l : Loader) (c : Cache) (call : Call) : Prop :=
  ∃ q m, (call.after l c).cache.get? q = some m ∧ c.get? q ≠ some m ∧
    LeadsBelow (call.sources l) c q q

/-- A module that a call caches anew depends on itself if and only if the call closes a circle at
its path. -/
theorem Call.self_mem_iff {call : Call} (hq : (call.after l c).cache.get? q = some m)
    (hnew : c.get? q ≠ some m) : q ∈ m.dependencies ↔ LeadsBelow (call.sources l) c q q := by
  have hserved := call.served l c
  generalize call.after l c = s' at hserved hq
  generalize call.handedOut? l c = handed at hserved
  cases hserved with
  | loaded hroot hloads =>
    unfold Call.sources
    rw [hroot]
    exact hloads.self_mem_iff hq hnew
  | dropped _ hcached => exact absurd (hcached q m hq) hnew

/-- What a call hands out is cached after it, or was before it. -/
theorem Call.cached_of_handedOut {call : Call} (h : call.handedOut? l c = some (p, m)) :
    (call.after l c).cache.get? p = some m ∨ c.get? p = some m := by
  have hserved := call.served l c
  generalize call.after l c = s' at hserved ⊢
  rw [h] at hserved
  generalize hpair : some (p, m) = handed at hserved
  cases hserved with
  | @loaded _ _ result _ _ hloads =>
    cases result with
    | error => cases hpair
    | ok m' =>
      cases hpair
      exact .inl hloads.get?_of_ok
  | dropped _ _ hhanded => exact .inr (hhanded p m hpair.symm)

/-- **When modules depend on themselves.** Throughout a run, whatever the readers and validators of
its calls, no module that is cached or handed out depends on itself if and only if no call of the
run closes a circle. -/
theorem self_not_mem_dependencies_iff (uses : List (Loader × Call)) :
    (∀ before l call, before ++ [(l, call)] <+: uses → ∀ p m,
        (call.after l (cacheAfter before)).cache.get? p = some m ∨
          call.handedOut? l (cacheAfter before) = some (p, m) →
        p ∉ m.dependencies) ↔
      ∀ before l call, before ++ [(l, call)] <+: uses →
        ¬ call.ClosesCircle l (cacheAfter before) := by
  constructor
  · rintro h before l call hbefore ⟨q, m, hq, hnew, hbelow⟩
    exact h before l call hbefore q m (.inl hq) ((Call.self_mem_iff hq hnew).mpr hbelow)
  intro h
  -- what is cached before a call was cached by a call before it, or nothing was
  have hcached : ∀ before, before <+: uses → ∀ p m, (cacheAfter before).get? p = some m →
      p ∉ m.dependencies := by
    intro before
    induction before using List.reverseRecOn with
    | nil => exact fun _ => nofun
    | append_singleton before u ih =>
      intro hbefore p m hp hself
      rw [cacheAfter_concat] at hp
      by_cases hold : (cacheAfter before).get? p = some m
      · exact ih ((List.prefix_append before [u]).trans hbefore) p m hold hself
      · exact h before u.1 u.2 hbefore ⟨p, m, hp, hold, (Call.self_mem_iff hp hold).mp hself⟩
  intro before l call hbefore p m hp
  have hafter := hcached (before ++ [(l, call)]) hbefore p m
  rw [cacheAfter_concat] at hafter
  obtain hp | hp := hp
  · exact hafter hp
  · obtain hp | hp := Call.cached_of_handedOut hp
    · exact hafter hp
    · exact hcached before ((List.prefix_append before [(l, call)]).trans hbefore) p m hp

/-- A module whose source is replaced by one that includes an includer of it: the includer is taken
from the cache, so the new module depends on itself. -/
theorem self_mem_dependencies :
    let l : Loader := ⟨.ofTable (.ofList [(.parse "x".toList, "& include 'r';".toList),
      (.parse "r".toList, "R0".toList)]), none, Loader.defaultLimit⟩
    let uses : List (Loader × Call) := [(l, .loadFromPath (.parse "x".toList))]
    let call : Call := .load (.parse "r".toList) "& include 'x';".toList
    let m : Module := ⟨"& include 'x';".toList, [⟨.line, ['x'], 0, 14⟩], "R0".toList,
      [.parse "x".toList, .parse "r".toList]⟩
    (call.after l (cacheAfter uses)).cache.get? (.parse "r".toList) = some m ∧
      call.handedOut? l (cacheAfter uses) = some (.parse "r".toList, m) ∧
      Path.parse "r".toList ∈ m.dependencies := by
  decide +kernel

end ShaderInclude
