import Mathlib.Data.List.Induction
import ShaderInclude.Proofs.Resolution.Call

/-!
# Include trees

A module that is cached or handed out was put together from modules that may be gone by now, so no
state of the cache explains it. What explains it is a finite tree of paths and sources:
`IncludeTree.code` is the code that its splices give, `IncludeTree.descendants` lists the paths
below its root, and `IncludeTree.Follows` says that each node has one child for each directive of
its source, at the directive's target.

`exists_tree_of_module` says that every module has such a tree, and that its sources are all
`Provided`: supplied for their paths, or answered by the reader of some call, up to the call that
stored or handed out the module. One call reads no path twice (`Call.nodup_readPaths`), so that a
loader for each call covers readers whose answers change at any time.
-/

namespace ShaderInclude

/-- A finite tree of sources with their paths. -/
inductive IncludeTree where
  | node (path : Path) (source : Text) (children : List IncludeTree)

namespace IncludeTree

/-- The path at the root. -/
def path : IncludeTree → Path
  | node p _ _ => p

/-- The source at the root. -/
def source : IncludeTree → Text
  | node _ source _ => source

/-- The code after texts were put in place of directives, from the last directive to the first. -/
def spliceAll (ds : List Directive) (texts : List Text) (source : Text) : Text :=
  (ds.zip texts).foldr (fun x code => x.1.splice x.2 code) source

mutual

/-- The code of a node: its source with the codes of its children in place of the directives. -/
def code : IncludeTree → Text
  | node _ source children => spliceAll (Directive.scan source) (codes children) source

/-- The codes of nodes in a row. -/
def codes : List IncludeTree → List Text
  | [] => []
  | t :: ts => t.code :: codes ts

end

mutual

/-- The paths of the nodes strictly below the root. -/
def descendants : IncludeTree → List Path
  | node _ _ children => pathsOf children

/-- The paths of all nodes of trees in a row. -/
def pathsOf : List IncludeTree → List Path
  | [] => []
  | t :: ts => t.path :: (t.descendants ++ pathsOf ts)

end

theorem codes_eq_map (ts : List IncludeTree) : codes ts = ts.map code := by
  induction ts with
  | nil => rfl
  | cons t ts ih => rw [codes, ih, List.map_cons]

theorem mem_pathsOf {ts : List IncludeTree} {q : Path} :
    q ∈ pathsOf ts ↔ ∃ t ∈ ts, q = t.path ∨ q ∈ t.descendants := by
  induction ts with
  | nil => simp [pathsOf]
  | cons t ts ih => simp [pathsOf, ih, or_assoc]

/-- **The tree follows the directives.** Every source is one that `provided` has for its canonical
path, and every node has one child for each directive of its source, in the same order, at the
target of the directive. -/
inductive Follows (provided : Path → Text → Prop) : IncludeTree → Prop
  | node {p directory : Path} {source : Text} {children : List IncludeTree}
      (hcanonical : p.IsCanonical) (hprovided : provided p source)
      (hdir : p.directory? = some directory)
      (hpaths : children.map path =
        (Directive.scan source).map fun d => Path.target directory d.path)
      (hchildren : ∀ t ∈ children, Follows provided t) :
    Follows provided (.node p source children)

theorem Follows.mono {provided provided' : Path → Text → Prop} {t : IncludeTree}
    (ht : t.Follows provided) (h : ∀ q source, provided q source → provided' q source) :
    t.Follows provided' := by
  induction ht with
  | node hcanonical hprovided hdir hpaths _ ih =>
    exact .node hcanonical (h _ _ hprovided) hdir hpaths ih

/-- The tree has the module at its root: the same source, its code, and as dependencies exactly
the paths below the root. -/
structure Explains (t : IncludeTree) (m : Module) : Prop where
  source_eq : m.source = t.source
  code_eq : m.code = t.code
  mem_dependencies : ∀ q, q ∈ m.dependencies ↔ q ∈ t.descendants

end IncludeTree

/-! ### Splices from the last directive to the first -/

namespace IncludeTree

/-- The last directive is replaced first. -/
theorem spliceAll_concat {ds : List Directive} {texts : List Text}
    (h : ds.length = texts.length) (d : Directive) (text source : Text) :
    spliceAll (ds ++ [d]) (texts ++ [text]) source = spliceAll ds texts (d.splice text source) := by
  simp [spliceAll, List.zip_append h]

end IncludeTree

/-- Some tree with the module at its root, at a path. -/
def Module.Explained (provided : Path → Text → Prop) (p : Path) (m : Module) : Prop :=
  ∃ t : IncludeTree, t.path = p ∧ t.Follows provided ∧ t.Explains m

/-- Every cached module has a tree. -/
def Cache.Explained (provided : Path → Text → Prop) (c : Cache) : Prop :=
  ∀ p m, c.get? p = some m → m.Explained provided p

/-- What explains the result of a task: a tree for a path, and for directives one tree for each of
them, in the order of the source. -/
def Task.Explained (provided : Path → Text → Prop) : Task → Module → Prop
  | .path p, m => m.Explained provided p
  | .directives directory ds m, m' =>
    ∃ ts : List IncludeTree,
      ts.map IncludeTree.path = ds.reverse.map (fun d => Path.target directory d.path) ∧
      (∀ t ∈ ts, t.Follows provided) ∧ m'.source = m.source ∧
      m'.code = IncludeTree.spliceAll ds.reverse (ts.map IncludeTree.code) m.code ∧
      ∀ q, q ∈ m'.dependencies ↔ q ∈ IncludeTree.pathsOf ts ∨ q ∈ m.dependencies

variable {provided : Path → Text → Prop} {reader : Reader} {limit : Nat} {referrer : Path}
  {ancestors : List Path} {task : Task} {s s' : CacheState} {r : Except LoadError Module}

/-- The trees of all directives of a source are the children of a tree of the source. -/
theorem Task.Explained.node {p directory : Path} {source : Text} {m : Module}
    (h : (Task.ofSource directory source).Explained provided m) (hp : p.IsCanonical)
    (hprovided : provided p source) (hdir : p.directory? = some directory) :
    m.Explained provided p := by
  obtain ⟨ts, hpaths, hfollows, hsource, hcode, hdeps⟩ := h
  rw [List.reverse_reverse] at hpaths hcode
  refine ⟨.node p source ts, rfl, .node hp hprovided hdir hpaths hfollows, hsource, ?_, ?_⟩
  · rw [hcode, IncludeTree.code, IncludeTree.codes_eq_map]
    rfl
  · intro q
    rw [hdeps, IncludeTree.descendants]
    simp

/-- One more directive, replaced before the others, is one more tree, behind the others. -/
theorem Task.Explained.concat {directory : Path} {d : Directive} {ds : List Directive}
    {m included m' : Module} (hincluded : included.Explained provided (.target directory d.path))
    (h : (Task.directives directory ds
      (m.splice d (.target directory d.path) included)).Explained provided m') :
    (Task.directives directory (d :: ds) m).Explained provided m' := by
  obtain ⟨t, hpath, ht, hexplains⟩ := hincluded
  obtain ⟨ts, hpaths, hfollows, hsource, hcode, hdeps⟩ := h
  refine ⟨ts ++ [t], by simp [hpaths, hpath], ?_, hsource, ?_, fun q => ?_⟩
  · intro t' ht'
    rcases List.mem_append.mp ht' with ht' | ht'
    · exact hfollows t' ht'
    · rwa [List.mem_singleton.mp ht']
  · have hlength : ds.reverse.length = (ts.map IncludeTree.code).length := by
      simpa using (congrArg List.length hpaths).symm
    rw [List.reverse_cons, List.map_append, List.map_singleton,
      IncludeTree.spliceAll_concat hlength, hcode, ← hexplains.code_eq]
    rfl
  · rw [hdeps, Module.mem_dependencies_splice, hexplains.mem_dependencies]
    simp only [IncludeTree.mem_pathsOf, List.mem_append, List.mem_singleton]
    constructor
    · rintro (⟨t', ht', hq⟩ | hq | hq | hq)
      · exact .inl ⟨t', .inl ht', hq⟩
      · exact .inl ⟨t, .inr rfl, .inl (hq.trans hpath.symm)⟩
      · exact .inl ⟨t, .inr rfl, .inr hq⟩
      · exact .inr hq
    · rintro (⟨t', ht' | rfl, hq⟩ | hq)
      · exact .inl ⟨t', ht', hq⟩
      · exact .inr (hq.imp (·.trans hpath) .inl)
      · exact .inr (.inr (.inr hq))

/-- A module that is stored with a tree leaves all cached modules with trees. -/
theorem Cache.Explained.store {c : Cache} (hc : c.Explained provided) {p : Path} {m : Module}
    (hm : m.Explained provided p) : (c.store p m).Explained provided := by
  intro q m' hq
  rw [Cache.get?_store] at hq
  split at hq
  case isTrue hpq =>
    cases hq
    exact hpq ▸ hm
  case isFalse => exact hc q m' hq

/-- **A call explains what it resolves**, from the trees of the cached modules and from the sources
that it reads. -/
theorem Derives.explained (h : Derives reader limit referrer ancestors task s r s')
    (hread : ∀ q source, .read q ∈ s'.events → reader q = .ok source → provided q source)
    (htask : task.IsCanonical) (hs : s.cache.Explained provided) :
    s'.cache.Explained provided ∧ ∀ m, r = .ok m → task.Explained provided m := by
  induction h with
  | tooDeep | circular | unread | noDirectory => exact ⟨hs, nofun⟩
  | @reused _ _ _ p _ m _ hcached =>
    refine ⟨hs, fun m' hm' => ?_⟩
    cases hm'
    exact hs p m hcached
  | failed _ _ _ _ _ ih => exact ⟨(ih hread trivial hs).1, nofun⟩
  | @stored _ _ _ p _ _ _ source m _ _ hown hdir hbody ih =>
    obtain ⟨hs', hm⟩ := ih hread trivial hs
    have hsource := hread p source (hbody.mem_events CacheState.read_mem_requested) hown
    have hp := (hm m rfl).node htask hsource hdir
    refine ⟨hs'.store hp, fun m' hm' => ?_⟩
    cases hm'
    exact hp
  | done =>
    refine ⟨hs, fun m' hm' => ?_⟩
    cases hm'
    exact ⟨[], rfl, nofun, rfl, rfl, by simp [IncludeTree.pathsOf]⟩
  | halted _ ih => exact ⟨(ih hread (Path.target_isCanonical _ _) hs).1, nofun⟩
  | @spliced _ _ _ directory d _ _ included _ _ _ _ _ hrest ih₁ ih₂ =>
    have hmid := ih₁ (fun q source hq => hread q source (hrest.mem_events (by simp [hq])))
      (Path.target_isCanonical directory d.path) hs
    obtain ⟨hs', hm⟩ := ih₂ hread trivial hmid.1
    exact ⟨hs', fun m' hm' => (hm m' hm').concat (hmid.2 included rfl)⟩

/-! ### Along the calls of a cache -/

variable {l : Loader} {p directory : Path} {supplied : Option Text}

theorem RootSource.source_provided {source : Text} {s₀ : CacheState}
    (h : RootSource l p s supplied source s₀) (hevents : s₀.events <+: s'.events)
    (hsupplied : ∀ source, supplied = some source → provided p source)
    (hread : ∀ q source, .read q ∈ s'.events → l.reader q = .ok source → provided q source) :
    provided p source := by
  cases h with
  | supplied => exact hsupplied source rfl
  | read _ hown => exact hread p source (hevents.subset (by simp)) hown

/-- The module of a root has a tree. -/
theorem Rooted.explained (h : Rooted l p directory supplied s r s') (hp : p.IsCanonical)
    (hdir : p.directory? = some directory)
    (hsupplied : ∀ source, supplied = some source → provided p source)
    (hread : ∀ q source, .read q ∈ s'.events → l.reader q = .ok source → provided q source)
    (hs : s.cache.Explained provided) :
    s'.cache.Explained provided ∧ ∀ m, r = .ok m → m.Explained provided p := by
  cases h with
  | cached _ hcached =>
    refine ⟨hs, fun m hm => ?_⟩
    cases hm
    exact hs p _ hcached
  | unread => exact ⟨hs, nofun⟩
  | failed hsource hbody =>
    rw [← hsource.cache_eq] at hs
    exact ⟨(hbody.explained hread trivial hs).1, nofun⟩
  | resolved hsource hbody =>
    rw [← hsource.cache_eq] at hs
    obtain ⟨hs', hm⟩ := hbody.explained hread trivial hs
    refine ⟨hs', fun m' hm' => (hm m' hm').node hp ?_ hdir⟩
    exact hsource.source_provided hbody.events_prefix hsupplied hread

/-- The loading of a root explains its module. -/
theorem Loads.explained (h : Loads l p supplied s r s') (hp : p.IsCanonical)
    (hsupplied : ∀ source, supplied = some source → provided p source)
    (hread : ∀ q source, .read q ∈ s'.events → l.reader q = .ok source → provided q source)
    (hs : s.cache.Explained provided) :
    s'.cache.Explained provided ∧ ∀ m, r = .ok m → m.Explained provided p := by
  have hcommit : ∀ {m : Module} {s₁ : CacheState}, s₁.cache.Explained provided →
      m.Explained provided p → (Loader.committed p supplied m s₁).cache.Explained provided := by
    intro m s₁ hs₁ hm q m' hq
    obtain ⟨rfl, rfl⟩ | ⟨-, hq⟩ := Loader.get?_committed hq
    · exact hm
    · exact hs₁ q m' hq
  cases h with
  | noDirectory => exact ⟨hs, nofun⟩
  | unrooted hdir hroot => exact ⟨(hroot.explained hp hdir hsupplied hread hs).1, nofun⟩
  | refused hdir hroot =>
    simp only [Loader.read_mem_checked] at hread
    rw [Loader.cache_checked]
    exact ⟨(hroot.explained hp hdir hsupplied hread hs).1, nofun⟩
  | marked hdir hroot =>
    simp only [Loader.read_mem_committed] at hread
    obtain ⟨hs₁, hm⟩ := hroot.explained hp hdir hsupplied hread hs
    refine ⟨hcommit hs₁ (hm _ rfl), fun m' hm' => ?_⟩
    exact hm m' hm'
  | passed hdir hroot =>
    simp only [Loader.read_mem_committed, CacheState.events_withCache, Loader.read_mem_checked]
      at hread
    obtain ⟨hs₁, hm⟩ := hroot.explained hp hdir hsupplied hread hs
    refine ⟨hcommit hs₁ (hm _ rfl), fun m' hm' => ?_⟩
    exact hm m' hm'

/-- The source comes from the call for the path: it is supplied for this root, or the path is read
and it is the answer. -/
def Call.Provides (l : Loader) (c : Cache) (call : Call) (q : Path) (source : Text) : Prop :=
  call.root? = some (q, some source) ∨
    (.read q ∈ (call.after l c).events ∧ l.reader q = .ok source)

/-- The source comes from one of the calls in a row for the path. -/
def Provided (uses : List (Loader × Call)) (q : Path) (source : Text) : Prop :=
  ∃ before l call, before ++ [(l, call)] <+: uses ∧
    call.Provides l (cacheAfter before) q source

/-- What a call provides stays provided. -/
theorem Provided.mono {uses uses' : List (Loader × Call)} (h : uses <+: uses') {q : Path}
    {source : Text} (hq : Provided uses q source) : Provided uses' q source := by
  obtain ⟨before, l, call, hbefore, hcall⟩ := hq
  exact ⟨before, l, call, hbefore.trans h, hcall⟩

theorem Cache.Explained.mono {provided provided' : Path → Text → Prop} {c : Cache}
    (hc : c.Explained provided) (h : ∀ q source, provided q source → provided' q source) :
    c.Explained provided' := by
  intro p m hm
  obtain ⟨t, hpath, hfollows, hexplains⟩ := hc p m hm
  exact ⟨t, hpath, hfollows.mono h, hexplains⟩

/-- A call explains the modules that it leaves in the cache and the module that it hands out. -/
theorem Call.explained (l : Loader) (call : Call) {c : Cache} (hc : c.Explained provided)
    (hcall : ∀ q source, call.Provides l c q source → provided q source) :
    (call.after l c).cache.Explained provided ∧
      ∀ p m, call.handedOut? l c = some (p, m) → m.Explained provided p := by
  have hread := fun q source h₁ h₂ => hcall q source (.inr ⟨h₁, h₂⟩)
  generalize hafter : call.after l c = s' at hread ⊢
  generalize hhanded : call.handedOut? l c = handed
  have hserved := call.served l c
  rw [hafter, hhanded] at hserved
  cases hserved with
  | @loaded p supplied result _ hroot hloads =>
    obtain ⟨hs', hm⟩ := hloads.explained (isCanonical_of_root? hroot)
      (fun source h => hcall p source (.inl (h ▸ hroot))) hread hc
    refine ⟨hs', fun q m hq => ?_⟩
    cases result with
    | error => cases hq
    | ok m' =>
      cases hq
      exact hm _ rfl
  | dropped _ hcached hhanded =>
    exact ⟨fun q m hq => hc q m (hcached q m hq), fun q m hq => hc q m (hhanded q m hq)⟩

/-- After calls in a row every cached module has a tree of what they provided. -/
theorem cacheAfter_explained (uses : List (Loader × Call)) :
    (cacheAfter uses).Explained (Provided uses) := by
  induction uses using List.reverseRecOn with
  | nil => exact nofun
  | append_singleton uses u ih =>
    rw [cacheAfter_concat]
    have hmono := ih.mono fun q source => Provided.mono (List.prefix_append uses [u])
    exact (u.2.explained u.1 hmono fun q source h => ⟨uses, u.1, u.2, List.prefix_rfl, h⟩).1

/-- **Every module has a finite include tree that explains it.** Whatever the calls of a cache, each
with readers and a validator of its own: a module that is cached after them, or that the last one
hands out, has a tree with its path at the root. The sources of the tree are provided by the calls
up to the last one, each for the path of its node, the children of a node stand at the targets of
its directives, and the tree gives the module's code and exactly its dependencies. -/
theorem exists_tree_of_module (uses : List (Loader × Call)) (l : Loader) (call : Call) (p : Path)
    (m : Module) :
    (call.after l (cacheAfter uses)).cache.get? p = some m ∨
        call.handedOut? l (cacheAfter uses) = some (p, m) →
      ∃ t : IncludeTree, t.path = p ∧ t.Follows (Provided (uses ++ [(l, call)])) ∧
        t.Explains m := by
  have hmono := (cacheAfter_explained uses).mono fun q source =>
    Provided.mono (List.prefix_append uses [(l, call)])
  obtain ⟨hcached, hhanded⟩ := call.explained l hmono
    fun q source h => ⟨uses, l, call, List.prefix_rfl, h⟩
  rintro (h | h)
  · exact hcached p m h
  · exact hhanded p m h

/-- A module that includes another one. -/
def replacedTable : OrderedMap Path Text :=
  .ofList [(.parse "a".toList, "& include 'b';".toList), (.parse "b".toList, "old".toList)]

/-- The tree of an includer outlives what it includes: the included module is taken out and loaded
again from another source. -/
theorem exists_tree_of_module_replaced :
    let l : Loader := ⟨.ofTable replacedTable, none, Loader.defaultLimit⟩
    let l' : Loader :=
      ⟨.ofTable (.ofList [(.parse "b".toList, "new".toList)]), none, Loader.defaultLimit⟩
    let uses : List (Loader × Call) :=
      [(l, .loadFromPath (.parse "a".toList)), (l, .detach (.parse "b".toList))]
    let call : Call := .loadFromPath (.parse "b".toList)
    let m : Module := ⟨"& include 'b';".toList, [⟨.line, ['b'], 0, 14⟩], "old".toList,
      [.parse "b".toList]⟩
    (call.after l' (cacheAfter uses)).cache.get? (.parse "a".toList) = some m ∧
      ∃ t : IncludeTree, t.path = .parse "a".toList ∧
        t.Follows (Provided (uses ++ [(l', call)])) ∧ t.Explains m := by
  intro l l' uses call m
  have hcached : (call.after l' (cacheAfter uses)).cache.get? (.parse "a".toList) = some m := by
    decide +kernel
  exact ⟨hcached, exists_tree_of_module uses l' call (.parse "a".toList) m (.inl hcached)⟩

end ShaderInclude
