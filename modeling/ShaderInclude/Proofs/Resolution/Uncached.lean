import Mathlib.Data.Finset.Card
import ShaderInclude.Proofs.Resolution.Marks

/-!
# Loading without a memory

`FiniteReader.load` is what a load amounts to when nothing is remembered: the root is read, every
directive is replaced by a module that is read and expanded anew, and the result is checked. It
needs no bound on the nesting, because a reader that succeeds on finitely many paths only cannot
be followed into ever new ones.

The main statement is `loadFromPath_eq_uncached`: a cache that is used through `loadFromPath`,
`detach` and `clear` gives the result of the uncached load, whatever was called before. What a
cache may hold is said by `Yields`, the successful expansions without a trace. A path that yields a
module is accessible along the includes (`Yields.acc`), so a module that is cached never leads
back to a path that is being resolved, and the test for circles that is skipped below it would
not have failed.
-/

namespace ShaderInclude

/-- A reader that succeeds on finitely many canonical paths only. -/
structure FiniteReader where
  read : Reader
  readable : Finset Path
  mem_readable : ∀ {p : Path} {source : Text}, p.IsCanonical → read p = .ok source → p ∈ readable

namespace FiniteReader

/-- The reader of a table of sources. -/
def ofTable (table : OrderedMap Path Text) : FiniteReader where
  read := .ofTable table
  readable := table.keys.toFinset
  mem_readable := by
    intro p source _ hread
    unfold Reader.ofTable at hread
    cases hget : table.get? p with
    | some source => exact List.mem_toFinset.mpr (OrderedMap.mem_keys_iff.mpr ⟨source, hget⟩)
    | none => simp [hget] at hread

/-- Replace directives, given from the last to the first, of a module in a directory. -/
def expand (resolver : (p : Path) → p.IsCanonical → Except LoadError Module) (directory : Path) :
    List Directive → Module → Except LoadError Module
  | [], m => .ok m
  | d :: ds, m =>
    match resolver (Path.target directory d.path) (Path.target_isCanonical directory d.path) with
    | .error e => .error e
    | .ok included =>
      expand resolver directory ds (m.splice d (Path.target directory d.path) included)

variable (r : FiniteReader)

/-- A path that was read is one readable path less to come. -/
theorem card_readable_sdiff_lt {p : Path} {source : Text} {trace : List Path}
    (hp : p.IsCanonical) (htrace : p ∉ trace) (hread : r.read p = .ok source) :
    (r.readable \ (p :: trace).toFinset).card < (r.readable \ trace.toFinset).card := by
  refine Finset.card_lt_card (Finset.ssubset_iff_of_subset ?_ |>.mpr ⟨p, ?_, ?_⟩)
  · exact Finset.sdiff_subset_sdiff (Finset.Subset.refl _) (by simp)
  · simp [r.mem_readable hp hread, htrace]
  · simp

/-- The module of a path that `referrer` includes, itself included by `ancestors`. -/
def resolve (referrer : Path) (ancestors : List Path) (p : Path) (_hp : p.IsCanonical) :
    Except LoadError Module :=
  if _htrace : p ∈ referrer :: ancestors then .error (.finding (.circular p referrer))
  else
    match _hread : r.read p with
    | .error e => .error (e.at p)
    | .ok source =>
      match p.directory? with
      | none => .error (.finding (.noDirectory p))
      | some directory =>
        expand (fun q hq => resolve p (referrer :: ancestors) q hq) directory
          (Directive.scan source).reverse (Module.raw source)
termination_by (r.readable \ (referrer :: ancestors).toFinset).card
decreasing_by exact r.card_readable_sdiff_lt _hp _htrace _hread

/-- The flattened module of a root, before its check. -/
def root (p : Path) : Except LoadError Module :=
  match p.directory? with
  | none => .error (.finding (.noDirectory p))
  | some directory =>
    match r.read p with
    | .error e => .error (e.at p)
    | .ok source =>
      expand (r.resolve p []) directory (Directive.scan source).reverse (Module.raw source)

/-- The checked module of a root. -/
def loadCanonical (validator : Option Validator) (p : Path) : Except LoadError Module :=
  match r.root p with
  | .error e => .error e
  | .ok m =>
    match validator.bind fun v => Loader.errorOf? (v m.code) with
    | some e => .error (.finding e)
    | none => .ok m

/-- **The uncached load.** The root stored at a path is flattened and then checked. -/
def load (validator : Option Validator) (p : Path) : Except LoadError Module :=
  r.loadCanonical validator p.normal

variable {r} {referrer p directory : Path} {ancestors : List Path} {source : Text}
  {hp : p.IsCanonical}

theorem resolve_of_mem (htrace : p ∈ referrer :: ancestors) :
    r.resolve referrer ancestors p hp = .error (.finding (.circular p referrer)) := by
  rw [resolve, dif_pos htrace]

theorem resolve_of_error {e : SourceError} (htrace : p ∉ referrer :: ancestors)
    (hread : r.read p = .error e) : r.resolve referrer ancestors p hp = .error (e.at p) := by
  rw [resolve, dif_neg htrace]
  split <;> simp_all

theorem resolve_of_noDirectory (htrace : p ∉ referrer :: ancestors)
    (hread : r.read p = .ok source) (hdir : p.directory? = none) :
    r.resolve referrer ancestors p hp = .error (.finding (.noDirectory p)) := by
  rw [resolve, dif_neg htrace]
  split <;> simp_all

theorem resolve_of_read (htrace : p ∉ referrer :: ancestors) (hread : r.read p = .ok source)
    (hdir : p.directory? = some directory) :
    r.resolve referrer ancestors p hp =
      expand (r.resolve p (referrer :: ancestors)) directory (Directive.scan source).reverse
        (Module.raw source) := by
  rw [resolve, dif_neg htrace]
  split <;> simp_all

end FiniteReader

/-! ### What a path yields -/

/-- **Expansions that succeed**, whatever the trace. -/
inductive Yields (reader : Reader) : Task → Module → Prop
  | path {p directory : Path} {source : Text} {m : Module} (hread : reader p = .ok source)
      (hdir : p.directory? = some directory)
      (hbody : Yields reader (.ofSource directory source) m) :
    Yields reader (.path p) m
  | done {directory : Path} {m : Module} : Yields reader (.directives directory [] m) m
  | spliced {directory : Path} {d : Directive} {ds : List Directive} {m m' included : Module}
      (htarget : Yields reader (.path (Path.target directory d.path)) included)
      (hrest : Yields reader
        (.directives directory ds (m.splice d (Path.target directory d.path) included)) m') :
    Yields reader (.directives directory (d :: ds) m) m'

variable {reader : Reader} {task : Task} {m : Module} {p : Path}

/-- What a path yields has no endless chain of includes below it. -/
theorem Yields.acc (h : Yields reader task m) :
    ∀ q ∈ task.targets, Acc (fun a b => Includes reader b a) q := by
  induction h with
  | @path p directory source m hread hdir _ ih =>
    intro q hq
    obtain rfl : q = p := by simpa [Task.targets] using hq
    refine ⟨_, fun a ha => ?_⟩
    obtain ⟨source', directory', hread', hdir', ha⟩ := ha
    obtain rfl : source = source' := by simpa [hread] using hread'
    obtain rfl : directory = directory' := by simpa [hdir] using hdir'
    exact ih a ha
  | done => simp [Task.targets]
  | spliced _ _ ih₁ ih₂ =>
    intro q hq
    rcases List.mem_cons.mp hq with rfl | hq
    · exact ih₁ _ (by simp [Task.targets])
    · exact ih₂ q hq

/-- `p` leads to `q` through one or more includes. -/
def LeadsTo (reader : Reader) (p q : Path) : Prop :=
  Relation.TransGen (fun a b => Includes reader b a) q p

/-- What is accessible is not below itself. -/
private theorem not_self_of_acc {α : Type} {rel : α → α → Prop} {a : α} (h : Acc rel a) :
    ¬ rel a a := by
  induction h with
  | intro a _ ih => exact fun hself => ih a hself hself

/-- What a path yields does not lead back to it. -/
theorem Yields.not_leadsTo_self (h : Yields reader (.path p) m) : ¬ LeadsTo reader p p := by
  have hacc := (h.acc p (by simp [Task.targets])).transGen
  exact fun hself => not_self_of_acc hacc hself

/-- Every path that is being resolved leads to all targets of a task. -/
def Task.LedTo (task : Task) (reader : Reader) (trace : List Path) : Prop :=
  ∀ t ∈ trace, ∀ q ∈ task.targets, LeadsTo reader t q

/-- The paths being resolved lead to the targets of the source that comes next. -/
theorem Task.LedTo.ofSource {trace : List Path} {directory : Path} {source : Text}
    (h : (Task.path p).LedTo reader trace) (hread : reader p = .ok source)
    (hdir : p.directory? = some directory) :
    (Task.ofSource directory source).LedTo reader (p :: trace) := by
  have hnext : ∀ q ∈ (Task.ofSource directory source).targets, LeadsTo reader p q :=
    fun q hq => .single ⟨source, directory, hread, hdir, hq⟩
  intro t ht q hq
  rcases List.mem_cons.mp ht with rfl | ht
  · exact hnext q hq
  · exact (hnext q hq).trans (h t ht p (by simp [Task.targets]))

theorem Task.LedTo.head {trace : List Path} {directory : Path} {d : Directive}
    {ds : List Directive} (h : (Task.directives directory (d :: ds) m).LedTo reader trace) :
    (Task.path (Path.target directory d.path)).LedTo reader trace := by
  intro t ht q hq
  obtain rfl : q = Path.target directory d.path := by simpa [Task.targets] using hq
  exact h t ht _ (by simp [Task.targets])

theorem Task.LedTo.tail {trace : List Path} {directory : Path} {d : Directive}
    {ds : List Directive} {m' : Module}
    (h : (Task.directives directory (d :: ds) m).LedTo reader trace) :
    (Task.directives directory ds m').LedTo reader trace :=
  fun t ht q hq => h t ht q (List.mem_cons_of_mem _ hq)

/-! ### Cached modules agree with the reader -/

/-- Every cached module is what its path yields. -/
def Cache.Agrees (c : Cache) (reader : Reader) : Prop :=
  ∀ q m, c.get? q = some m → Yields reader (.path q) m

variable {limit : Nat} {referrer : Path} {ancestors : List Path} {s s' : CacheState}
  {result : Except LoadError Module}

/-- Resolving keeps the agreement, and the module that it ends with is what its task yields. -/
theorem Derives.yields (h : Derives reader limit referrer ancestors task s result s')
    (hs : s.cache.Agrees reader) :
    s'.cache.Agrees reader ∧ ∀ m, result = .ok m → Yields reader task m := by
  induction h with
  | tooDeep | circular | unread | noDirectory => exact ⟨hs, nofun⟩
  | reused _ hcached => exact ⟨hs, fun m hm => by cases hm; exact hs _ _ hcached⟩
  | failed _ _ _ _ _ ih => exact ⟨(ih hs).1, nofun⟩
  | @stored _ _ _ p _ _ _ _ m _ _ hread hdir _ ih =>
    obtain ⟨hagrees, hbody⟩ := ih hs
    have hyields : Yields reader (.path p) m := .path hread hdir (hbody m rfl)
    refine ⟨fun q m' hq => ?_, fun m' hm' => by cases hm'; exact hyields⟩
    rw [CacheState.cache_withCache, Cache.get?_store] at hq
    split at hq
    · cases hq
      subst p
      exact hyields
    · exact hagrees q m' hq
  | done => exact ⟨hs, fun m hm => by cases hm; exact .done⟩
  | halted _ ih => exact ⟨(ih hs).1, nofun⟩
  | spliced _ _ ih₁ ih₂ =>
    obtain ⟨hs₁, htarget⟩ := ih₁ hs
    obtain ⟨hs₂, hrest⟩ := ih₂ hs₁
    exact ⟨hs₂, fun m hm => .spliced (htarget _ rfl) (hrest m hm)⟩

/-! ### The two resolutions agree -/

/-- The result of a task when nothing is remembered. -/
def Task.uncached (r : FiniteReader) (referrer : Path) (ancestors : List Path) :
    (task : Task) → task.IsCanonical → Except LoadError Module
  | path p, hp => r.resolve referrer ancestors p hp
  | directives directory ds m, _ =>
    FiniteReader.expand (r.resolve referrer ancestors) directory ds m

/-- What a task yields is its uncached result below any trace that leads to its targets: no
circle is met, because the trace would have to lead back to itself. -/
theorem Yields.uncached_eq {r : FiniteReader} (h : Yields r.read task m)
    (htask : task.IsCanonical) (hled : task.LedTo r.read (referrer :: ancestors)) :
    task.uncached r referrer ancestors htask = .ok m := by
  induction h generalizing referrer ancestors with
  | @path p directory source m hread hdir hbody ih =>
    -- on the trace the path would lead to itself
    have htrace : p ∉ referrer :: ancestors := fun hmem =>
      (Yields.path hread hdir hbody).not_leadsTo_self (hled p hmem p (by simp [Task.targets]))
    rw [Task.uncached, FiniteReader.resolve_of_read htrace hread hdir]
    exact ih trivial (hled.ofSource hread hdir)
  | done => rfl
  | spliced _ _ ih₁ ih₂ =>
    have htarget := ih₁ (Path.target_isCanonical _ _) hled.head
    rw [Task.uncached] at htarget
    rw [Task.uncached, FiniteReader.expand, htarget]
    exact ih₂ trivial hled.tail

/-- **A memory changes no result.** A resolution from a cache that agrees with the reader ends as
the uncached one, unless it meets the limit, which is then below the number of readable paths. -/
theorem Derives.eq_uncached {r : FiniteReader}
    (h : Derives r.read limit referrer ancestors task s result s') (htask : task.IsCanonical)
    (hs : s.cache.Agrees r.read) (hled : task.LedTo r.read (referrer :: ancestors))
    (hnodup : (referrer :: ancestors).Nodup)
    (hreadable : ∀ t ∈ referrer :: ancestors, t ∈ r.readable) :
    result = task.uncached r referrer ancestors htask ∨
      result = .error (.fault .nestingTooDeep) ∧
        limit + (referrer :: ancestors).length ≤ r.readable.card := by
  induction h with
  | tooDeep =>
    -- the limit is used up by paths that are all different and readable
    refine .inr ⟨rfl, ?_⟩
    rw [Nat.zero_add, ← List.toFinset_card_of_nodup hnodup]
    exact Finset.card_le_card fun t ht => hreadable t (List.mem_toFinset.mp ht)
  | circular htrace => exact .inl (FiniteReader.resolve_of_mem htrace).symm
  | reused htrace hcached => exact .inl ((hs _ _ hcached).uncached_eq htask hled).symm
  | unread htrace _ hread => exact .inl (FiniteReader.resolve_of_error htrace hread).symm
  | noDirectory htrace _ hread hdir =>
    exact .inl (FiniteReader.resolve_of_noDirectory htrace hread hdir).symm
  | failed htrace hcached hread hdir _ ih | stored htrace hcached hread hdir _ ih =>
    have hbody := ih trivial hs (hled.ofSource hread hdir) (List.nodup_cons.mpr ⟨htrace, hnodup⟩)
      (List.forall_mem_cons.mpr ⟨r.mem_readable htask hread, hreadable⟩)
    rw [Task.uncached, FiniteReader.resolve_of_read htrace hread hdir]
    simp only [List.length_cons] at hbody ⊢
    rwa [Nat.add_right_comm, Nat.add_assoc]
  | done => exact .inl rfl
  | halted _ ih =>
    have htarget := ih (Path.target_isCanonical _ _) hs hled.head hnodup hreadable
    refine htarget.imp_left fun htarget => ?_
    rw [Task.uncached] at htarget
    rw [Task.uncached, FiniteReader.expand, ← htarget]
  | spliced htarget _ ih₁ ih₂ =>
    have hincluded := (ih₁ (Path.target_isCanonical _ _) hs hled.head hnodup
      hreadable).resolve_right (by simp)
    rw [Task.uncached] at hincluded
    rw [Task.uncached, FiniteReader.expand, ← hincluded]
    exact ih₂ trivial (htarget.yields hs).1 hled.tail hnodup hreadable

/-! ### Loading a stored root -/

/-- The loader of a finite reader. -/
def FiniteReader.loader (r : FiniteReader) (validator : Option Validator) (limit : Nat) : Loader :=
  ⟨r.read, validator, limit⟩

variable {r : FiniteReader} {validator : Option Validator} {directory : Path}

theorem FiniteReader.root_of_read {source : Text} (hdir : p.directory? = some directory)
    (hread : r.read p = .ok source) :
    r.root p = (Task.ofSource directory source).uncached r p [] trivial := by
  simp only [root, hdir, hread]
  rfl

/-- A root that was read leads to the targets of its own directives. -/
private theorem ledTo_root {source : Text} (hread : reader p = .ok source)
    (hdir : p.directory? = some directory) :
    (Task.ofSource directory source).LedTo reader [p] := by
  have hnone : (Task.path p).LedTo reader [] := fun t ht => absurd ht List.not_mem_nil
  exact hnone.ofSource hread hdir

/-- A root from a cache that agrees with the reader is the uncached one, unless the limit is
met. -/
private theorem Rooted.eq_uncached
    (h : Rooted (r.loader validator limit) p directory none s result s') (hp : p.IsCanonical)
    (hdir : p.directory? = some directory) (hs : s.cache.Agrees r.read) :
    result = r.root p ∨
      result = .error (.fault .nestingTooDeep) ∧ limit < r.readable.card := by
  have hbody : ∀ {source s₀ result s'}, r.read p = .ok source →
      Derives r.read limit p [] (.ofSource directory source) s₀ result s' →
      s₀.cache = s.cache →
      result = r.root p ∨
        result = .error (.fault .nestingTooDeep) ∧ limit < r.readable.card := by
    intro source s₀ result s' hread hbody hcache
    rw [FiniteReader.root_of_read hdir hread]
    exact hbody.eq_uncached trivial (hcache ▸ hs) (ledTo_root hread hdir) (List.nodup_singleton p)
      (by simpa using r.mem_readable hp hread)
  cases h with
  | cached _ hcached =>
    cases hs p _ hcached with
    | path hread hdir' hyields =>
      cases hdir.symm.trans hdir'
      rw [FiniteReader.root_of_read hdir hread]
      exact .inl (hyields.uncached_eq trivial (ledTo_root hread hdir)).symm
  | unread _ _ hread =>
    have hread' : r.read p = _ := hread
    exact .inl (by simp only [FiniteReader.root, hdir, hread'])
  | failed hsource hderives | resolved hsource hderives =>
    cases hsource with
    | read _ hread => exact hbody hread hderives rfl

/-- A root keeps the agreement, and is what its path yields. -/
private theorem Rooted.yields
    (h : Rooted (r.loader validator limit) p directory none s result s')
    (hdir : p.directory? = some directory) (hs : s.cache.Agrees r.read) :
    s'.cache.Agrees r.read ∧ ∀ m, result = .ok m → Yields r.read (.path p) m := by
  cases h with
  | cached _ hcached => exact ⟨hs, fun m hm => by cases hm; exact hs p _ hcached⟩
  | unread => exact ⟨hs, nofun⟩
  | failed hsource hbody => exact ⟨(hbody.yields (hsource.cache_eq ▸ hs)).1, nofun⟩
  | resolved hsource hbody =>
    obtain ⟨hagrees, hm⟩ := hbody.yields (hsource.cache_eq ▸ hs)
    refine ⟨hagrees, fun m' hm' => ?_⟩
    cases hsource with
    | read _ hread => exact .path hread hdir (hm m' hm')

/-- The agreement outlives a commit of what the path yields. -/
private theorem agrees_committed {supplied : Option Text} (hs : s.cache.Agrees reader)
    (hm : Yields reader (.path p) m) :
    (Loader.committed p supplied m s).cache.Agrees reader := by
  intro q m' hq
  obtain ⟨rfl, rfl⟩ | ⟨-, hq⟩ := Loader.get?_committed hq
  · exact hm
  · exact hs q m' hq

/-- Loading a stored root keeps the agreement. -/
private theorem Loads.agrees (h : Loads (r.loader validator limit) p none s result s')
    (hs : s.cache.Agrees r.read) : s'.cache.Agrees r.read := by
  cases h with
  | noDirectory => exact hs
  | unrooted hdir hroot => exact (hroot.yields hdir hs).1
  | refused hdir hroot => rw [Loader.cache_checked]; exact (hroot.yields hdir hs).1
  | marked hdir hroot | passed hdir hroot =>
    obtain ⟨hagrees, hm⟩ := hroot.yields hdir hs
    exact agrees_committed hagrees (hm _ rfl)

/-- Loading a stored root gives the uncached result, unless the limit is met. -/
private theorem Loads.eq_uncached (h : Loads (r.loader validator limit) p none s result s')
    (hp : p.IsCanonical) (hs : s.cache.Agrees r.read)
    (hmarks : s.cache.Checked (r.loader validator limit)) :
    result = r.loadCanonical validator p ∨
      result = .error (.fault .nestingTooDeep) ∧ limit < r.readable.card := by
  cases h with
  | noDirectory hdir =>
    exact .inl (by simp only [FiniteReader.loadCanonical, FiniteReader.root, hdir])
  | unrooted hdir hroot =>
    refine (hroot.eq_uncached hp hdir hs).imp_left fun hroot => ?_
    rw [FiniteReader.loadCanonical, ← hroot]
  | refused hdir hroot _ hrefusal =>
    have hroot := (hroot.eq_uncached hp hdir hs).resolve_right (by simp)
    rw [FiniteReader.loadCanonical, ← hroot]
    exact .inl (by simp only [show validator.bind _ = _ from hrefusal])
  | marked hdir hroot hmark =>
    -- the mark stands for a check that passed, which the uncached load makes again
    obtain ⟨m', hm', hrefusal⟩ := hroot.checked hmarks p hmark
    obtain rfl : m' = _ := Option.some.inj (hm'.symm.trans (hroot.get?_of_mem_accepted hmark))
    have hroot := (hroot.eq_uncached hp hdir hs).resolve_right (by simp)
    rw [FiniteReader.loadCanonical, ← hroot]
    exact .inl (by simp only [show validator.bind _ = _ from hrefusal])
  | passed hdir hroot _ hrefusal =>
    have hroot := (hroot.eq_uncached hp hdir hs).resolve_right (by simp)
    rw [FiniteReader.loadCanonical, ← hroot]
    exact .inl (by simp only [show validator.bind _ = _ from hrefusal])

/-- The cache agrees with the reader and its marks hold, after any calls that supply no
source. -/
private theorem cacheAfter_agrees (r : FiniteReader) (validator : Option Validator) (limit : Nat)
    (calls : List Call) (hcalls : ∀ call ∈ calls, call.supplied? = none) :
    let c := cacheAfter (calls.map fun call => (r.loader validator limit, call))
    c.Agrees r.read ∧ c.Checked (r.loader validator limit) := by
  induction calls using List.reverseRecOn with
  | nil =>
    refine ⟨fun q m hq => ?_, fun q hq => ?_⟩
    · cases hq
    · cases hq
  | append_singleton calls call ih =>
    obtain ⟨hagrees, hchecked⟩ := ih fun call' h => hcalls call' (by simp [h])
    simp only [List.map_append, List.map_cons, List.map_nil, cacheAfter_concat]
    refine ⟨?_, call.checked hchecked⟩
    cases call with
    | load p source =>
      have hnone : (Call.load p source).supplied? = none := hcalls _ (by simp)
      cases hnone
    | loadFromPath p => exact (loads_loadCanonical _ p.normal none ⟨_, []⟩).agrees hagrees
    | detach p =>
      intro q m hq
      simp only [Call.after, Cache.get?_detach] at hq
      split at hq
      · cases hq
      · exact hagrees q m hq
    | clear =>
      intro q m hq
      cases hq

/-- **Memoised loading equals plain expansion.** After any calls of a cache that supply no source,
loading a stored root gives the result of the uncached load: the same module, or the same error.
The one exception is a load that meets the limit on the nesting, which then lies below the number
of readable paths. -/
theorem loadFromPath_eq_uncached (r : FiniteReader) (validator : Option Validator) (limit : Nat)
    (calls : List Call) (hcalls : ∀ call ∈ calls, call.supplied? = none) (p : Path) :
    let l := r.loader validator limit
    let c := cacheAfter (calls.map fun call => (l, call))
    (l.loadFromPath p ⟨c, []⟩).1 = r.load validator p ∨
      (l.loadFromPath p ⟨c, []⟩).1 = .error (.fault .nestingTooDeep) ∧
        limit < r.readable.card := by
  intro l c
  obtain ⟨hagrees, hchecked⟩ := cacheAfter_agrees r validator limit calls hcalls
  exact (loads_loadCanonical l p.normal none ⟨c, []⟩).eq_uncached (Path.normal_isCanonical p)
    hagrees hchecked

/-- A module that includes another one twice, and a module that includes itself. -/
def sharedTable : OrderedMap Path Text :=
  .ofList [(.parse "a".toList, "& include 'b';\n& include './b';".toList),
    (.parse "b".toList, "b".toList), (.parse "c".toList, "& include 'c';".toList)]

/-- The shared module may be taken out between two loads of its includer, and a load that fails in
between changes nothing. -/
theorem loadFromPath_eq_uncached_detach :
    let r := FiniteReader.ofTable sharedTable
    let l := r.loader none Loader.defaultLimit
    let calls : List Call := [.loadFromPath (.parse "a".toList), .loadFromPath (.parse "c".toList),
      .detach (.parse "b".toList)]
    (∀ call ∈ calls, call.supplied? = none) ∧
      (l.loadFromPath (.parse "a".toList) ⟨cacheAfter (calls.map fun call => (l, call)), []⟩).1 =
        r.load none (.parse "a".toList) := by
  refine ⟨by simp [Call.supplied?], ?_⟩
  refine (loadFromPath_eq_uncached (.ofTable sharedTable) none Loader.defaultLimit _
    (by simp [Call.supplied?]) _).resolve_right fun h => ?_
  have hcard : (FiniteReader.ofTable sharedTable).readable.card ≤ 3 :=
    List.toFinset_card_le sharedTable.keys
  exact absurd h.2 (by simp only [Loader.defaultLimit]; omega)

end ShaderInclude
