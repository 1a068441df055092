import Mathlib.Data.List.Chain
import ShaderInclude.Proofs.Resolution.Failure
import ShaderInclude.Proofs.Resolution.ReadOnce
import ShaderInclude.Proofs.Resolution.SelfDependence
import ShaderInclude.Proofs.Resolution.Uncached

/-!
# Circles of includes

A resolution compares the target of each directive with the paths whose resolution has begun and not
ended, and reports a circle when the target is one of them. What this says about the includes is not
in the comparison: it takes that each of these paths is included by the one before it, also after
directives that were replaced earlier and after modules that were cached. `Task.Below` is this
invariant, with one lemma for each way in which a task leads to another one.

The main statement is `exists_circle_of_circular`: a reported circle is there in the sources, its
referrer is the module that closes it, sources without a circle below the root report none, and a
load that succeeds has missed none.
-/

namespace ShaderInclude

variable {sources reader : Reader} {limit : Nat} {root referrer : Path} {ancestors : List Path}
  {task : Task} {s s₀ s' : CacheState} {e : LoadError} {chain : List Path}
  {p q r directory : Path} {source : Text} {d : Directive} {ds : List Directive} {m m' : Module}
  {l : Loader} {supplied : Option Text}

/-! ### The trace above a task -/

/-- **What holds of the trace when a task begins**, where the reader has the sources of all paths
but the root: the trace leads from the root to the module whose directives are being replaced, each
path on it includes the next one, and this module includes what the task works on. The trace has the
root at its end. -/
structure Task.Below (sources reader : Reader) (root referrer : Path) (ancestors : List Path)
    (task : Task) : Prop where
  agree : ∀ q, q ≠ root → sources q = reader q
  root_mem : root ∈ referrer :: ancestors
  linked : (referrer :: ancestors).IsChain fun inner outer => Includes sources outer inner
  included : ∀ q ∈ task.targets, Includes sources referrer q

/-- A path that a task leads to prolongs the trace. -/
theorem Task.Below.linked_cons (h : (Task.path p).Below sources reader root referrer ancestors) :
    (p :: referrer :: ancestors).IsChain fun inner outer => Includes sources outer inner :=
  List.isChain_cons_cons.mpr ⟨h.included p (List.mem_singleton_self p), h.linked⟩

/-- From a path to the directives of its source. -/
theorem Task.Below.ofSource (h : (Task.path p).Below sources reader root referrer ancestors)
    (htrace : p ∉ referrer :: ancestors) (hread : reader p = .ok source)
    (hdir : p.directory? = some directory) :
    (Task.ofSource directory source).Below sources reader root p (referrer :: ancestors) where
  agree := h.agree
  root_mem := List.mem_cons_of_mem _ h.root_mem
  linked := h.linked_cons
  included q hq := by
    have hroot : p ≠ root := by
      rintro rfl
      exact htrace h.root_mem
    exact ⟨source, directory, (h.agree p hroot).trans hread, hdir, hq⟩

/-- From directives to the target of the first one. -/
theorem Task.Below.first
    (h : (Task.directives directory (d :: ds) m).Below sources reader root referrer ancestors) :
    (Task.path (Path.target directory d.path)).Below sources reader root referrer ancestors where
  agree := h.agree
  root_mem := h.root_mem
  linked := h.linked
  included q hq := by
    obtain rfl := List.mem_singleton.mp hq
    exact h.included _ List.mem_cons_self

/-- From directives to the ones after the first. What was resolved for the first one has left
nothing on the trace. -/
theorem Task.Below.later
    (h : (Task.directives directory (d :: ds) m).Below sources reader root referrer ancestors) :
    (Task.directives directory ds m').Below sources reader root referrer ancestors where
  agree := h.agree
  root_mem := h.root_mem
  linked := h.linked
  included q hq := h.included q (List.mem_cons_of_mem _ hq)

/-- The directives of a root begin below the root alone. -/
theorem RootSource.below (h : RootSource l p s supplied source s₀)
    (hdir : p.directory? = some directory) :
    (Task.ofSource directory source).Below (l.supplying p supplied) l.reader p p [] where
  agree _ hq := Loader.supplying_of_ne hq
  root_mem := List.mem_singleton_self p
  linked := List.isChain_singleton p
  included _ hq := ⟨source, directory, h.supplying_eq, hdir, hq⟩

/-! ### Where a resolution breaks off -/

/-- The paths whose resolution has begun and not ended lead from the root to where a task fails. -/
theorem BreaksOff.linked (h : BreaksOff reader limit referrer ancestors task s e chain s')
    (hbelow : task.Below sources reader root referrer ancestors) :
    chain.IsChain fun inner outer => Includes sources outer inner := by
  induction h with
  | tooDeep | circular => exact hbelow.linked
  | unread | noDirectory => exact hbelow.linked_cons
  | nested htrace _ hread hdir _ ih => exact ih (hbelow.ofSource htrace hread hdir)
  | first _ ih => exact ih hbelow.first
  | later _ _ ih => exact ih hbelow.later

/-- A source that cannot be read is no circle. -/
theorem SourceError.at_ne_circular (cause : SourceError) :
    cause.at p ≠ .finding (.circular q r) := by
  cases cause <;> nofun

/-- A circle is reported by the innermost path, which includes one of those that led to it. -/
theorem BreaksOff.of_circular
    (h : BreaksOff reader limit referrer ancestors task s e chain s')
    (hbelow : task.Below sources reader root referrer ancestors)
    (he : e = .finding (.circular q r)) :
    chain.head? = some r ∧ q ∈ chain ∧ Includes sources r q := by
  induction h with
  | tooDeep | noDirectory => cases he
  | circular htrace =>
    cases he
    exact ⟨rfl, htrace, hbelow.included _ (List.mem_singleton_self _)⟩
  | unread => exact absurd he (SourceError.at_ne_circular _)
  | nested htrace _ hread hdir _ ih => exact ih (hbelow.ofSource htrace hread hdir) he
  | first _ ih => exact ih hbelow.first he
  | later _ _ ih => exact ih hbelow.later he

/-- What a task has begun and not ended it has read. -/
theorem BreaksOff.read_mem (h : BreaksOff reader limit referrer ancestors task s e chain s')
    (hq : q ∈ chain) (hnew : q ∉ referrer :: ancestors) : .read q ∈ s'.events := by
  induction h with
  | tooDeep | circular => exact absurd hq hnew
  | unread | noDirectory =>
    obtain rfl := (List.mem_cons.mp hq).resolve_right hnew
    exact CacheState.read_mem_requested
  | @nested _ _ _ _ p _ _ _ _ _ _ _ _ _ hbody ih =>
    by_cases hqp : q = p
    · subst hqp
      exact hbody.derives.mem_events CacheState.read_mem_requested
    · exact ih hq (List.not_mem_cons_of_ne_of_not_mem hqp hnew)
  | first _ ih | later _ _ ih => exact ih hq hnew

/-- What a validator refuses is no circle. -/
theorem Loader.refusal?_ne_circular (code : Text) : l.refusal? code ≠ some (.circular q r) := by
  intro h
  obtain ⟨validator, -, hverdict⟩ := Option.bind_eq_some_iff.mp h
  cases hv : validator code <;> simp [hv, errorOf?] at hverdict

/-- Only the directives of a root report a circle. -/
theorem Fails.of_circular (h : Fails l p supplied s (.finding (.circular q r)) chain s') :
    ∃ directory source s₀, p.directory? = some directory ∧
      RootSource l p s supplied source s₀ ∧
      BreaksOff l.reader l.limit p [] (.ofSource directory source) s₀ (.finding (.circular q r))
        chain s' := by
  generalize he : LoadError.finding (.circular q r) = e at h
  cases h with
  | noDirectory => cases he
  | unread => exact absurd he.symm (SourceError.at_ne_circular _)
  | unresolved hdir hsource hbody => exact ⟨_, _, _, hdir, hsource, he ▸ hbody⟩
  | refused _ _ _ hrefusal =>
    cases he
    exact absurd hrefusal (Loader.refusal?_ne_circular _)

/-! ### The circle -/

/-- The first path of a way leads to all others. -/
theorem leadsTo_of_isChain {way : List Path} (h : way.IsChain (Includes sources))
    (hp : way.head? = some p) : ∀ x ∈ way, x = p ∨ LeadsTo sources p x := by
  refine h.induction _ _ (fun x y hxy hx => .inr ?_) fun hne => .inl ?_
  · obtain rfl | hx := hx
    · exact .single hxy
    · exact .head hxy hx
  · exact Option.some.inj ((List.head?_eq_some_head hne).symm.trans hp)

/-- When a load reports a circle, the paths that were being resolved are a way from the root to the
circle and further to the module that closes it. -/
theorem Fails.exists_way (h : Fails l p supplied s (.finding (.circular q r)) chain s') :
    ∃ lead rest, chain = (lead ++ q :: rest).reverse ∧
      (lead ++ q :: rest).head? = some p ∧ (q :: rest).getLast? = some r ∧
      (lead ++ q :: rest).IsChain (Includes (l.supplying p supplied)) ∧
      Includes (l.supplying p supplied) r q ∧
      ∀ x ∈ lead ++ q :: rest, x = p ∨ .read x ∈ s'.events ∧ s'.cache.get? x = none := by
  obtain ⟨directory, source, s₀, hdir, hsource, hbreaks⟩ := h.of_circular
  have hbelow := hsource.below hdir
  obtain ⟨hhead, hmem, hclosed⟩ := hbreaks.of_circular hbelow rfl
  -- the chain has the innermost path first, so the circle is its part up to `q`
  obtain ⟨inner, outer, hchain⟩ := List.append_of_mem hmem
  have hway : outer.reverse ++ q :: inner.reverse = chain.reverse := by simp [hchain]
  refine ⟨outer.reverse, inner.reverse, ?_⟩
  rw [hway, List.reverse_reverse]
  refine ⟨rfl, ?_, ?_, List.isChain_reverse.mpr (hbreaks.linked hbelow), hclosed, fun x hx => ?_⟩
  · obtain ⟨before, rfl⟩ := hbreaks.trace_suffix
    simp
  · rw [← List.reverse_concat, List.getLast?_reverse, ← hhead, hchain]
    cases inner <;> rfl
  · by_cases hroot : x = p
    · exact .inl hroot
    have hnew : x ∉ [p] := fun hx => hroot (List.mem_singleton.mp hx)
    have hx := List.mem_reverse.mp hx
    exact .inr ⟨hbreaks.read_mem hx hnew, hbreaks.get?_eq_none hx hnew⟩

/-- A load that has resolved its root with success has met no circle, and there was none on the ways
that it went: those through paths that were not cached. -/
theorem Loads.not_leadsAnew_self {x : Path} (h : Loads l p supplied s (.ok m) s')
    (hanew : supplied = none → s.cache.get? p = none)
    (hx : x = p ∨ LeadsAnew (l.supplying p supplied) s.cache p x ∧ s.cache.get? x = none) :
    ¬LeadsAnew (l.supplying p supplied) s.cache x x := by
  obtain ⟨directory, s₁, -, hdir, hroot, -⟩ := h.exists_committed
  cases hroot with
  | cached hsupplied hcached => cases (hanew hsupplied).symm.trans hcached
  | resolved hsource hbody =>
    obtain ⟨hbuilt, -⟩ := hsource.builtFrom hbody
    have hleads := fun q =>
      leadsAnew_cached (q := q) hbody List.mem_cons_self hbuilt hsource.supplying_eq hdir
    obtain rfl | ⟨hx, hnew⟩ := hx
    · exact fun hself => (hleads x hself).1 rfl
    · obtain ⟨-, m', hm'⟩ := hleads x hx
      exact (hbuilt x m' hnew hm').not_self

/-- **A reported circle is there.** Whatever is cached, let a root be loaded from a supplied source
or from its path, with the sources of this load.
* If the load reports a circle at `q` with the referrer `r`, then it has failed while the paths of a
  way were being resolved that leads from the root to `q` and further to `r`. Each of them includes
  the next one, `r` includes `q`, and all but the root were read by the load and are not cached.
* If nothing that the root leads to leads back to itself, then the load reports no circle.
* If the load resolves the root with success, then no circle was missed: neither the root nor
  anything that it leads to through paths that were not cached leads back to itself in this way. -/
theorem exists_circle_of_circular (l : Loader) (c : Cache) (p : Path) (supplied : Option Text) :
    let sources := l.supplying p.normal supplied
    let load := match supplied with
      | some source => l.load p source ⟨c, []⟩
      | none => l.loadFromPath p ⟨c, []⟩
    (∀ q r, load.1 = .error (.finding (.circular q r)) →
      ∃ lead rest, Fails l p.normal supplied ⟨c, []⟩ (.finding (.circular q r))
          (lead ++ q :: rest).reverse load.2 ∧
        (lead ++ q :: rest).head? = some p.normal ∧ (q :: rest).getLast? = some r ∧
        (lead ++ q :: rest).IsChain (Includes sources) ∧ Includes sources r q ∧
        ∀ x ∈ lead ++ q :: rest, x = p.normal ∨
          .read x ∈ load.2.events ∧ load.2.cache.get? x = none) ∧
      ((∀ x, x = p.normal ∨ LeadsTo sources p.normal x → ¬LeadsTo sources x x) →
        ∀ q r, load.1 ≠ .error (.finding (.circular q r))) ∧
      ∀ m, load.1 = .ok m → (supplied = none → c.get? p.normal = none) →
        ∀ x, x = p.normal ∨ LeadsAnew sources c p.normal x ∧ c.get? x = none →
          ¬LeadsAnew sources c x x := by
  intro sources load
  have hloads : Loads l p.normal supplied ⟨c, []⟩ load.1 load.2 := by
    have hload : load = l.loadCanonical p.normal supplied ⟨c, []⟩ := by cases supplied <;> rfl
    rw [hload]
    exact loads_loadCanonical l p.normal supplied ⟨c, []⟩
  have hfails : ∀ q r, load.1 = .error (.finding (.circular q r)) →
      ∃ chain, Fails l p.normal supplied ⟨c, []⟩ (.finding (.circular q r)) chain load.2 :=
    fun q r hr => Loads.exists_fails (hr ▸ hloads)
  refine ⟨fun q r hr => ?_, fun hfree q r hr => ?_, fun m hm hanew x hx => ?_⟩
  · obtain ⟨chain, hchain⟩ := hfails q r hr
    obtain ⟨lead, rest, rfl, hway⟩ := hchain.exists_way
    exact ⟨lead, rest, hchain, hway⟩
  · obtain ⟨chain, hchain⟩ := hfails q r hr
    obtain ⟨lead, rest, -, hhead, hlast, hlinked, hclosed, -⟩ := hchain.exists_way
    have hreached := leadsTo_of_isChain hlinked hhead q (by simp)
    obtain rfl | hback := leadsTo_of_isChain hlinked.right_of_append rfl r
      (List.mem_of_getLast? hlast)
    · exact hfree r hreached (.single hclosed)
    · exact hfree q hreached (.head hclosed hback)
  · rw [hm] at hloads
    exact hloads.not_leadsAnew_self hanew hx

/-- A module of which the last directive leads to the one below it, and the one before to a module
that includes that one too and closes a circle with another module. -/
def circleTable : OrderedMap Path Text :=
  .ofList [(.parse "x".toList, "& include 'a';\n& include 'b';".toList),
    (.parse "a".toList, "& include 'c';\n& include 'b';".toList), (.parse "b".toList, "B".toList),
    (.parse "c".toList, "& include 'b';\n& include 'a';".toList)]

/-- Each module of `diamondTable` includes only such as come later in it. -/
private theorem diamondTable_not_circular (q : Path) : ¬LeadsTo (.ofTable diamondTable) q q := by
  have hlater : (diamondTable.entries.all fun e => (Task.ofSource e.1.parent e.2).targets.all
      fun r => diamondTable.keys.idxOf e.1 < diamondTable.keys.idxOf r) = true := by cbv
  have hstep : ∀ q r, Includes (.ofTable diamondTable) q r →
      diamondTable.keys.idxOf q < diamondTable.keys.idxOf r := by
    rintro q r ⟨source, directory, hread, hdir, hr⟩
    obtain ⟨rfl, -⟩ := Path.directory?_eq_some_iff.mp hdir
    have hget : diamondTable.get? q = some source := by
      unfold Reader.ofTable at hread
      split at hread
      case h_1 found => rw [found, Except.ok.inj hread]
      case h_2 => cases hread
    have hentry := List.all_eq_true.mp hlater _ (OrderedMap.mem_entries_iff.mpr hget)
    exact of_decide_eq_true (List.all_eq_true.mp hentry r hr)
  have hless : ∀ q r, LeadsTo (.ofTable diamondTable) q r →
      diamondTable.keys.idxOf q < diamondTable.keys.idxOf r := by
    intro q r h
    unfold LeadsTo at h
    induction h with
    | single h => exact hstep _ _ h
    | tail _ h ih => exact (hstep _ _ h).trans ih
  exact fun h => lt_irrefl _ (hless q q h)

/-- The circle between two modules of `circleTable` is reported with the one that closes it, and the
module that all others include is not on the way. The modules of `diamondTable` have no circle. -/
theorem exists_circle_of_circular_below_root :
    let x := Path.parse "x".toList
    let a := Path.parse "a".toList
    let b := Path.parse "b".toList
    let c := Path.parse "c".toList
    let l : Loader := ⟨.ofTable circleTable, none, Loader.defaultLimit⟩
    let l' : Loader := ⟨.ofTable diamondTable, none, Loader.defaultLimit⟩
    ((l.loadFromPath x ⟨.empty, []⟩).1 = .error (.finding (.circular a c)) ∧
        ∃ lead rest, (lead ++ a :: rest).head? = some x ∧ (a :: rest).getLast? = some c ∧
          (lead ++ a :: rest).IsChain (Includes l.reader) ∧ Includes l.reader c a ∧
          b ∉ lead ++ a :: rest) ∧
      (∀ q, q = x ∨ LeadsTo l'.reader x q → ¬LeadsTo l'.reader q q) ∧
      (∀ q r, (l'.loadFromPath x ⟨.empty, []⟩).1 ≠ .error (.finding (.circular q r))) ∧
      (l'.loadFromPath x ⟨.empty, []⟩).1.toOption.isSome = true ∧
      ¬LeadsAnew l'.reader .empty x x := by
  intro x a b c l l'
  obtain ⟨hcircle, -⟩ := exists_circle_of_circular l .empty x none
  obtain ⟨-, hnone, hmissed⟩ := exists_circle_of_circular l' .empty x none
  have hreported : (l.loadFromPath x ⟨.empty, []⟩).1 = .error (.finding (.circular a c)) := by cbv
  refine ⟨⟨hreported, ?_⟩, ?_⟩
  · obtain ⟨lead, rest, -, hhead, hlast, hlinked, hclosed, hopen⟩ := hcircle a c hreported
    refine ⟨lead, rest, hhead, hlast, hlinked, hclosed, fun hb => ?_⟩
    have hcached : ((l.loadFromPath x ⟨.empty, []⟩).2.cache.get? b).isSome = true := by cbv
    obtain hroot | ⟨-, hnew⟩ := hopen b hb
    · exact absurd hroot (by decide +kernel)
    · cases (congrArg Option.isSome hnew).symm.trans hcached
  · have hok : (l'.loadFromPath x ⟨.empty, []⟩).1.toOption.isSome = true := by cbv
    refine ⟨fun q _ => diamondTable_not_circular q, hnone fun q _ => diamondTable_not_circular q,
      hok, ?_⟩
    cases hload : (l'.loadFromPath x ⟨.empty, []⟩).1 with
    | error =>
      rw [hload] at hok
      cases hok
    | ok m => exact hmissed m hload (fun _ => rfl) x (.inl (by decide +kernel))

end ShaderInclude
