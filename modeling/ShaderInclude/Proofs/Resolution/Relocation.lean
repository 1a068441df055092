import ShaderInclude.Proofs.Path.Descent
import ShaderInclude.Proofs.Resolution.Call

/-!
# Moving modules to another directory

A reader may find below a directory what another reader finds below the working directory. As long
as no path leads out of it, a load does not notice the difference: where `x` is loaded from the one,
`d.join x` is loaded from the other with the same code, and each path of which the module is made is
found below `d` (`loadFromPath_relocated`).

The proof goes along the call tree. Each call has its counterpart, which is made with the referrer,
the ancestors and the task below `d`, and ends with the same module but for its dependencies
(`Derives.relocated`). Two facts about paths carry it: targets are computed below `d` as they are
without it (`Path.target_join`), and different paths stay different (`Path.Descends.join_inj`), so
that circles are closed and cached modules are found at the same moments.
-/

namespace ShaderInclude

variable {d p q x : Path} {reader reader' : Reader} {limit : Nat} {referrer : Path}
  {ancestors : List Path} {task : Task} {s s' t : CacheState} {r : Except LoadError Module}
  {m included : Module} {c c' : Cache}

/-! ### What is moved -/

/-- The module with its dependencies below a directory. -/
def Module.relocate (d : Path) (m : Module) : Module :=
  { m with dependencies := m.dependencies.map d.join }

/-- The task below a directory. -/
def Task.relocate (d : Path) : Task → Task
  | path p => .path (d.join p)
  | directives directory ds m => .directives (d.join directory) ds (m.relocate d)

/-- The task concerns a path, or modules of a directory, below the working directory. -/
def Task.Descends : Task → Prop
  | path p => p.Descends
  | directives directory _ _ => directory.Descends

/-- Below the directory `d` the second cache has the modules that the first one has below the
working directory. -/
def Cache.Relocates (d : Path) (c c' : Cache) : Prop :=
  ∀ q : Path, q.Descends → c'.get? (d.join q) = (c.get? q).map (Module.relocate d)

private theorem relocates_empty : Cache.empty.Relocates d .empty := fun _ _ => rfl

private theorem Cache.Relocates.store (h : c.Relocates d c') (hp : p.Descends) (m : Module) :
    (c.store p m).Relocates d (c'.store (d.join p) (m.relocate d)) := by
  intro q hq
  rw [get?_store, get?_store]
  by_cases hpq : p = q
  · rw [if_pos hpq, if_pos (congrArg d.join hpq)]
    rfl
  · rw [if_neg hpq, if_neg (mt (hp.join_inj hq).mp hpq)]
    exact h q hq

/-! ### Splices -/

private theorem map_join_insert {ps : List Path} (hp : p.Descends) (hps : ∀ q ∈ ps, q.Descends) :
    (ps.insert p).map d.join = (ps.map d.join).insert (d.join p) := by
  by_cases hmem : p ∈ ps
  · rw [List.insert_of_mem hmem, List.insert_of_mem (List.mem_map_of_mem hmem)]
  · have hjoin : d.join p ∉ ps.map d.join := by
      intro h
      obtain ⟨q, hq, heq⟩ := List.mem_map.mp h
      exact hmem ((hps q hq).join_inj hp |>.mp heq ▸ hq)
    rw [List.insert_of_not_mem hmem, List.insert_of_not_mem hjoin, List.map_cons]

private theorem map_join_addAll {new old : List Path} (hnew : ∀ q ∈ new, q.Descends)
    (hold : ∀ q ∈ old, q.Descends) :
    (Module.addAll new old).map d.join = Module.addAll (new.map d.join) (old.map d.join) := by
  induction new generalizing old with
  | nil => rfl
  | cons p new ih =>
    obtain ⟨hp, hnew⟩ := List.forall_mem_cons.mp hnew
    have hinsert : ∀ q ∈ old.insert p, q.Descends := by
      intro q hq
      obtain rfl | hq := List.mem_insert_iff.mp hq
      · exact hp
      · exact hold q hq
    calc (Module.addAll new (old.insert p)).map d.join
        = Module.addAll (new.map d.join) ((old.insert p).map d.join) := ih hnew hinsert
      _ = Module.addAll (new.map d.join) ((old.map d.join).insert (d.join p)) := by
        rw [map_join_insert hp hold]

/-- A splice below a directory makes of the dependencies what it makes of them without it. -/
theorem Module.relocate_splice {directive : Directive} (hp : p.Descends)
    (hincluded : ∀ q ∈ included.dependencies, q.Descends)
    (hm : ∀ q ∈ m.dependencies, q.Descends) :
    (m.relocate d).splice directive (d.join p) (included.relocate d) =
      (m.splice directive p included).relocate d := by
  have hadd : ∀ q ∈ addAll included.dependencies m.dependencies, q.Descends := by
    intro q hq
    exact (mem_addAll.mp hq).elim (hincluded q) (hm q)
  simp only [splice, relocate, map_join_insert hp hadd, map_join_addAll hincluded hm]

/-! ### Calls -/

private theorem join_not_mem (hp : p.Descends) (htrace : ∀ q ∈ referrer :: ancestors, q.Descends)
    (hnew : p ∉ referrer :: ancestors) : d.join p ∉ d.join referrer :: ancestors.map d.join := by
  rw [← List.map_cons]
  intro h
  obtain ⟨q, hq, heq⟩ := List.mem_map.mp h
  exact hnew (((htrace q hq).join_inj hp).mp heq ▸ hq)

/-- **A call that succeeds below the working directory has a counterpart below `d`**, unless one of
its modules is found elsewhere. -/
theorem Derives.relocated (h : Derives reader limit referrer ancestors task s r s')
    (hd : d.IsCanonical) (hreader : ∀ q : Path, q.Descends → reader' (d.join q) = reader q)
    (hr : r = .ok m) (hdeps : ∀ q ∈ m.dependencies, q.Descends) (htask : task.Descends)
    (htrace : ∀ q ∈ referrer :: ancestors, q.Descends) (hs : s.cache.Relocates d t.cache) :
    ∃ t', Derives reader' limit (d.join referrer) (ancestors.map d.join) (task.relocate d) t
      (.ok (m.relocate d)) t' ∧ s'.cache.Relocates d t'.cache := by
  induction h generalizing m t with
  | tooDeep | circular | unread | noDirectory | failed | halted => cases hr
  | @reused _ _ _ p _ m hnew hcached =>
    cases hr
    have hcached' : t.cache.get? (d.join p) = some (m.relocate d) := by
      rw [hs p htask, hcached]
      rfl
    exact ⟨_, .reused (join_not_mem htask htrace hnew) hcached', hs⟩
  | @stored _ referrer ancestors p directory _ _ source m hnew hcached hread hdir _ ih =>
    cases hr
    have hcached' : t.cache.get? (d.join p) = none := by
      rw [hs p htask, hcached]
      rfl
    have hdirectory : directory.Descends := htask.of_directory? hdir
    have htrace' : ∀ q ∈ p :: referrer :: ancestors, q.Descends :=
      List.forall_mem_cons.mpr ⟨htask, htrace⟩
    obtain ⟨t', hbody, ht'⟩ := ih rfl hdeps hdirectory htrace' (t := t.requested (d.join p)) hs
    exact ⟨_, .stored (join_not_mem htask htrace hnew) hcached' ((hreader p htask).trans hread)
      (htask.directory?_join hdir d) hbody, ht'.store htask m⟩
  | done =>
    cases hr
    exact ⟨t, .done, hs⟩
  | @spliced _ _ _ directory directive ds m₀ included _ s₁ _ _ htarget hrest ih₁ ih₂ =>
    subst hr
    -- what the splice brings in ends up among the dependencies
    have hspliced : ∀ q, q = Path.target directory directive.path ∨ q ∈ included.dependencies ∨
        q ∈ m₀.dependencies → q.Descends := fun q hq =>
      hdeps q (hrest.dependencies_subset (Module.mem_dependencies_splice.mpr hq))
    have hp := hspliced _ (.inl rfl)
    have hincluded : ∀ q ∈ included.dependencies, q.Descends := fun q hq =>
      hspliced q (.inr (.inl hq))
    have hm₀ : ∀ q ∈ m₀.dependencies, q.Descends := fun q hq => hspliced q (.inr (.inr hq))
    obtain ⟨t₁, htarget', ht₁⟩ := ih₁ rfl hincluded hp htrace hs
    obtain ⟨t', hrest', ht'⟩ := ih₂ rfl hdeps htask htrace
      (t := t₁.note (.spliced (d.join (Path.target directory directive.path)) directive.start
        directive.stop)) ht₁
    simp only [Task.relocate, ← Module.relocate_splice hp hincluded hm₀,
      ← Path.target_join hd hp] at htarget' hrest'
    exact ⟨t', .spliced htarget' hrest', ht'⟩

/-! ### Roots -/

private theorem Rooted.relocated {validator : Option Validator} {directory : Path}
    (h : Rooted ⟨reader, validator, limit⟩ x directory none .initial (.ok m) s')
    (hd : d.IsCanonical) (hx : x.Descends) (hdir : x.directory? = some directory)
    (hreader : ∀ q : Path, q.Descends → reader' (d.join q) = reader q)
    (hdeps : ∀ q ∈ m.dependencies, q.Descends) :
    x ∉ s'.cache.accepted ∧
      ∃ t', Rooted ⟨reader', validator, limit⟩ (d.join x) (d.join directory) none .initial
        (.ok (m.relocate d)) t' ∧ d.join x ∉ t'.cache.accepted := by
  cases h with
  | cached _ hcached => cases hcached
  | resolved hsource hbody =>
    cases hsource with
    | read hcached hread =>
      obtain ⟨t', hbody', -⟩ := hbody.relocated hd hreader rfl hdeps (hx.of_directory? hdir)
        (List.forall_mem_singleton.mpr hx) (t := CacheState.initial.note (.read (d.join x)))
        relocates_empty
      exact ⟨by simp, _, .resolved (.read rfl ((hreader x hx).trans hread)) hbody', by simp⟩

private theorem Loads.relocated {validator : Option Validator}
    (h : Loads ⟨reader, validator, limit⟩ x none .initial (.ok m) s') (hd : d.IsCanonical)
    (hx : x.Descends) (hreader : ∀ q : Path, q.Descends → reader' (d.join q) = reader q)
    (hdeps : ∀ q ∈ m.dependencies, q.Descends) :
    ∃ t', Loads ⟨reader', validator, limit⟩ (d.join x) none .initial (.ok (m.relocate d)) t' := by
  cases h with
  | marked hdir hroot hmark =>
    exact absurd hmark (hroot.relocated hd hx hdir hreader hdeps).1
  | passed hdir hroot _ hrefusal =>
    obtain ⟨-, t', hroot', hmark⟩ := hroot.relocated hd hx hdir hreader hdeps
    exact ⟨_, .passed (hx.directory?_join hdir d) hroot' hmark hrefusal⟩

/-- **Moving modules to another directory does not change them.** Let a path that descends be loaded
with an empty cache, and let all dependencies of its module descend as well. If another reader finds
below a canonical directory what the first one finds below the working directory, then with this
reader the path is loaded from the directory with the same code, and the dependencies are the same
paths below the directory. -/
theorem loadFromPath_relocated (validator : Option Validator) (limit : Nat) (hd : d.IsCanonical)
    (hx : x.Descends) (hreader : ∀ q : Path, q.Descends → reader' (d.join q) = reader q)
    (hload : ((⟨reader, validator, limit⟩ : Loader).loadFromPath x .initial).1 = .ok m)
    (hdeps : ∀ q ∈ m.dependencies, q.Descends) :
    ((⟨reader', validator, limit⟩ : Loader).loadFromPath (d.join x) .initial).1 =
      .ok { m with dependencies := m.dependencies.map d.join } := by
  have hnormal : x.normal = x := hx.isCanonical
  have hnormal' : (d.join x).normal = d.join x := hx.join_isCanonical hd
  have hloads := loads_loadCanonical (⟨reader, validator, limit⟩ : Loader) x none .initial
  rw [Loader.loadFromPath, hnormal] at hload
  rw [hload] at hloads
  obtain ⟨t', hloads'⟩ := hloads.relocated hd hx hreader hdeps
  rw [Loader.loadFromPath, hnormal', hloads'.loadCanonical_eq]
  rfl

/-- The reader that finds below a directory what another one finds below the working directory, and
nothing elsewhere. -/
def Reader.below (d : Path) (reader : Reader) : Reader := fun p =>
  let q : Path := ⟨.relative, p.names.drop d.names.length⟩
  if d.join q = p then reader q else .error (.failed (.access (.system .noEntry)))

theorem Reader.below_join (hq : q.Descends) : reader.below d (d.join q) = reader q := by
  have hsame : (⟨.relative, (d.join q).names.drop d.names.length⟩ : Path) = q := by
    rw [hq.join_eq, List.drop_left, ← hq.relative]
  rw [below, hsame, if_pos rfl]

/-- Modules of three directories, one of which is left and entered again on the way. -/
def climbingTable : OrderedMap Path Text :=
  .ofList [(.parse "s/a".toList, "& include '../t/../b';A".toList),
    (.parse "b".toList, "& include './t/c';B".toList), (.parse "t/c".toList, "C".toList)]

/-- The modules of the table are moved out of the working directory. -/
theorem loadFromPath_relocated_climbing :
    let d := Path.parse "../lib".toList
    let x := Path.parse "s/a".toList
    let m : Module := ⟨"& include '../t/../b';A".toList, [⟨.line, "../t/../b".toList, 0, 22⟩],
      "CBA".toList, [.parse "b".toList, .parse "t/c".toList]⟩
    ((⟨.ofTable climbingTable, none, 3⟩ : Loader).loadFromPath x .initial).1 = .ok m ∧
      ((⟨.below d (.ofTable climbingTable), none, 3⟩ : Loader).loadFromPath (d.join x)
        .initial).1 =
        .ok { m with dependencies := [.parse "../lib/b".toList, .parse "../lib/t/c".toList] } := by
  intro d x m
  have hload : ((⟨.ofTable climbingTable, none, 3⟩ : Loader).loadFromPath x .initial).1 =
      .ok m := by decide +kernel
  have hd : d.IsCanonical := by rfl
  refine ⟨hload, ?_⟩
  exact loadFromPath_relocated none 3 hd (by decide +kernel) (fun q hq => Reader.below_join hq)
    hload (by decide +kernel)

end ShaderInclude
