import Mathlib.Data.Finset.Card
import ShaderInclude.Proofs.Resolution.Uncached

/-!
# Requests for included modules

To resolve a root is to request the targets of its directives, and a target that is neither cached
nor being resolved requests its own in turn. `Requests` lists the requests of a task, each with the
paths that are being resolved when it is made and the state in which it is made. So many paths are
being resolved, so deep the request is nested: the root requests at depth one.

The main statement is `load_ends_of_finite`. With a reader that succeeds on finitely many paths no
request is nested deeper than their number and one more, whatever the modules include. The bound on
the nesting that a loader brings along then plays no role if it is above that number: every load has
the outcome that it has with any other such bound.
-/

namespace ShaderInclude

variable {reader : Reader} {limit limit' : Nat} {referrer : Path} {ancestors trace : List Path}
  {task : Task} {p q directory : Path} {s s' t : CacheState} {r : FiniteReader}
  {result : Except LoadError Module}

/-- **The requests of a task**, with the paths that are being resolved when the request is made,
from the innermost outward, the path that is requested, and the state until then. -/
inductive Requests (reader : Reader) :
    (limit : Nat) → (referrer : Path) → (ancestors : List Path) → Task → CacheState →
      (trace : List Path) → Path → CacheState → Prop
  | self {limit : Nat} {referrer : Path} {ancestors : List Path} {p : Path} {s : CacheState} :
    Requests reader limit referrer ancestors (.path p) s (referrer :: ancestors) p s
  | nested {limit : Nat} {referrer : Path} {ancestors trace : List Path} {p q directory : Path}
      {s t : CacheState} {source : Text} (htrace : p ∉ referrer :: ancestors)
      (hcached : s.cache.get? p = none) (hread : reader p = .ok source)
      (hdir : p.directory? = some directory)
      (hbody : Requests reader limit p (referrer :: ancestors) (.ofSource directory source)
        (s.requested p) trace q t) :
    Requests reader (limit + 1) referrer ancestors (.path p) s trace q t
  | first {limit : Nat} {referrer : Path} {ancestors trace : List Path} {q directory : Path}
      {d : Directive} {ds : List Directive} {m : Module} {s t : CacheState}
      (htarget : Requests reader limit referrer ancestors (.path (Path.target directory d.path)) s
        trace q t) :
    Requests reader limit referrer ancestors (.directives directory (d :: ds) m) s trace q t
  | later {limit : Nat} {referrer : Path} {ancestors trace : List Path} {q directory : Path}
      {d : Directive} {ds : List Directive} {m included : Module} {s s₁ t : CacheState}
      (htarget : Derives reader limit referrer ancestors (.path (Path.target directory d.path)) s
        (.ok included) s₁)
      (hrest : Requests reader limit referrer ancestors
        (.directives directory ds (m.splice d (Path.target directory d.path) included))
        (s₁.note (.spliced (Path.target directory d.path) d.start d.stop)) trace q t) :
    Requests reader limit referrer ancestors (.directives directory (d :: ds) m) s trace q t

/-- The requests of the loading of a root: those of its source, once this is there. -/
def Loader.Requests (l : Loader) (p : Path) (supplied : Option Text) (s : CacheState)
    (trace : List Path) (q : Path) (t : CacheState) : Prop :=
  ∃ directory source s₀, p.directory? = some directory ∧ RootSource l p s supplied source s₀ ∧
    ShaderInclude.Requests l.reader l.limit p [] (.ofSource directory source) s₀ trace q t

/-! ### The paths that are being resolved -/

/-- **What is being resolved**: different paths that could be read, below a root whose source may
have been supplied. -/
structure FiniteReader.Resolving (r : FiniteReader) (trace : List Path) : Prop where
  nodup : trace.Nodup
  readable : ∀ x ∈ trace.dropLast, x ∈ r.readable

namespace FiniteReader.Resolving

theorem singleton (r : FiniteReader) (p : Path) : r.Resolving [p] :=
  ⟨List.nodup_singleton p, nofun⟩

/-- One more path is being resolved once it was read. -/
theorem cons {source : Text} (h : r.Resolving (referrer :: ancestors)) (hp : p.IsCanonical)
    (htrace : p ∉ referrer :: ancestors) (hread : r.read p = .ok source) :
    r.Resolving (p :: referrer :: ancestors) := by
  refine ⟨List.nodup_cons.mpr ⟨htrace, h.nodup⟩, fun x hx => ?_⟩
  rw [List.dropLast_cons_of_ne_nil (List.cons_ne_nil _ _)] at hx
  rcases List.mem_cons.mp hx with rfl | hx
  · exact r.mem_readable hp hread
  · exact h.readable x hx

/-- No more paths are being resolved than there are readable ones and the root. -/
theorem length_le (h : r.Resolving trace) : trace.length ≤ r.readable.card + 1 := by
  have hinner : trace.dropLast.Nodup := h.nodup.sublist (List.dropLast_sublist trace)
  have hcard : trace.dropLast.toFinset.card ≤ r.readable.card :=
    Finset.card_le_card fun x hx => h.readable x (List.mem_toFinset.mp hx)
  rw [List.toFinset_card_of_nodup hinner, List.length_dropLast] at hcard
  omega

/-- Where the limit is above the number of readable paths, there is always some nesting left. -/
theorem exists_succ (h : r.Resolving (referrer :: ancestors))
    (hlimit : r.readable.card < limit + ancestors.length) : ∃ k, limit = k + 1 := by
  have hlength := h.length_le
  rw [List.length_cons] at hlength
  exact Nat.exists_eq_succ_of_ne_zero (by omega)

end FiniteReader.Resolving

/-- A request adds to what is being resolved only what could be read. -/
theorem Requests.resolving (h : Requests r.read limit referrer ancestors task s trace q t)
    (htask : task.IsCanonical) (htrace : r.Resolving (referrer :: ancestors)) :
    r.Resolving trace := by
  induction h with
  | self => exact htrace
  | nested hp _ hread _ _ ih => exact ih trivial (htrace.cons htask hp hread)
  | first _ ih => exact ih (Path.target_isCanonical _ _) htrace
  | later _ _ ih => exact ih trivial htrace

/-! ### The limit -/

/-- What a nested request loses of the limit it gains in paths that are being resolved. -/
private theorem room_nested {n k : Nat} (referrer : Path) (h : n < k + 1 + ancestors.length) :
    n < k + (referrer :: ancestors).length := by
  rw [List.length_cons]
  omega

/-- **A limit above the number of readable paths plays no role**: a resolution ends in the same way
with any other such limit, and it does not end because its modules are nested too deeply. -/
theorem Derives.congr_limit (h : Derives r.read limit referrer ancestors task s result s')
    (htask : task.IsCanonical) (htrace : r.Resolving (referrer :: ancestors))
    (hlimit : r.readable.card < limit + ancestors.length)
    (hlimit' : r.readable.card < limit' + ancestors.length) :
    Derives r.read limit' referrer ancestors task s result s' ∧
      (result = .error (.fault .nestingTooDeep) →
        ∃ x, r.read x = .error (.fault .nestingTooDeep)) := by
  induction h generalizing limit' with
  | tooDeep =>
    obtain ⟨k, hk⟩ := htrace.exists_succ hlimit
    cases hk
  | circular hmem =>
    obtain ⟨k, rfl⟩ := htrace.exists_succ hlimit'
    exact ⟨.circular hmem, nofun⟩
  | reused hmem hcached =>
    obtain ⟨k, rfl⟩ := htrace.exists_succ hlimit'
    exact ⟨.reused hmem hcached, nofun⟩
  | @unread _ _ _ p _ e hmem hcached hread =>
    obtain ⟨k, rfl⟩ := htrace.exists_succ hlimit'
    refine ⟨.unread hmem hcached hread, fun hdeep => ⟨p, ?_⟩⟩
    cases e <;> cases hdeep
    exact hread
  | noDirectory hmem hcached hread hdir =>
    obtain ⟨k, rfl⟩ := htrace.exists_succ hlimit'
    exact ⟨.noDirectory hmem hcached hread hdir, nofun⟩
  | @failed _ referrer _ _ _ _ _ _ _ hmem hcached hread hdir _ ih =>
    obtain ⟨k, rfl⟩ := htrace.exists_succ hlimit'
    obtain ⟨hbody, hdeep⟩ := ih trivial (htrace.cons htask hmem hread)
      (room_nested referrer hlimit) (room_nested referrer hlimit')
    exact ⟨.failed hmem hcached hread hdir hbody, hdeep⟩
  | @stored _ referrer _ _ _ _ _ _ _ hmem hcached hread hdir _ ih =>
    obtain ⟨k, rfl⟩ := htrace.exists_succ hlimit'
    obtain ⟨hbody, -⟩ := ih trivial (htrace.cons htask hmem hread)
      (room_nested referrer hlimit) (room_nested referrer hlimit')
    exact ⟨.stored hmem hcached hread hdir hbody, nofun⟩
  | done => exact ⟨.done, nofun⟩
  | halted _ ih =>
    obtain ⟨htarget, hdeep⟩ := ih (Path.target_isCanonical _ _) htrace hlimit hlimit'
    exact ⟨.halted htarget, hdeep⟩
  | spliced _ _ ih₁ ih₂ =>
    obtain ⟨htarget, -⟩ := ih₁ (Path.target_isCanonical _ _) htrace hlimit hlimit'
    obtain ⟨hrest, hdeep⟩ := ih₂ trivial htrace hlimit hlimit'
    exact ⟨.spliced htarget hrest, hdeep⟩

/-! ### Loading a root -/

variable {validator : Option Validator} {supplied : Option Text}

private theorem RootSource.congr_limit {source : Text} {s₀ : CacheState}
    (h : RootSource (r.loader validator limit) p s supplied source s₀) :
    RootSource (r.loader validator limit') p s supplied source s₀ := by
  cases h with
  | supplied => exact .supplied
  | read hcached hread => exact .read hcached hread

private theorem Rooted.congr_limit
    (h : Rooted (r.loader validator limit) p directory supplied s result s')
    (hlimit : r.readable.card < limit) (hlimit' : r.readable.card < limit') :
    Rooted (r.loader validator limit') p directory supplied s result s' ∧
      (result = .error (.fault .nestingTooDeep) →
        ∃ x, r.read x = .error (.fault .nestingTooDeep)) := by
  have hbody : ∀ {source s₀ result s'},
      Derives r.read limit p [] (.ofSource directory source) s₀ result s' →
      Derives r.read limit' p [] (.ofSource directory source) s₀ result s' ∧
        (result = .error (.fault .nestingTooDeep) →
          ∃ x, r.read x = .error (.fault .nestingTooDeep)) :=
    fun h => h.congr_limit trivial (.singleton r p) hlimit hlimit'
  cases h with
  | cached hsupplied hcached => exact ⟨.cached hsupplied hcached, nofun⟩
  | @unread e hsupplied hcached hread =>
    refine ⟨.unread hsupplied hcached hread, fun hdeep => ⟨p, ?_⟩⟩
    cases e <;> cases hdeep
    exact hread
  | failed hsource h =>
    obtain ⟨h', hdeep⟩ := hbody h
    exact ⟨.failed hsource.congr_limit h', hdeep⟩
  | resolved hsource h => exact ⟨.resolved hsource.congr_limit (hbody h).1, nofun⟩

private theorem Loads.congr_limit (h : Loads (r.loader validator limit) p supplied s result s')
    (hlimit : r.readable.card < limit) (hlimit' : r.readable.card < limit') :
    Loads (r.loader validator limit') p supplied s result s' ∧
      (result = .error (.fault .nestingTooDeep) →
        ∃ x, r.read x = .error (.fault .nestingTooDeep)) := by
  cases h with
  | noDirectory hdir => exact ⟨.noDirectory hdir, nofun⟩
  | unrooted hdir hroot =>
    obtain ⟨hroot, hdeep⟩ := hroot.congr_limit hlimit hlimit'
    exact ⟨.unrooted hdir hroot, hdeep⟩
  | refused hdir hroot hmark hrefusal =>
    exact ⟨.refused hdir (hroot.congr_limit hlimit hlimit').1 hmark hrefusal, nofun⟩
  | marked hdir hroot hmark =>
    exact ⟨.marked hdir (hroot.congr_limit hlimit hlimit').1 hmark, nofun⟩
  | passed hdir hroot hmark hrefusal =>
    exact ⟨.passed hdir (hroot.congr_limit hlimit hlimit').1 hmark hrefusal, nofun⟩

/-- **Every load ends**, if its reader succeeds on finitely many canonical paths. Whatever the
cache, the root, its source and the bound on the nesting,
* no request of the load is nested deeper than the number of readable paths and one more, and
* if the bound is above the number of readable paths, the load has the outcome that it has with any
  other such bound. It ends with a module, with a finding, or with a fault of the reader's own. -/
theorem load_ends_of_finite (r : FiniteReader) (validator : Option Validator) (c : Cache)
    (p : Path) (supplied : Option Text) (limit : Nat) :
    (∀ trace q t, (r.loader validator limit).Requests p.normal supplied ⟨c, []⟩ trace q t →
        trace.length ≤ r.readable.card + 1) ∧
      (r.readable.card + 1 ≤ limit →
        let outcome := (r.loader validator limit).loadCanonical p.normal supplied ⟨c, []⟩
        (∀ limit', r.readable.card + 1 ≤ limit' →
          (r.loader validator limit').loadCanonical p.normal supplied ⟨c, []⟩ = outcome) ∧
        (outcome.1 = .error (.fault .nestingTooDeep) →
          ∃ x, r.read x = .error (.fault .nestingTooDeep))) := by
  refine ⟨?_, fun hlimit => ?_⟩
  · rintro trace q t ⟨directory, source, s₀, -, -, h⟩
    exact (h.resolving trivial (.singleton r p.normal)).length_le
  · have hloads := loads_loadCanonical (r.loader validator limit) p.normal supplied ⟨c, []⟩
    exact ⟨fun limit' hlimit' => (hloads.congr_limit hlimit hlimit').1.loadCanonical_eq,
      (hloads.congr_limit hlimit hlimit).2⟩

/-- Two modules that include each other. -/
def mutualTable : OrderedMap Path Text :=
  .ofList [(.parse "x".toList, "& include 'y';".toList),
    (.parse "y".toList, "& include 'x';".toList)]

/-- A source that is one directive requests the target of this directive. -/
private theorem Requests.of_scan {source : Text} {d : Directive}
    (hscan : Directive.scan source = [d]) (htarget : Path.target directory d.path = p)
    (h : Requests reader limit referrer ancestors (.path p) s trace q t) :
    Requests reader limit referrer ancestors (.ofSource directory source) s trace q t := by
  rw [Task.ofSource, hscan]
  exact .first (htarget ▸ h)

/-- A circle is followed once around: the root is requested again while both modules are being
resolved, and there every load ends, if its bound on the nesting leaves room for both. -/
theorem load_ends_of_finite_mutual :
    let x := Path.parse "x".toList
    let y := Path.parse "y".toList
    let r := FiniteReader.ofTable mutualTable
    r.readable.card + 1 = 3 ∧
      (∃ t, (r.loader none 3).Requests x.normal none ⟨.empty, []⟩ [y, x] x t ∧
        [y, x].length ≤ r.readable.card + 1) ∧
      ∀ limit', 3 ≤ limit' →
        ((r.loader none limit').loadCanonical x.normal none ⟨.empty, []⟩).1 =
          .error (.finding (.circular x y)) := by
  intro x y r
  have hcard : r.readable.card + 1 = 3 := by decide +kernel
  have hnormal : x.normal = x := by decide +kernel
  have hx : r.read x = .ok "& include 'y';".toList := by decide +kernel
  have hy : r.read y = .ok "& include 'x';".toList := by decide +kernel
  let start := CacheState.note ⟨.empty, []⟩ (.read x)
  have hinner : Requests r.read 2 y [x] (.ofSource ⟨.relative, []⟩ "& include 'x';".toList)
      (start.requested y) [y, x] x (start.requested y) :=
    .of_scan (d := ⟨.line, ['x'], 0, 14⟩) (by decide +kernel) (by decide +kernel) .self
  have houter : Requests r.read 3 x [] (.ofSource ⟨.relative, []⟩ "& include 'y';".toList)
      start [y, x] x (start.requested y) :=
    .of_scan (d := ⟨.line, ['y'], 0, 14⟩) (by decide +kernel) (by decide +kernel)
      (.nested (by decide +kernel) rfl hy (by decide +kernel) hinner)
  have hrequest : (r.loader none 3).Requests x none ⟨.empty, []⟩ [y, x] x (start.requested y) :=
    ⟨_, _, _, by decide +kernel, .read rfl hx, houter⟩
  obtain ⟨hnested, hends⟩ := load_ends_of_finite r none .empty x none 3
  obtain ⟨hsame, -⟩ := hends (by omega)
  rw [hnormal] at hnested hsame ⊢
  refine ⟨hcard, ⟨_, hrequest, hnested _ _ _ hrequest⟩, fun limit' hlimit' => ?_⟩
  rw [hsame limit' (by omega)]
  decide +kernel

end ShaderInclude
