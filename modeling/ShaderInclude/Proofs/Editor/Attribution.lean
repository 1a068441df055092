import Mathlib.Data.List.Permutation
import ShaderInclude.Proofs.Editor.Refresh

/-!
# Where a diagnostic stands

An error does not tell which directive of a document it comes from. A diagnosis finds this out
afterwards, from what is cached: it takes the last directive whose target is not (`unresolved?`).

`Loader.StopsAt` and `Loader.Refuses` say why a document cannot be loaded, by the functions that
resolve it: at one of its directives, when those after it are resolved, or because the validator
refuses the whole. The main statement is `diagnostic_stands_where_stopped`: a diagnostic stands on
the directive in the first case and at the start in the second one, and these are all cases. It
rests on two facts about one resolution. What has failed with a finding is not cached
(`Derives.get?_of_finding`), and what has not is (`Derives.get?_of_mem_targets`).
-/

namespace ShaderInclude

variable {reader : Reader} {limit : Nat} {referrer : Path} {ancestors : List Path}
  {resolver : Resolver} {l : Loader} {s s' : CacheState} {c : Cache} {p q directory : Path}
  {text : Text} {d : Directive} {ds earlier later : List Directive} {m : Module} {e : ModuleError}

/-! ### Where directives stop -/

/-- Directives in a row are replaced one part after the other, unless the first part fails. -/
theorem expand_append {before after : List Directive} :
    expand resolver directory (before ++ after) m s =
      match expand resolver directory before m s with
      | (.error error, s₁) => (.error error, s₁)
      | (.ok m₁, s₁) => expand resolver directory after m₁ s₁ := by
  induction before generalizing m s with
  | nil => rfl
  | cons d before ih =>
    rw [List.cons_append, expand, expand]
    rcases resolver (Path.target directory d.path) s with ⟨_ | included, s₁⟩
    · rfl
    · exact ih

/-- Replacing directives fails where one of them fails, when those before it are replaced. -/
theorem expand_eq_error_iff {error : LoadError} :
    expand resolver directory ds m s = (.error error, s') ↔
      ∃ before d after m₁ s₁, ds = before ++ d :: after ∧
        expand resolver directory before m s = (.ok m₁, s₁) ∧
        resolver (Path.target directory d.path) s₁ = (.error error, s') := by
  constructor
  · intro h
    induction ds generalizing m s with
    | nil => cases h
    | cons d ds ih =>
      rw [expand] at h
      rcases hres : resolver (Path.target directory d.path) s with ⟨_ | included, s₁⟩
      · simp only [hres] at h
        exact ⟨[], d, ds, m, s, rfl, rfl, hres.trans h⟩
      · simp only [hres] at h
        obtain ⟨before, d', after, m₁, s₂, rfl, hbefore, hstop⟩ := ih h
        exact ⟨d :: before, d', after, m₁, s₂, rfl, by simp only [expand, hres, hbefore], hstop⟩
  · rintro ⟨before, d, after, m₁, s₁, rfl, hbefore, hstop⟩
    rw [expand_append, hbefore]
    simp only [expand, hstop]

/-- A path that fails with a finding is not cached. It may be one of those that are being resolved,
so nothing of these may have been cached before. -/
theorem Derives.get?_of_finding
    (h : Derives reader limit referrer ancestors (.path q) s (.error (.finding e)) s')
    (htrace : ∀ t ∈ referrer :: ancestors, s.cache.get? t = none) : s'.cache.get? q = none := by
  generalize hr : Except.error (LoadError.finding e) = r at h
  cases h with
  | tooDeep | reused | stored => cases hr
  | circular hq => exact htrace q hq
  | unread _ hcached | noDirectory _ hcached => exact hcached
  | failed _ hcached _ _ hbody => exact hbody.get?_eq_none List.mem_cons_self hcached

theorem Task.target_mem_targets (hd : d ∈ ds) :
    Path.target directory d.path ∈ (Task.directives directory ds m).targets :=
  List.mem_map_of_mem hd

/-- **A document stops at a directive**: the directives after it are resolved, from the last one on,
and resolving its target then fails with the finding. -/
def Loader.StopsAt (l : Loader) (p : Path) (text : Text) (later : List Directive) (d : Directive)
    (e : ModuleError) : Prop :=
  let resolver := resolve l.reader l.limit p []
  let resolved := expand resolver p.parent later.reverse (.raw text) .initial
  (∃ m, resolved.1 = .ok m) ∧
    (resolver (Path.target p.parent d.path) resolved.2).1 = .error (.finding e)

/-- **A document is refused**: all its directives are resolved, and the validator refuses its
flattened code with the finding. -/
def Loader.Refuses (l : Loader) (p : Path) (text : Text) (e : ModuleError) : Prop :=
  ∃ m, (expandSource (resolve l.reader l.limit p []) p.parent text .initial).1 = .ok m ∧
    l.refusal? m.code = some e

/-- A document that stops at a directive fails. The target of the directive is not cached by then,
and those of the directives after it are. -/
theorem Loader.StopsAt.derives (h : l.StopsAt p text later d e)
    (hscan : Directive.scan text = earlier ++ d :: later) :
    ∃ s', Derives l.reader l.limit p [] (.ofSource p.parent text) .initial
        (.error (.finding e)) s' ∧
      s'.cache.get? (Path.target p.parent d.path) = none ∧
      ∀ d' ∈ later, ∃ m, s'.cache.get? (Path.target p.parent d'.path) = some m := by
  obtain ⟨⟨m, hlater⟩, hstop⟩ := h
  have hrest : Derives l.reader l.limit p [] (.directives p.parent later.reverse (.raw text))
      .initial (.ok m) _ := derives_iff_run.mpr (Prod.ext hlater rfl)
  have htarget : Derives l.reader l.limit p [] (.path (Path.target p.parent d.path)) _
      (.error (.finding e)) _ := derives_iff_run.mpr (Prod.ext hstop rfl)
  refine ⟨_, derives_iff_run.mpr ?_, htarget.get?_of_finding fun t ht => ?_, fun d' hd' => ?_⟩
  · refine expand_eq_error_iff.mpr
      ⟨later.reverse, d, earlier.reverse, m, _, ?_, hrest.run_eq, htarget.run_eq⟩
    simp [hscan]
  · exact hrest.get?_eq_none ht rfl
  · obtain ⟨-, m', hm'⟩ :=
      hrest.get?_of_mem_targets rfl (Task.target_mem_targets (List.mem_reverse.mpr hd'))
    exact ⟨m', htarget.retains hm'⟩

/-- A document whose directives are not all resolved stops at one of them. -/
theorem Loader.exists_stopsAt
    (h : Derives l.reader l.limit p [] (.ofSource p.parent text) .initial (.error (.finding e))
      s') :
    ∃ earlier d later, Directive.scan text = earlier ++ d :: later ∧
      l.StopsAt p text later d e := by
  obtain ⟨before, d, after, m, s₁, hds, hbefore, hstop⟩ := expand_eq_error_iff.mp h.run_eq
  have hscan : Directive.scan text = after.reverse ++ d :: before.reverse := by
    rw [← List.reverse_reverse (Directive.scan text), hds]
    simp
  refine ⟨after.reverse, d, before.reverse, hscan, ?_⟩
  simp only [StopsAt, List.reverse_reverse, hbefore]
  exact ⟨⟨m, rfl⟩, by rw [hstop]⟩

/-- A document that is refused is resolved first. -/
theorem Loader.Refuses.derives (h : l.Refuses p text e) :
    ∃ m s₁, Derives l.reader l.limit p [] (.ofSource p.parent text) .initial (.ok m) s₁ ∧
      l.refusal? m.code = some e := by
  obtain ⟨m, hm, hrefusal⟩ := h
  exact ⟨m, _, derives_iff_run.mpr (Prod.ext hm rfl), hrefusal⟩

namespace Editor

/-! ### What the cache tells -/

/-- The last directive whose target is not cached. -/
theorem unresolved?_eq_some (hscan : Directive.scan text = earlier ++ d :: later)
    (hd : c.get? (Path.target p.parent d.path) = none)
    (hlater : ∀ d' ∈ later, ∃ m, c.get? (Path.target p.parent d'.path) = some m) :
    unresolved? c p text = some d := by
  have hcached : ∀ d' ∈ later, c.has (Path.target p.parent d'.path) = true :=
    fun d' hd' => Cache.has_eq_true_iff.mpr (hlater d' hd')
  have hnew : c.has (Path.target p.parent d.path) = false := by
    rw [← Bool.not_eq_true, Cache.has_eq_true_iff, hd]
    nofun
  have hnone : (later.map fun d => (d, Path.target p.parent d.path)).reverse.find?
      (fun t => !c.has t.2) = none := by
    simpa using hcached
  simp [unresolved?, targets, hscan, List.find?_append, hnone, hnew]

/-- If all targets are cached, there is no such directive. -/
theorem unresolved?_eq_none
    (h : ∀ d ∈ Directive.scan text, ∃ m, c.get? (Path.target p.parent d.path) = some m) :
    unresolved? c p text = none := by
  have hcached : ∀ d ∈ Directive.scan text, c.has (Path.target p.parent d.path) = true :=
    fun d hd => Cache.has_eq_true_iff.mpr (h d hd)
  simpa [unresolved?, targets] using hcached

/-! ### Where a diagnostic stands -/

variable {s : Session} {w : Surroundings}

/-- The diagnosis of a document that stops at a directive. -/
theorem Session.diagnosis_of_stopsAt (hp : p.IsCanonical) (hparent : p.parent ≠ p)
    (hscan : Directive.scan text = earlier ++ d :: later)
    (h : (s.loader w).StopsAt p text later d e) :
    ∃ diagnosis, s.diagnosis w p text = .ok diagnosis ∧
      diagnosis.diagnostics = [⟨d.span (LineIndex.ofText text), e.message⟩] := by
  have hdir : p.directory? = some p.parent := Path.directory?_eq_some_iff.mpr ⟨rfl, hparent⟩
  obtain ⟨s', hbody, hd, hlater⟩ := h.derives hscan
  refine ⟨_, diagnosis_eq hp (.unrooted hdir (.failed .supplied hbody)), ?_⟩
  simp only [Diagnosis.ofError, unresolved?_eq_some hscan hd hlater, failureSpan]

/-- The diagnosis of a document that is refused. -/
theorem Session.diagnosis_of_refuses (hp : p.IsCanonical) (hparent : p.parent ≠ p)
    (h : (s.loader w).Refuses p text e) :
    ∃ diagnosis, s.diagnosis w p text = .ok diagnosis ∧
      diagnosis.diagnostics = [⟨.atOrigin, e.message⟩] := by
  have hdir : p.directory? = some p.parent := Path.directory?_eq_some_iff.mpr ⟨rfl, hparent⟩
  obtain ⟨m, s₁, hbody, hrefusal⟩ := h.derives
  have hunmarked : p ∉ (s₁.cache.unaccept p).accepted := by
    simp [Cache.mem_accepted_unaccept]
  have hloads := Loads.refused hdir (.resolved .supplied hbody) hunmarked hrefusal
  refine ⟨_, diagnosis_eq hp hloads, ?_⟩
  have hnone : unresolved? ((s.loader w).checked m.code
      (s₁.withCache (s₁.cache.unaccept p))).cache p text = none := by
    refine unresolved?_eq_none fun d hd => ?_
    rw [Loader.cache_checked]
    exact (hbody.get?_of_mem_targets rfl (Task.target_mem_targets (List.mem_reverse.mpr hd))).2
  simp only [Diagnosis.ofError, hnone, failureSpan]

/-- **A diagnostic stands where the document stops.** Whatever the session and the text, let a
document be diagnosed whose path has a directory.
* If it stops at a directive, the diagnostic stands on this one, whatever the others lead to.
* If it is refused, the diagnostic stands at the start.
* There is no diagnostic but for one of these reasons. -/
theorem diagnostic_stands_where_stopped (s : Session) (w : Surroundings) (uri : Address)
    (text : Text) (p : Path) (hpath : Uri.toPath uri = .ok p) (hparent : p.parent ≠ p) :
    (∀ earlier d later e, Directive.scan text = earlier ++ d :: later →
        (s.loader w).StopsAt p text later d e →
        ∃ diagnosis, s.diagnosis w p text = .ok diagnosis ∧
          diagnosis.diagnostics = [⟨d.span (LineIndex.ofText text), e.message⟩]) ∧
      (∀ e, (s.loader w).Refuses p text e →
        ∃ diagnosis, s.diagnosis w p text = .ok diagnosis ∧
          diagnosis.diagnostics = [⟨.atOrigin, e.message⟩]) ∧
      ∀ diagnosis, s.diagnosis w p text = .ok diagnosis → diagnosis.diagnostics ≠ [] →
        (∃ earlier d later e, Directive.scan text = earlier ++ d :: later ∧
          (s.loader w).StopsAt p text later d e) ∨
        ∃ e, (s.loader w).Refuses p text e := by
  have hp := Uri.isCanonical_of_toPath hpath
  refine ⟨fun _ _ _ _ hscan h => Session.diagnosis_of_stopsAt hp hparent hscan h,
    fun _ h => Session.diagnosis_of_refuses hp hparent h, fun diagnosis hd hfound => ?_⟩
  obtain ⟨r, state, hloads, houtcome⟩ := s.exists_loads w hp text
  rw [hd] at houtcome
  obtain ⟨-, ⟨m, -, hclean, -⟩ | ⟨e, rfl, -, -⟩⟩ := Session.diagnosis_cases houtcome
  · exact absurd hclean hfound
  have hdirectory : ∀ {directory}, p.directory? = some directory → directory = p.parent :=
    fun hdir => (Path.directory?_eq_some_iff.mp hdir).1
  generalize he : LoadError.finding e = error at hloads
  cases hloads with
  | noDirectory hdir =>
    rw [Path.directory?_eq_some_iff.mpr ⟨rfl, hparent⟩] at hdir
    cases hdir
  | unrooted hdir hroot =>
    obtain rfl := hdirectory hdir
    cases hroot with
    | unread hsupplied => cases hsupplied
    | failed hsource hbody =>
      cases hsource
      subst he
      obtain ⟨earlier, d, later, hscan, hstop⟩ := Loader.exists_stopsAt hbody
      exact .inl ⟨earlier, d, later, e, hscan, hstop⟩
  | refused hdir hroot _ hrefusal =>
    obtain rfl := hdirectory hdir
    cases he
    cases hroot with
    | cached hsupplied => cases hsupplied
    | resolved hsource hbody =>
      cases hsource
      refine .inr ⟨e, _, ?_, hrefusal⟩
      rw [expandSource_eq_run, hbody.run_eq]

/-- Surroundings in which `b` includes a file that is missing, and the tool refuses everything. -/
def brokenInclude : Surroundings where
  files := (FileTree.ofWorkingDirectory [])
    |>.add ["p".toList, "b".toList] (.file (Utf8.encode "& include 'gone';".toList) 0 none)
    |>.add ["p".toList, "c".toList] (.file (Utf8.encode "C".toList) 0 none)
  environment := {}
  run _ := .exited 1 "bad".toList []
  writer _ := .ok none

/-- Two directives that lead to a file with a missing include, and a third one that does not: the
diagnostic stands on the second one, at which the document stops. A document that leads only to the
other file is refused, and its diagnostic stands at the start. -/
theorem diagnostic_stands_where_stopped_shared :
    let a := "file:///p/a".toList
    let text := "& include 'b';& include 'b';& include 'c';".toList
    let text' := "& include 'c';".toList
    let p := Path.parse "/p/a".toList
    let s := Session.ofSettings none {}
    Uri.toPath a = .ok p ∧
      (∃ diagnosis, s.diagnosis brokenInclude p text = .ok diagnosis ∧
        diagnosis.diagnostics.map Diagnostic.span = [⟨14, 28, ⟨0, 14⟩, ⟨0, 28⟩⟩]) ∧
      ∃ diagnosis, s.diagnosis brokenInclude p text' = .ok diagnosis ∧
        diagnosis.diagnostics = [⟨.atOrigin, "bad".toList⟩] := by
  have hscan : Directive.scan "& include 'b';& include 'b';& include 'c';".toList =
      [⟨.line, ['b'], 0, 14⟩] ++ ⟨.line, ['b'], 14, 28⟩ :: [⟨.line, ['c'], 28, 42⟩] := by cbv
  intro a text text' p s
  have hpath : Uri.toPath a = .ok p := by decide +kernel
  have hparent : p.parent ≠ p := by decide +kernel
  have hresolved : ∀ {r : Except LoadError Module}, r.toOption.isSome = true → ∃ m, r = .ok m := by
    intro r hr
    cases r with
    | error => cases hr
    | ok m => exact ⟨m, rfl⟩
  refine ⟨hpath, ?_, ?_⟩
  · obtain ⟨hstands, -⟩ := diagnostic_stands_where_stopped s brokenInclude a text p hpath hparent
    let e : ModuleError := .unreadable (.parse "/p/gone".toList) (.access (.system .noEntry))
    obtain ⟨diagnosis, hd, hfound⟩ :=
      hstands _ _ _ e hscan ⟨hresolved (by decide +kernel), by decide +kernel⟩
    refine ⟨diagnosis, hd, ?_⟩
    rw [hfound]
    decide +kernel
  · obtain ⟨-, hstart, -⟩ :=
      diagnostic_stands_where_stopped s brokenInclude a text' p hpath hparent
    let m : Module := ⟨text', [⟨.line, ['c'], 0, 14⟩], ['C'], [.parse "/p/c".toList]⟩
    exact hstart (.rejected "bad".toList) ⟨m, by decide +kernel, by decide +kernel⟩

end Editor

end ShaderInclude
