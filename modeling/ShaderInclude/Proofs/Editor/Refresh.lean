import ShaderInclude.Editor.Activity
import ShaderInclude.Proofs.Editor.Diagnosis

/-!
# Refreshing diagnoses

A refresh changes nothing on which a diagnosis depends, except that the session may stop checking
its documents because the tool could not be started (`Session.Eases`). So a property that a
diagnosis establishes of its document, and that such a change leaves alone, holds after a refresh of
all documents of which it held before, and of all that the refresh has diagnosed
(`Activity.Upkept`, `Activity.refresh_spec`).

One such property is that a document is up to date: what is recorded for it is what a diagnosis
finds in the current state of the session (`Session.UpToDate`). It lasts only where the tool starts
for all sources or for none (`Activity.upToDate_upkept`): elsewhere an error that was found by a
check may be gone once the session has stopped checking.
-/

namespace ShaderInclude

/-- The tool starts for all sources or for none. -/
def Surroundings.StartsAlike (w : Surroundings) : Prop :=
  ∀ code code', w.run code = .notStarted → w.run code' = .notStarted

theorem Uri.isCanonical_of_toPath {uri : Text} {p : Path} (h : Uri.toPath uri = .ok p) :
    p.IsCanonical := by
  unfold Uri.toPath at h
  split at h <;> cases h
  exact Path.normal_isCanonical _

namespace Editor

variable {w : Surroundings} {s s' s'' : Session} {uri u : Address} {p q : Path} {text : Text}
  {d : Diagnosis} {a a' : Activity}

namespace Session

/-- Two sessions that agree in all on which diagnoses depend. -/
structure SameView (w : Surroundings) (s s' : Session) : Prop where
  documents : s'.documents = s.documents
  buffers : s'.buffers = s.buffers
  settings : s'.settings = s.settings
  refusal : ∀ code, (s'.loader w).refusal? code = (s.loader w).refusal? code

/-- What is read depends on the documents, on what they stand for, and on the settings. -/
private theorem reader_congr (hdocuments : s'.documents = s.documents)
    (hbuffers : s'.buffers = s.buffers) (hsettings : s'.settings = s.settings)
    (files : FileTree) : s'.reader files = s.reader files := by
  funext q
  unfold reader text?
  rw [hdocuments, hbuffers, hsettings]

theorem SameView.reader_eq (h : SameView w s s') (files : FileTree) :
    s'.reader files = s.reader files :=
  reader_congr h.documents h.buffers h.settings files

/-- In the same view a document has the same findings. -/
theorem SameView.diagnosis (h : SameView w s s') (hp : p.IsCanonical)
    (hd : s.diagnosis w p text = .ok d) :
    ∃ d', s'.diagnosis w p text = .ok d' ∧ d'.diagnostics = d.diagnostics ∧
      d'.dependencies = d.dependencies :=
  diagnosis_congr hp hd (fun q _ => by rw [h.reader_eq]) h.refusal

/-- The second session differs from the first one, in all on which diagnoses depend, at most in that
it has stopped checking because the tool could not be started. -/
structure Eases (w : Surroundings) (s s' : Session) : Prop where
  documents : s'.documents = s.documents
  buffers : s'.buffers = s.buffers
  settings : s'.settings = s.settings
  checking : s'.checking = s.checking ∨ s'.checking = false ∧ ∃ code, w.run code = .notStarted

theorem Eases.refl (w : Surroundings) (s : Session) : Eases w s s :=
  ⟨rfl, rfl, rfl, .inl rfl⟩

theorem Eases.trans (h : Eases w s s') (h' : Eases w s' s'') : Eases w s s'' := by
  refine ⟨h'.documents.trans h.documents, h'.buffers.trans h.buffers,
    h'.settings.trans h.settings, ?_⟩
  obtain hsame | hstopped := h'.checking
  · rw [hsame]
    exact h.checking
  · exact .inr hstopped

theorem Eases.reader_eq (h : Eases w s s') (files : FileTree) :
    s'.reader files = s.reader files :=
  reader_congr h.documents h.buffers h.settings files

/-- A session that checks as another one does refuses the same. -/
theorem refusal?_congr (hchecking : s'.checking = s.checking) (hsettings : s'.settings = s.settings)
    (code : Text) : (s'.loader w).refusal? code = (s.loader w).refusal? code := by
  simp only [Loader.refusal?, loader, validator?, hchecking, hsettings]

/-- A session that does not check refuses nothing. -/
theorem refusal?_of_not_checking (h : s.checking = false) (code : Text) :
    (s.loader w).refusal? code = none := by
  simp [Loader.refusal?, loader, validator?, h]

/-- What is not refused is not refused later. -/
theorem Eases.refusal?_eq_none (h : Eases w s s') {code : Text}
    (hcode : (s.loader w).refusal? code = none) : (s'.loader w).refusal? code = none := by
  obtain hsame | ⟨hstopped, -⟩ := h.checking
  · rw [refusal?_congr hsame h.settings, hcode]
  · exact refusal?_of_not_checking hstopped code

/-- Where the tool starts for all sources or for none, to stop checking makes no difference: the
tool did not start once, so it never does, and nothing is refused anyway. -/
theorem Eases.sameView (h : Eases w s s') (hw : w.StartsAlike) : SameView w s s' := by
  refine ⟨h.documents, h.buffers, h.settings, fun code => ?_⟩
  obtain hsame | ⟨hstopped, code', hcode'⟩ := h.checking
  · exact refusal?_congr hsame h.settings code
  · rw [refusal?_of_not_checking hstopped,
      refusal?_of_notStarted fun code => hw code' code hcode']

/-- **What is recorded for the document is what a diagnosis finds now.** -/
def UpToDate (s : Session) (w : Surroundings) (uri : Address) : Prop :=
  ∀ text p, s.documents.get? uri = some text → Uri.toPath uri = .ok p →
    ∃ d, s.diagnosis w p text = .ok d ∧ s.diagnosticsOf uri = d.diagnostics ∧
      s.dependencies.get? uri = some d.dependencies

/-- **A document stays up to date** while the same is recorded for it, what its diagnosis reads is
the same, and the same is refused. -/
theorem UpToDate.congr (hs : s.UpToDate w u)
    (htext : s'.documents.get? u = s.documents.get? u)
    (hdiagnostics : s'.diagnosticsOf u = s.diagnosticsOf u)
    (hdependencies : s'.dependencies.get? u = s.dependencies.get? u)
    (hreader : ∀ text p d, s.documents.get? u = some text → Uri.toPath u = .ok p →
      s.diagnosis w p text = .ok d → s.dependencies.get? u = some d.dependencies →
      ∀ q, .read q ∈ d.events → s'.reader w.files q = s.reader w.files q)
    (hrefusal : ∀ code, (s'.loader w).refusal? code = (s.loader w).refusal? code) :
    s'.UpToDate w u := by
  intro text p htext' hp
  rw [htext] at htext'
  obtain ⟨d, hd, hfound, hdeps⟩ := hs text p htext' hp
  obtain ⟨d', hd', hfound', hdeps'⟩ := diagnosis_congr (Uri.isCanonical_of_toPath hp) hd
    (hreader text p d htext' hp hd hdeps) hrefusal
  refine ⟨d', hd', ?_, ?_⟩
  · rw [hdiagnostics, hfound, hfound']
  · rw [hdependencies, hdeps, hdeps']

theorem UpToDate.of_sameView (hs : s.UpToDate w u) (h : SameView w s s')
    (hdiagnostics : s'.diagnosticsOf u = s.diagnosticsOf u)
    (hdependencies : s'.dependencies.get? u = s.dependencies.get? u) : s'.UpToDate w u :=
  hs.congr (by rw [h.documents]) hdiagnostics hdependencies
    (fun _ _ _ _ _ _ _ q _ => congrFun (h.reader_eq w.files) q) h.refusal

/-- Every open document with a path has a diagnosis. -/
def Diagnosable (s : Session) (w : Surroundings) : Prop :=
  ∀ uri text p, s.documents.get? uri = some text → Uri.toPath uri = .ok p →
    ∃ d, s.diagnosis w p text = .ok d

theorem Diagnosable.of_sameView (hs : s.Diagnosable w) (h : SameView w s s') :
    s'.Diagnosable w := by
  intro uri text p htext hp
  rw [h.documents] at htext
  obtain ⟨d, hd⟩ := hs uri text p htext hp
  obtain ⟨d', hd', -⟩ := h.diagnosis (Uri.isCanonical_of_toPath hp) hd
  exact ⟨d', hd'⟩

end Session

namespace Activity

theorem diagnosticsOf_record (a : Activity) (uri u : Address) (d : Diagnosis) :
    (a.record uri d).session.diagnosticsOf u =
      if uri = u then d.diagnostics else a.session.diagnosticsOf u := by
  simp only [record, Session.record, Session.diagnosticsOf, OrderedMap.get?_set]
  split <;> rfl

theorem dependencies_record (a : Activity) (uri u : Address) (d : Diagnosis) :
    (a.record uri d).session.dependencies.get? u =
      if uri = u then some d.dependencies else a.session.dependencies.get? u :=
  OrderedMap.get?_set _ _ _ _

/-- To record a diagnosis changes nothing on which diagnoses depend, except that the session may
stop checking. -/
theorem eases_record (hp : p.IsCanonical) (hd : a.session.diagnosis w p text = .ok d)
    (uri : Address) : Session.Eases w a.session (a.record uri d).session := by
  refine ⟨rfl, rfl, rfl, ?_⟩
  cases hwaived : d.events.any Event.isWaived with
  | false => exact .inl (by simp [record, Session.record, hwaived])
  | true => exact .inr ⟨by simp [record, hwaived], Session.notStarted_of_waived hp hd hwaived⟩

/-- To record a diagnosis leaves alone what is recorded for the other documents. -/
theorem stored_record (a : Activity) {uri u : Address} (h : uri ≠ u) (d : Diagnosis) :
    (a.record uri d).session.diagnostics.get? u = a.session.diagnostics.get? u ∧
      (a.record uri d).session.dependencies.get? u = a.session.dependencies.get? u := by
  simp [record, Session.record, OrderedMap.get?_set, h]

/-! ### What diagnoses keep up -/

variable {Holds : Session → Address → Prop}

/-- **A property of documents that diagnoses keep up**: a diagnosis establishes it of its document,
and it lasts as long as nothing else is recorded for the document. -/
structure Upkept (w : Surroundings) (Holds : Session → Address → Prop) : Prop where
  closed : ∀ {s u}, s.documents.get? u = none → Holds s u
  recorded : ∀ {a : Activity} {uri p text d}, a.session.documents.get? uri = some text →
    Uri.toPath uri = .ok p → a.session.diagnosis w p text = .ok d →
    Holds (a.record uri d).session uri
  retained : ∀ {s s' u}, Session.Eases w s s' → s'.diagnostics.get? u = s.diagnostics.get? u →
    s'.dependencies.get? u = s.dependencies.get? u → Holds s u → Holds s' u

/-- That a document is up to date is kept up by diagnoses. -/
theorem upToDate_upkept (hw : w.StartsAlike) : Upkept w fun s u => s.UpToDate w u where
  closed hclosed text p htext := nomatch hclosed.symm.trans htext
  recorded := by
    intro a uri p text d htext hp hd text' p' htext' hp'
    obtain rfl := Option.some.inj (htext.symm.trans htext')
    obtain rfl := Except.ok.inj (hp.symm.trans hp')
    have hcanonical := Uri.isCanonical_of_toPath hp
    obtain ⟨d', hd', hfound, hdeps⟩ :=
      ((eases_record hcanonical hd uri).sameView hw).diagnosis hcanonical hd
    refine ⟨d', hd', ?_, ?_⟩
    · rw [diagnosticsOf_record, if_pos rfl, hfound]
    · rw [dependencies_record, if_pos rfl, hdeps]
  retained heases hdiagnostics hdependencies hs :=
    hs.of_sameView (heases.sameView hw) (congrArg (·.getD []) hdiagnostics) hdependencies

/-- What a piece of work leaves as it was: everything on which diagnoses depend, except that the
session may stop checking, the documents of which the property holds, and what is recorded for
addresses without a path. -/
structure Preserves (w : Surroundings) (Holds : Session → Address → Prop) (a a' : Activity) :
    Prop where
  eases : Session.Eases w a.session a'.session
  holds : ∀ u, Holds a.session u → Holds a'.session u
  unaddressed : ∀ u f, Uri.toPath u = .error f →
    a'.session.diagnostics.get? u = a.session.diagnostics.get? u ∧
      a'.session.dependencies.get? u = a.session.dependencies.get? u

theorem Preserves.refl (a : Activity) : Preserves w Holds a a :=
  ⟨.refl w a.session, fun _ h => h, fun _ _ _ => ⟨rfl, rfl⟩⟩

theorem Preserves.trans {a'' : Activity} (h : Preserves w Holds a a')
    (h' : Preserves w Holds a' a'') : Preserves w Holds a a'' := by
  refine ⟨h.eases.trans h'.eases, fun u hu => h'.holds u (h.holds u hu), ?_⟩
  intro u f hu
  obtain ⟨hdiagnostics, hdependencies⟩ := h.unaddressed u f hu
  obtain ⟨hdiagnostics', hdependencies'⟩ := h'.unaddressed u f hu
  exact ⟨hdiagnostics'.trans hdiagnostics, hdependencies'.trans hdependencies⟩

/-- **A diagnosis establishes the property of its document**, and keeps it of the others. -/
theorem holds_record (hkept : Upkept w Holds) (htext : a.session.documents.get? uri = some text)
    (hp : Uri.toPath uri = .ok p) (hd : a.session.diagnosis w p text = .ok d) :
    Preserves w Holds a (a.record uri d) ∧ Holds (a.record uri d).session uri := by
  have heases := eases_record (Uri.isCanonical_of_toPath hp) hd uri
  have hself := hkept.recorded htext hp hd
  refine ⟨⟨heases, fun u hu => ?_, fun u f hf => ?_⟩, hself⟩
  · by_cases huri : uri = u
    · exact huri ▸ hself
    · obtain ⟨hdiagnostics, hdependencies⟩ := stored_record a huri d
      exact hkept.retained heases hdiagnostics hdependencies hu
  · refine stored_record a ?_ d
    rintro rfl
    exact nomatch hp.symm.trans hf

/-! ### The dependents of a path -/

/-- A diagnosis of a document that ends well establishes the property of it. -/
theorem diagnoseAt_spec (hkept : Upkept w Holds)
    (htext : a.session.documents.get? uri = some text)
    (h : a.diagnoseAt w uri text = (none, a')) :
    Preserves w Holds a a' ∧ Holds a'.session uri := by
  unfold diagnoseAt at h
  split at h
  case h_1 => cases h
  case h_2 p hp =>
    unfold diagnose at h
    split at h
    case h_1 => cases h
    case h_2 d hd =>
      cases h
      exact holds_record hkept htext hp hd

/-- **The work on dependents**, if it ends well, establishes the property of all listed documents
that depend on the path. -/
theorem diagnoseDependents_spec (hkept : Upkept w Holds) {entries : List (Address × List Path)}
    (h : diagnoseDependents w p entries a = (none, a')) :
    Preserves w Holds a a' ∧
      ∀ u dependencies, (u, dependencies) ∈ entries → p ∈ dependencies →
        Holds a'.session u := by
  induction entries generalizing a with
  | nil =>
    cases h
    exact ⟨.refl _, nofun⟩
  | cons entry entries ih =>
    obtain ⟨uri, dependencies⟩ := entry
    rw [diagnoseDependents] at h
    split at h
    case h_1 hskip =>
      obtain ⟨hpreserves, hdone⟩ := ih h
      refine ⟨hpreserves, fun u dependencies' hu hp => ?_⟩
      rcases List.mem_cons.mp hu with hu | hu
      · -- the document depends on the path, so it is skipped because it is not open
        cases hu
        rw [if_pos hp] at hskip
        exact hpreserves.holds uri (hkept.closed hskip)
      · exact hdone u dependencies' hu hp
    case h_2 text htext =>
      obtain ⟨-, htext⟩ := Option.ite_none_right_eq_some.mp htext
      split at h
      case h_1 => cases h
      case h_2 a₁ hat =>
        obtain ⟨hfirst, hself⟩ := diagnoseAt_spec hkept htext hat
        obtain ⟨hrest, hdone⟩ := ih h
        refine ⟨hfirst.trans hrest, fun u dependencies' hu hp => ?_⟩
        rcases List.mem_cons.mp hu with hu | hu
        · cases hu
          exact hrest.holds uri hself
        · exact hdone u dependencies' hu hp

/-- A refresh of the dependents of a path that ends well establishes the property of them. -/
theorem refreshDependents_spec (hkept : Upkept w Holds)
    (h : a.refreshDependents w p = (none, a')) :
    Preserves w Holds a a' ∧
      ∀ u dependencies, a.session.dependencies.get? u = some dependencies → p ∈ dependencies →
        Holds a'.session u := by
  obtain ⟨hpreserves, hdone⟩ := diagnoseDependents_spec hkept h
  refine ⟨hpreserves, fun u dependencies hu hp => ?_⟩
  exact hdone u dependencies (OrderedMap.mem_entries_iff.mpr hu) hp

/-- **A refresh that ends well** establishes the property of the document, and of all others that
depend on its path. -/
theorem refresh_spec (hkept : Upkept w Holds) (htext : a.session.documents.get? uri = some text)
    (hp : Uri.toPath uri = .ok p) (h : a.refresh w uri p text = (none, a')) :
    Preserves w Holds a a' ∧ Holds a'.session uri ∧
      ∀ u dependencies, a.session.dependencies.get? u = some dependencies → p ∈ dependencies →
        Holds a'.session u := by
  unfold refresh diagnose at h
  cases hd : a.session.diagnosis w p text with
  | error f =>
    rw [hd] at h
    cases h
  | ok d =>
    rw [hd] at h
    obtain ⟨hfirst, hself⟩ := holds_record hkept htext hp hd
    obtain ⟨hrest, hdone⟩ := refreshDependents_spec hkept h
    refine ⟨hfirst.trans hrest, hrest.holds uri hself, fun u dependencies hu hmem => ?_⟩
    by_cases huri : uri = u
    · exact huri ▸ hrest.holds uri hself
    · refine hdone u dependencies ?_ hmem
      rw [dependencies_record, if_neg huri, hu]

/-- A document that does not depend on the path keeps its diagnostics. -/
theorem diagnoseDependents_frame {entries : List (Address × List Path)}
    (hu : ∀ dependencies, (u, dependencies) ∈ entries → p ∉ dependencies) :
    (diagnoseDependents w p entries a).2.session.diagnosticsOf u = a.session.diagnosticsOf u := by
  induction entries generalizing a with
  | nil => rfl
  | cons entry entries ih =>
    obtain ⟨uri, dependencies⟩ := entry
    have hrest := fun dependencies h => hu dependencies (List.mem_cons_of_mem _ h)
    rw [diagnoseDependents]
    split
    case h_1 => exact ih hrest
    case h_2 text htext =>
      obtain ⟨hp, -⟩ := Option.ite_none_right_eq_some.mp htext
      have hne : uri ≠ u := by
        rintro rfl
        exact hu dependencies List.mem_cons_self hp
      have hat : (a.diagnoseAt w uri text).2.session.diagnosticsOf u =
          a.session.diagnosticsOf u := by
        unfold diagnoseAt diagnose
        split
        · rfl
        split
        · rfl
        · rw [diagnosticsOf_record, if_neg hne]
      split
      case h_1 hres => rw [← hat, hres]
      case h_2 hres => rw [ih hrest, ← hat, hres]

/-- A refresh leaves the diagnostics of other documents alone that do not depend on the path. -/
theorem refresh_frame (hne : uri ≠ u)
    (hu : ∀ dependencies, a.session.dependencies.get? u = some dependencies → p ∉ dependencies) :
    (a.refresh w uri p text).2.session.diagnosticsOf u = a.session.diagnosticsOf u := by
  unfold refresh diagnose
  split
  case h_1 h =>
    split at h <;> cases h
    rfl
  case h_2 h =>
    split at h <;> cases h
    rw [refreshDependents, diagnoseDependents_frame, diagnosticsOf_record, if_neg hne]
    intro dependencies hmem
    have hget := OrderedMap.mem_entries_iff.mp hmem
    rw [dependencies_record, if_neg hne] at hget
    exact hu dependencies hget

/-! ### How the work may end -/

/-- Every document in a list has a path. -/
def Addressed (entries : List (Address × List Path)) : Prop :=
  ∀ e ∈ entries, ∃ p, Uri.toPath e.1 = .ok p

/-- Every recorded document has a path if nothing is recorded for those without one. -/
theorem addressed_of (h : ∀ u f, Uri.toPath u = .error f → s.dependencies.get? u = none) :
    Addressed s.dependencies.entries := by
  rintro ⟨u, dependencies⟩ hu
  cases hpath : Uri.toPath u with
  | error f => exact nomatch (h u f hpath).symm.trans (OrderedMap.mem_entries_iff.mp hu)
  | ok p => exact ⟨p, rfl⟩

/-- To record a diagnosis of a document with a path keeps all recorded documents addressed. -/
theorem addressed_record (h : Addressed a.session.dependencies.entries)
    (hp : Uri.toPath uri = .ok p) (d : Diagnosis) :
    Addressed (a.record uri d).session.dependencies.entries := by
  rintro ⟨u, dependencies⟩ hu
  have hget := OrderedMap.mem_entries_iff.mp hu
  rw [dependencies_record] at hget
  split at hget
  case isTrue huri => exact ⟨p, huri ▸ hp⟩
  case isFalse => exact h (u, dependencies) (OrderedMap.mem_entries_iff.mpr hget)

/-- Where the encoding is known, the only fault of a diagnosis is that of the nesting. -/
theorem diagnose_fault {e : Encoding} (hencoding : a.session.settings.sourceEncoding = .ok e)
    (hp : p.IsCanonical) {f : Fault} (h : a.diagnose w uri p text = (some f, a')) :
    f = .nestingTooDeep := by
  unfold diagnose at h
  split at h
  case h_1 hd =>
    cases h
    exact Session.fault_eq hencoding hp hd
  case h_2 => cases h

/-- A diagnosis that ends well is recorded. -/
theorem eq_record_of_diagnose (h : a.diagnose w uri p text = (none, a')) :
    ∃ d, a.session.diagnosis w p text = .ok d ∧ a' = a.record uri d := by
  unfold diagnose at h
  split at h
  case h_1 => cases h
  case h_2 d hd =>
    cases h
    exact ⟨d, hd, rfl⟩

theorem diagnoseDependents_fault {e : Encoding} {entries : List (Address × List Path)}
    (hencoding : a.session.settings.sourceEncoding = .ok e) (hentries : Addressed entries)
    {f : Fault} (h : diagnoseDependents w p entries a = (some f, a')) : f = .nestingTooDeep := by
  induction entries generalizing a with
  | nil => cases h
  | cons entry entries ih =>
    obtain ⟨uri, dependencies⟩ := entry
    obtain ⟨⟨q, hq⟩, hentries⟩ := List.forall_mem_cons.mp hentries
    rw [diagnoseDependents] at h
    split at h
    case h_1 => exact ih hencoding hentries h
    case h_2 text _ =>
      simp only [diagnoseAt, hq] at h
      split at h
      case h_1 hat =>
        cases h
        exact diagnose_fault hencoding (Uri.isCanonical_of_toPath hq) hat
      case h_2 hat =>
        obtain ⟨d, -, rfl⟩ := eq_record_of_diagnose hat
        exact ih (show (a.record uri d).session.settings.sourceEncoding = .ok e from hencoding)
          hentries h

/-- The only fault of a refresh is that of the nesting. -/
theorem refresh_fault {e : Encoding} (hencoding : a.session.settings.sourceEncoding = .ok e)
    (hentries : Addressed a.session.dependencies.entries) (hp : Uri.toPath uri = .ok p) {f : Fault}
    (h : a.refresh w uri p text = (some f, a')) : f = .nestingTooDeep := by
  unfold refresh at h
  split at h
  case h_1 hat =>
    cases h
    exact diagnose_fault hencoding (Uri.isCanonical_of_toPath hp) hat
  case h_2 hat =>
    obtain ⟨d, -, rfl⟩ := eq_record_of_diagnose hat
    have hencoding' : (a.record uri d).session.settings.sourceEncoding = .ok e := hencoding
    exact diagnoseDependents_fault hencoding' (addressed_record hentries hp d) h

/-- The work on dependents ends well if every open document has a diagnosis. -/
theorem diagnoseDependents_completes (hw : w.StartsAlike) {entries : List (Address × List Path)}
    (hentries : Addressed entries) (hopen : a.session.Diagnosable w) :
    (diagnoseDependents w p entries a).1 = none := by
  induction entries generalizing a with
  | nil => rfl
  | cons entry entries ih =>
    obtain ⟨uri, dependencies⟩ := entry
    obtain ⟨⟨q, hq⟩, hentries⟩ := List.forall_mem_cons.mp hentries
    rw [diagnoseDependents]
    split
    case h_1 => exact ih hentries hopen
    case h_2 text htext =>
      obtain ⟨-, htext⟩ := Option.ite_none_right_eq_some.mp htext
      obtain ⟨d, hd⟩ := hopen uri text q htext hq
      have hview := (eases_record (Uri.isCanonical_of_toPath hq) hd uri).sameView hw
      simp only [diagnoseAt, hq, diagnose, hd]
      exact ih hentries (hopen.of_sameView hview)

/-- A refresh ends well if every open document has a diagnosis. -/
theorem refresh_completes (hw : w.StartsAlike)
    (hentries : Addressed a.session.dependencies.entries)
    (htext : a.session.documents.get? uri = some text) (hp : Uri.toPath uri = .ok p)
    (hopen : a.session.Diagnosable w) : (a.refresh w uri p text).1 = none := by
  obtain ⟨d, hd⟩ := hopen uri text p htext hp
  have hview := (eases_record (Uri.isCanonical_of_toPath hp) hd uri).sameView hw
  simp only [refresh, diagnose, hd]
  exact diagnoseDependents_completes hw (addressed_record hentries hp d) (hopen.of_sameView hview)

end Activity

end Editor

end ShaderInclude
