import Mathlib.Data.List.Induction
import ShaderInclude.Proofs.Editor.Notice
import ShaderInclude.Proofs.Editor.Obstacle

/-!
# Stale errors

An error that a session shows for an open document is stale if a diagnosis of the document would
now find something else. A change at a path renews the documents whose diagnoses have recorded the
path, so an error can become stale only if its diagnosis has read the path without recording it.
`Session.Covered` says that there is no such path, and `noStaleError_iff_covered` that this is what
decides: along a run of notices, no next notice can leave a stale error if and only if the session
is covered throughout.

A diagnosis that fails records the targets of its document, the modules that were resolved, and the
path that the error is about. It does not record the modules between a target and the failure, which
is why sessions need not be covered: `staleError_of_deep_failure` is a run in which a module three
includes down cannot be read, and the error stays when the module above it is repaired.
-/

namespace ShaderInclude

namespace Editor

namespace Session

/-- **No stale error**: every open document for which errors are shown would now be diagnosed with
the same ones. -/
def NoStaleError (s : Session) (w : Surroundings) : Prop :=
  ∀ uri text, s.documents.get? uri = some text → s.diagnosticsOf uri ≠ [] →
    ∃ p d, Uri.toPath uri = .ok p ∧ s.diagnosis w p text = .ok d ∧
      d.diagnostics = s.diagnosticsOf uri

/-- **The session is covered**: a diagnosis of an open document that finds an error depends, as far
as an editor can tell, on every path that it reads. -/
def Covered (s : Session) (w : Surroundings) : Prop :=
  ∀ uri text p d, s.documents.get? uri = some text → Uri.toPath uri = .ok p →
    s.diagnosis w p text = .ok d → d.diagnostics ≠ [] →
    ∀ address q, Uri.toPath address = .ok q → .read q ∈ d.events → q ∈ d.dependencies

/-- What every session keeps that has been covered so far. -/
structure Consistent (s : Session) (w : Surroundings) (settings : Settings) : Prop where
  settings_eq : s.settings = settings
  named : ∀ p uri, s.buffers.get? p = some uri → Uri.toPath uri = .ok p
  unaddressed : ∀ uri f, Uri.toPath uri = .error f →
    s.diagnosticsOf uri = [] ∧ s.dependencies.get? uri = none
  upToDate : ∀ uri, s.UpToDate w uri

variable {w : Surroundings} {s s' : Session} {uri u : Address} {p q : Path} {text : Text}
  {settings : Settings}

theorem consistent_ofSettings (w : Surroundings) (root : Option Path) (settings : Settings) :
    (ofSettings root settings).Consistent w settings :=
  ⟨rfl, nofun, fun _ _ _ => ⟨rfl, rfl⟩, fun _ _ _ => nofun⟩

/-- Where all documents are up to date, no error is stale. -/
theorem Consistent.noStaleError (hs : s.Consistent w settings) : s.NoStaleError w := by
  intro uri text htext hfound
  cases hpath : Uri.toPath uri with
  | error f => exact absurd (hs.unaddressed uri f hpath).1 hfound
  | ok p =>
    obtain ⟨d, hd, hdiagnostics, -⟩ := hs.upToDate uri text p htext hpath
    exact ⟨p, d, rfl, hd, hdiagnostics.symm⟩

theorem Consistent.addressed (hs : s.Consistent w settings) :
    Activity.Addressed s.dependencies.entries :=
  Activity.addressed_of fun u f hu => (hs.unaddressed u f hu).2

/-! ### One notice -/

/-- **After an edit of a covered session every other document is up to date or depends on the edited
path.** -/
theorem EditedAt.upToDate_or_depends (hedit : s.EditedAt s' uri p)
    (hpath : Uri.toPath uri = .ok p) (hs : s.Consistent w settings) (hcovered : s.Covered w)
    (hu : u ≠ uri) :
    s'.UpToDate w u ∨
      ∃ dependencies, s'.dependencies.get? u = some dependencies ∧ p ∈ dependencies := by
  by_cases hdepends : ∃ dependencies, s'.dependencies.get? u = some dependencies ∧ p ∈ dependencies
  · exact .inr hdepends
  refine .inl ((hs.upToDate u).congr (hedit.documents u hu) (hedit.diagnosticsOf_eq hu)
    (hedit.dependencies u hu) (fun text pu d htext hpu hd hdeps q hq => ?_) hedit.refusal_eq)
  refine hedit.reader_eq hpath hs.named w.files ?_
  rintro rfl
  -- a path that was read is recorded
  have hmem : q ∈ d.dependencies := by
    by_cases hclean : d.diagnostics = []
    · exact mem_dependencies_of_clean (Uri.isCanonical_of_toPath hpu) hd hclean hq
    · exact hcovered u text pu d htext hpu hd hclean uri q hpath hq
  exact hdepends ⟨d.dependencies, (hedit.dependencies u hu).trans hdeps, hmem⟩

/-- A document without a path is nothing that a diagnosis sees. -/
theorem Consistent.upToDate_astray {f : Fault} {documents : OrderedMap Address Text}
    (hs : s.Consistent w settings) (hpath : Uri.toPath uri = .error f)
    (hdocuments : ∀ u, u ≠ uri → documents.get? u = s.documents.get? u) (u : Address) :
    ({ s with documents } : Session).UpToDate w u := by
  by_cases hu : u = uri
  · subst hu
    exact fun text p htext hp => nomatch hpath.symm.trans hp
  · exact (hs.upToDate u).congr (hdocuments u hu) rfl rfl
      (fun _ _ _ _ _ _ _ q _ => congrFun (reader_astray hs.named hpath hdocuments w.files) q)
      fun _ => rfl

/-- **A covered session stays consistent**, whatever it is told next. -/
theorem Consistent.told {e : Encoding} {n : Notice} (hs : s.Consistent w settings)
    (hw : w.StartsAlike) (hencoding : settings.sourceEncoding = .ok e) (hcovered : s.Covered w)
    (hn : ¬ s.GivesUp w n) : (s.told w n).Consistent w settings := by
  rw [← hs.settings_eq] at hencoding
  have hrenewal := renewal_told (Activity.upToDate_upkept hw) hencoding hs.addressed hn
  refine ⟨hrenewal.settings_eq.trans hs.settings_eq, hrenewal.named hs.named, fun u f hu => ?_, ?_⟩
  · obtain ⟨hdiagnostics, hdependencies⟩ := hrenewal.unaddressed hu
    rw [diagnosticsOf, hdiagnostics, hdependencies]
    exact hs.unaddressed u f hu
  · exact hrenewal.holds hs.upToDate hs.upToDate_astray fun hpath hedit u hu =>
      hedit.upToDate_or_depends hpath hs hcovered hu

/-! ### A path that is not recorded -/

/-- An obstacle for which no document stands cannot be read. -/
theorem reader_obstacle {k : Nat} (hk : obstacle k ∉ s.buffers.keys) :
    s.reader w.files (obstacle k) = .error (.failed (.access .nullCharacter)) := by
  have hbuffer : s.buffers.get? (obstacle k) = none := by
    cases hget : s.buffers.get? (obstacle k) with
    | none => rfl
    | some u => exact absurd (OrderedMap.mem_keys_iff.mpr ⟨u, hget⟩) hk
  simp only [reader, text?, hbuffer, Option.bind_none, FileTree.readSource,
    FileTree.read_obstacle]

/-- There is an obstacle that no document stands for, and that none of some messages is about. -/
theorem exists_unused_obstacle (s : Session) (messages : List Text) :
    ∃ k, obstacle k ∉ s.buffers.keys ∧
      (∀ u text p, s.documents.get? u = some text → Uri.toPath u = .ok p → obstacle k ≠ p) ∧
      (obstacleError k).message ∉ messages := by
  obtain ⟨k, hk, hmessage⟩ := exists_obstacle
    (s.buffers.keys ++ s.documents.keys.filterMap fun u => (Uri.toPath u).toOption) messages
  obtain ⟨hbuffers, hdocuments⟩ := not_or.mp (mt List.mem_append.mpr hk)
  refine ⟨k, hbuffers, ?_, hmessage⟩
  rintro u text p hu hp rfl
  refine hdocuments (List.mem_filterMap.mpr ⟨u, OrderedMap.mem_keys_iff.mpr ⟨text, hu⟩, ?_⟩)
  rw [hp]
  rfl

/-- The session in which a document is opened that leads to an obstacle alone. -/
def obstructed (s : Session) (address : Address) (q : Path) (k : Nat) : Session :=
  (s.setDocument address (Directive.lone (obstacleText k))).setBuffer q address

variable {address : Address} {k : Nat}

theorem editedAt_obstructed (s : Session) (address : Address) (q : Path) (k : Nat) :
    s.EditedAt (s.obstructed address q k) address q :=
  editedAt_open s address _ q

theorem documents_obstructed (s : Session) (address : Address) (q : Path) (k : Nat) :
    (s.obstructed address q k).documents.get? address =
      some (Directive.lone (obstacleText k)) := by
  simp [obstructed, setDocument, setBuffer]

theorem obstructs_obstructed (hs : s.Consistent w settings) (haddress : Uri.toPath address = .ok q)
    (hk : obstacle k ∉ s.buffers.keys) :
    Obstructs (s.reader w.files) ((s.obstructed address q k).reader w.files) q (obstacle k)
      (.access .nullCharacter) := by
  have hedit := editedAt_obstructed s address q k
  refine ⟨fun x hx => hedit.reader_eq haddress hs.named w.files hx, ?_, reader_obstacle hk⟩
  refine ⟨_, _, ?_, scan_obstacle k, target_obstacle k⟩
  simp [obstructed, reader, text?, setDocument, setBuffer]

/-- Every document still has a diagnosis in an obstructed session, if the path had a source with
directives before. -/
theorem diagnosable_obstructed {source : Text} {directory : Path}
    (hs : s.Consistent w settings) (haddress : Uri.toPath address = .ok q)
    (hsource : s.reader w.files q = .ok source) (hdir : q.directory? = some directory)
    (hscan : Directive.scan source ≠ []) (hk : obstacle k ∉ s.buffers.keys)
    (hkpath : ∀ u text p, s.documents.get? u = some text → Uri.toPath u = .ok p →
      obstacle k ≠ p) :
    (s.obstructed address q k).Diagnosable w := by
  have hedit := editedAt_obstructed s address q k
  have hobstructs := obstructs_obstructed hs haddress hk
  have hkq : obstacle k ≠ q := by
    intro hkq
    rw [← hkq, reader_obstacle hk] at hsource
    cases hsource
  intro u text p htext hp
  have hcanonical := Uri.isCanonical_of_toPath hp
  by_cases hu : u = address
  · subst hu
    obtain rfl := Except.ok.inj (haddress.symm.trans hp)
    obtain rfl := Option.some.inj ((documents_obstructed s u q k).symm.trans htext)
    exact exists_diagnosis_of_unreadable hcanonical (scan_obstacle k) (target_obstacle k)
      ((hobstructs.agree _ hkq).trans hobstructs.unreadable) hkq
  · rw [hedit.documents u hu] at htext
    obtain ⟨d, hd, -⟩ := hs.upToDate u text p htext hp
    by_cases hread : .read q ∈ d.events
    · obtain ⟨d', -, hd', -⟩ := diagnosis_obstructed hcanonical hd hobstructs hsource hdir hscan
        (hkpath u text p htext hp) hread
      exact ⟨d', hd'⟩
    · have hreader : ∀ x, .read x ∈ d.events →
          (s.obstructed address q k).reader w.files x = s.reader w.files x := by
        intro x hx
        refine hobstructs.agree x ?_
        rintro rfl
        exact hread hx
      obtain ⟨d', hd', -⟩ := diagnosis_congr hcanonical hd hreader hedit.refusal_eq
      exact ⟨d', hd'⟩

/-- **A path that is read and not recorded makes an error stale.** A document is opened for the path
that does nothing but include an obstacle. The diagnosis that has read the path would now find the
obstacle, but it is not renewed. -/
theorem Consistent.exists_stale {d : Diagnosis} (hs : s.Consistent w settings)
    (hw : w.StartsAlike) (htext : s.documents.get? uri = some text) (hp : Uri.toPath uri = .ok p)
    (hd : s.diagnosis w p text = .ok d) (hfound : d.diagnostics ≠ [])
    (haddress : Uri.toPath address = .ok q) (hread : .read q ∈ d.events)
    (hunrecorded : q ∉ d.dependencies) :
    ∃ n, ¬ s.GivesUp w n ∧ ¬ (s.told w n).NoStaleError w := by
  have hcanonical := Uri.isCanonical_of_toPath hp
  have hne : uri ≠ address := by
    rintro rfl
    obtain rfl := Except.ok.inj (hp.symm.trans haddress)
    exact ne_of_read hcanonical hd hread rfl
  obtain ⟨source, directory, hsource, hdir, hscan⟩ :=
    exists_directive_of_unrecorded hcanonical hd hfound hread hunrecorded
  obtain ⟨k, hkbuffers, hkpath, hmessage⟩ :=
    s.exists_unused_obstacle (d.diagnostics.map Diagnostic.message)
  have hedit := editedAt_obstructed s address q k
  have hdiagnosable :=
    diagnosable_obstructed hs haddress hsource hdir hscan hkbuffers hkpath
  let a : Activity := .ofSession (s.obstructed address q k)
  let opened := Directive.lone (obstacleText k)
  match hres : a.refresh w address q opened with
  | (some f, a') =>
    have hnone := Activity.refresh_completes (a := a) hw (hedit.addressed haddress hs.addressed)
      (documents_obstructed s address q k) haddress hdiagnosable
    rw [hres] at hnone
    cases hnone
  | (none, a') =>
    obtain ⟨hgives, htold⟩ := told_opened haddress hres
    refine ⟨.opened address opened, hgives, fun hfresh => ?_⟩
    rw [htold] at hfresh
    -- the document keeps its text and its diagnostics
    obtain ⟨hpreserves, -⟩ :=
      Activity.refresh_spec (Activity.upToDate_upkept hw) (documents_obstructed s address q k)
        haddress hres
    have hview := hpreserves.eases.sameView hw
    obtain ⟨d₀, hd₀, hdiagnostics, hdeps⟩ := hs.upToDate uri text p htext hp
    obtain rfl := Except.ok.inj (hd.symm.trans hd₀)
    have hkept : a'.session.diagnosticsOf uri = d.diagnostics := by
      have hframe := hedit.diagnosticsOf_refresh (w := w) (a := a) opened hne
        fun dependencies hget => Option.some.inj (hdeps.symm.trans hget) ▸ hunrecorded
      rw [hres] at hframe
      rw [hframe, hdiagnostics]
    have htext' : a'.session.documents.get? uri = some text := by
      rw [hview.documents]
      exact (hedit.documents uri hne).trans htext
    -- a diagnosis would find the obstacle
    obtain ⟨p', d₁, hp', hd₁, hfound₁⟩ := hfresh uri text htext' (hkept ▸ hfound)
    obtain rfl := Except.ok.inj (hp.symm.trans hp')
    obtain ⟨d₂, span, hd₂, hfound₂⟩ := diagnosis_obstructed hcanonical hd
      (obstructs_obstructed hs haddress hkbuffers) hsource hdir hscan
      (hkpath uri text p htext hp) hread
    obtain ⟨d₃, hd₃, hfound₃, -⟩ := hview.diagnosis hcanonical hd₂
    obtain rfl := Except.ok.inj (hd₁.symm.trans hd₃)
    refine hmessage ?_
    rw [← hkept, ← hfound₁, hfound₃, hfound₂]
    exact List.mem_singleton_self _

/-- In a consistent session that is not covered some next notice leaves a stale error. -/
theorem Consistent.covered (hs : s.Consistent w settings) (hw : w.StartsAlike)
    (hfresh : ∀ n, ¬ s.GivesUp w n → (s.told w n).NoStaleError w) : s.Covered w := by
  intro uri text p d htext hp hd hfound address q haddress hread
  by_contra hunrecorded
  obtain ⟨n, hn, hstale⟩ :=
    hs.exists_stale hw htext hp hd hfound haddress hread hunrecorded
  exact hstale (hfresh n hn)

/-! ### Runs of notices -/

/-- A session is consistent after notices before each of which it was covered. -/
theorem Consistent.toldAll {e : Encoding} {notices : List Notice} (hs : s.Consistent w settings)
    (hw : w.StartsAlike) (hencoding : settings.sourceEncoding = .ok e)
    (hcompletes : s.Completes w notices)
    (hcovered : ∀ before, before <+: notices → (s.toldAll w before).Consistent w settings →
      (s.toldAll w before).Covered w) :
    (s.toldAll w notices).Consistent w settings := by
  induction notices using List.reverseRecOn with
  | nil => exact hs
  | append_singleton notices n ih =>
    obtain ⟨hcompletes, hn⟩ := completes_concat.mp hcompletes
    have hprefix : notices <+: notices ++ [n] := List.prefix_append _ _
    have hbefore := ih hcompletes fun before h => hcovered before (h.trans hprefix)
    rw [toldAll_concat]
    exact hbefore.told hw hencoding (hcovered notices hprefix hbefore) hn

/-- **Errors stay fresh exactly as long as the session is covered.** Along notices that all end
well, no next notice can leave a stale error if and only if every path that was read for an error
is recorded with it. -/
theorem noStaleError_iff_covered {e : Encoding} (hw : w.StartsAlike) (root : Option Path)
    (hencoding : settings.sourceEncoding = .ok e) (notices : List Notice)
    (hcompletes : (ofSettings root settings).Completes w notices) :
    (∀ before, before <+: notices → ∀ n,
      ¬ ((ofSettings root settings).toldAll w before).GivesUp w n →
        (((ofSettings root settings).toldAll w before).told w n).NoStaleError w) ↔
      ∀ before, before <+: notices →
        ((ofSettings root settings).toldAll w before).Covered w := by
  have hinitial := consistent_ofSettings w root settings
  have hcompletes' : ∀ {before}, before <+: notices →
      (ofSettings root settings).Completes w before :=
    fun hbefore before' n h => hcompletes before' n (h.trans hbefore)
  constructor
  · intro hfresh before hbefore
    have hs := hinitial.toldAll hw hencoding (hcompletes' hbefore) fun before' h hs' =>
      hs'.covered hw (hfresh before' (h.trans hbefore))
    exact hs.covered hw (hfresh before hbefore)
  · intro hcovered before hbefore n hn
    have hs := hinitial.toldAll hw hencoding (hcompletes' hbefore) fun before' h _ =>
      hcovered before' (h.trans hbefore)
    exact (hs.told hw hencoding (hcovered before hbefore) hn).noStaleError

/-! ### A deep failure -/

/-- Surroundings in which `b` includes `c`, and `c` includes a module that is not there. -/
def brokenChain : Surroundings where
  files := (FileTree.ofWorkingDirectory [])
    |>.add ["p".toList, "b".toList] (.file (Utf8.encode "& include 'c';".toList) 0 none)
    |>.add ["p".toList, "c".toList] (.file (Utf8.encode "& include 'd';".toList) 0 none)
  environment := {}
  run _ := .notStarted
  writer _ := .ok none

/-- A session that does not check its documents. -/
def unchecked : Session := .ofSettings none { validate := .bool false }

/-- An includer of `b` is opened. -/
def openIncluder : Notice := .opened "file:///p/a".toList "& include 'b';".toList

/-- A document for `c` is opened that includes nothing. -/
def openRepair : Notice := .opened "file:///p/c".toList "C".toList

private theorem stale_repaired :
    ¬ (unchecked.toldAll brokenChain [openIncluder, openRepair]).NoStaleError brokenChain := by
  intro hfresh
  have hshown : (unchecked.toldAll brokenChain [openIncluder, openRepair]).diagnosticsOf
      "file:///p/a".toList ≠ [] := by
    decide +kernel
  have hclean : ((Uri.toPath "file:///p/a".toList).bind fun p =>
      ((unchecked.toldAll brokenChain [openIncluder, openRepair]).diagnosis brokenChain p
        "& include 'b';".toList).map Diagnosis.diagnostics) = .ok [] := by
    decide +kernel
  obtain ⟨p, d, hp, hd, hfound⟩ :=
    hfresh "file:///p/a".toList "& include 'b';".toList (by decide +kernel) hshown
  rw [hp] at hclean
  have hnone := (congrArg (Except.map Diagnosis.diagnostics) hd).symm.trans hclean
  rw [← hfound] at hshown
  exact hshown (Except.ok.inj hnone)

private theorem completes_includer : unchecked.Completes brokenChain [openIncluder] :=
  completes_concat.mpr ⟨completes_nil _ _, not_givesUp_of_ok (by decide +kernel)⟩

private theorem not_givesUp_repair :
    ¬ (unchecked.toldAll brokenChain [openIncluder]).GivesUp brokenChain openRepair :=
  not_givesUp_of_ok (by decide +kernel)

/-- With the includer open the session is not covered: `c` was read and is not recorded. -/
theorem not_covered_brokenChain :
    ¬ ∀ before, before <+: [openIncluder] →
      (unchecked.toldAll brokenChain before).Covered brokenChain := by
  intro hcovered
  have hfresh := (noStaleError_iff_covered (fun _ _ _ => rfl) none rfl [openIncluder]
    completes_includer).mpr hcovered
  exact stale_repaired (hfresh [openIncluder] (List.prefix_refl _) openRepair not_givesUp_repair)

/-- A module two includes below an open document cannot be read. When the module above it is
repaired, the error of the document stays. -/
theorem staleError_of_deep_failure :
    unchecked.Completes brokenChain [openIncluder, openRepair] ∧
      ¬ (unchecked.toldAll brokenChain [openIncluder, openRepair]).NoStaleError brokenChain :=
  ⟨completes_concat.mpr ⟨completes_includer, not_givesUp_repair⟩, stale_repaired⟩

end Session

end Editor

end ShaderInclude
