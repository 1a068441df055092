import ShaderInclude.Proofs.Editor.MissedErrors
import ShaderInclude.Proofs.Editor.Shadowing
import ShaderInclude.Proofs.Editor.Work

/-!
# Diagnoses and loads of stored documents

A diagnosis loads the text of a document through the session, with open documents in place of files
and with a check that passes everything once its tool could not be started. The command line loads
the stored file through the settings alone. Where every open document has the text of its file, and
the tool starts, this makes no difference: the same is read and the same is refused
(`Session.Stored.reader_eq`, `Session.refusal?_eq`), and it does not matter whether the text of a
root is supplied or read (`Loads.of_supplied`).

So a diagnosis finds nothing exactly where the load succeeds, and otherwise the error for which it
fails (`Session.diagnosis_agrees`). A load that ends with a fault is an exception: it has no finding
to show, and the diagnosis ends with the same fault (`Session.not_agrees_of_endless_chain`).
-/

namespace ShaderInclude

/-! ### A supplied source in place of the stored one -/

section Supplied

variable {s' : CacheState} {r : Except LoadError Module} {l : Loader} {p directory : Path}
  {text : Text}

/-- A root whose source is supplied ends as it does if the same source is read. -/
private theorem Rooted.of_supplied (h : Rooted l p directory (some text) .initial r s')
    (hread : l.reader p = .ok text) :
    ∃ t', Rooted l p directory none .initial r t' ∧ t'.cache = s'.cache := by
  have hsource : RootSource l p .initial none text (CacheState.initial.note (.read p)) :=
    .read rfl hread
  cases h with
  | cached hsupplied => cases hsupplied
  | unread hsupplied => cases hsupplied
  | failed h hbody =>
    cases h
    obtain ⟨t', hbody', ht'⟩ := hbody.congr_cache (t := CacheState.initial.note (.read p)) rfl
    exact ⟨t', .failed hsource hbody', ht'⟩
  | resolved h hbody =>
    cases h
    obtain ⟨t', hbody', ht'⟩ := hbody.congr_cache (t := CacheState.initial.note (.read p)) rfl
    exact ⟨_, .resolved hsource hbody', congrArg (·.unaccept p) ht'⟩

/-- **A root whose source is supplied** is loaded with the outcome that it has if the same source is
read. -/
theorem Loads.of_supplied (h : Loads l p (some text) .initial r s')
    (hread : l.reader p = .ok text) : ∃ t', Loads l p none .initial r t' := by
  cases h with
  | noDirectory hdir => exact ⟨_, .noDirectory hdir⟩
  | unrooted hdir hroot =>
    obtain ⟨t', hroot', -⟩ := hroot.of_supplied hread
    exact ⟨_, .unrooted hdir hroot'⟩
  | refused hdir hroot hmark hrefusal =>
    obtain ⟨t', hroot', ht'⟩ := hroot.of_supplied hread
    exact ⟨_, .refused hdir hroot' (ht' ▸ hmark) hrefusal⟩
  | marked hdir hroot hmark =>
    obtain ⟨t', hroot', ht'⟩ := hroot.of_supplied hread
    exact ⟨_, .marked hdir hroot' (ht' ▸ hmark)⟩
  | passed hdir hroot hmark hrefusal =>
    obtain ⟨t', hroot', ht'⟩ := hroot.of_supplied hread
    exact ⟨_, .passed hdir hroot' (ht' ▸ hmark) hrefusal⟩

end Supplied

namespace Editor

namespace Session

variable {w : Surroundings} {s : Session} {uri : Address} {p : Path} {text : Text} {n : Notice}

/-- **The documents are stored**: every open document has a path, and its text is what the file at
this path holds. -/
def Stored (s : Session) (w : Surroundings) : Prop :=
  ∀ uri text, s.documents.get? uri = some text → ∃ p, Uri.toPath uri = .ok p ∧
    w.files.readSource s.settings.sourceEncoding p = .ok text

/-- The session reads what is stored. -/
theorem Stored.reader_eq (hs : s.Stored w) (hnamed : s.Named) :
    s.reader w.files = w.files.readSource s.settings.sourceEncoding := by
  funext q
  unfold reader
  split
  case h_1 text htext =>
    obtain ⟨u, hu, hdocument⟩ := Option.bind_eq_some_iff.mp htext
    obtain ⟨p, hp, hread⟩ := hs u text hdocument
    obtain rfl := Except.ok.inj ((hnamed q u hu).symm.trans hp)
    exact hread.symm
  case h_2 => rfl

/-- The session checks its documents if the settings ask for it. -/
def ChecksAsAsked (s : Session) : Prop := s.checking = s.settings.validate.isTrue

/-- If the settings ask for the check, the tool can be started. -/
def ToolStarts (s : Session) (w : Surroundings) : Prop :=
  s.settings.validate.isTrue = true → ∀ code, w.run code ≠ .notStarted

/-- What the session refuses is what the settings refuse. -/
theorem refusal?_eq (hchecks : s.ChecksAsAsked) (hstarts : s.ToolStarts w) (code : Text) :
    (s.loader w).refusal? code = (s.settings.loader w.files w.run).refusal? code := by
  unfold Loader.refusal? loader Settings.loader validator? Settings.validator?
  rw [hchecks]
  split
  case isFalse => rfl
  case isTrue hvalidate =>
    simp only [Option.bind_some, Validator.waiving, Tool.validator]
    obtain haccepted | ⟨message, report, hrejected⟩ :=
      (Tool.ofSettings s.settings).verdict_of_started (hstarts hvalidate code)
    · rw [haccepted]
    · rw [hrejected]

/-! ### Diagnoses in place of loads -/

/-- The outcome of loading a stored path as the settings ask for, with an empty cache. -/
def outcomeStored (s : Session) (w : Surroundings) (p : Path) : Except LoadError Module :=
  ((s.settings.loader w.files w.run).loadFromPath p .initial).1

/-- **A diagnosis of a stored document** is read off the load of its file. -/
theorem Stored.exists_diagnosis_eq (hs : s.Stored w) (hnamed : s.Named)
    (hchecks : s.ChecksAsAsked) (hstarts : s.ToolStarts w)
    (htext : s.documents.get? uri = some text) (hpath : Uri.toPath uri = .ok p) :
    ∃ state, s.diagnosis w p text = Diagnosis.ofOutcome p text (s.outcomeStored w p) state := by
  have hp := Uri.isCanonical_of_toPath hpath
  obtain ⟨p', hpath', hread⟩ := hs uri text htext
  obtain rfl := Except.ok.inj (hpath.symm.trans hpath')
  obtain ⟨r, state, hloads, hdiagnosis⟩ := s.exists_loads w hp text
  have hreader : (s.settings.loader w.files w.run).reader = (s.loader w).reader :=
    (hs.reader_eq hnamed).symm
  have hlimit : (s.settings.loader w.files w.run).limit = (s.loader w).limit := rfl
  obtain ⟨state', hloads', -⟩ := hloads.congr hlimit (fun q _ => congrFun hreader q)
    fun code => (refusal?_eq hchecks hstarts code).symm
  obtain ⟨state'', hstored⟩ := hloads'.of_supplied hread
  have houtcome : s.outcomeStored w p = r := by
    rw [outcomeStored, Loader.loadFromPath, hp, hstored.loadCanonical_eq]
  exact ⟨state, houtcome ▸ hdiagnosis⟩

/-! ### Along the requests of an editor -/

/-- The session after requests in a row, each with the surroundings in which it is served. -/
def servedIn (s : Session) (requests : List (Surroundings × Request)) : Session :=
  requests.foldl (fun s e => (s.serve e.1 e.2).2) s

@[simp]
theorem servedIn_concat (s : Session) (requests : List (Surroundings × Request))
    (e : Surroundings × Request) :
    s.servedIn (requests ++ [e]) = ((s.servedIn requests).serve e.1 e.2).2 := by
  simp [servedIn]

/-- A notice leaves the settings alone, and the session checks as before unless the tool could not
be started. -/
theorem told_checking (w : Surroundings) (s : Session) (n : Notice) :
    (s.told w n).settings = s.settings ∧ ((s.told w n).checking = s.checking ∨
      (s.told w n).checking = false ∧ ∃ code, w.run code = .notStarted) := by
  have hedited : ∀ {a a' : Activity} {uri p}, s.EditedAt a.session uri p →
      Activity.Renews w a a' → a'.session.settings = s.settings ∧
        (a'.session.checking = s.checking ∨
          a'.session.checking = false ∧ ∃ code, w.run code = .notStarted) := by
    intro a a' uri p hedit hrenews
    rw [← hedit.settings, ← hedit.checking]
    exact ⟨hrenews.eases.settings, hrenews.eases.checking⟩
  obtain ⟨result, heffect, htold, -⟩ := s.exists_effect w n
  rw [htold]
  cases heffect with
  | nothing => exact ⟨rfl, .inl rfl⟩
  | astray _ hsession =>
    rw [hsession]
    exact ⟨rfl, .inl rfl⟩
  | refreshed hpath hedit htext =>
    exact hedited hedit (Activity.renews_refresh w htext hpath).1
  | dropped _ hedit => exact hedited hedit (Activity.renews_refreshDependents w _ _)

/-- A notice that is told while the tool can be started leaves the session checking as asked. -/
theorem ChecksAsAsked.told (hs : s.ChecksAsAsked) (hstarts : s.ToolStarts w) (n : Notice) :
    (s.told w n).ChecksAsAsked := by
  obtain ⟨hsettings, hchecking⟩ := told_checking w s n
  unfold ChecksAsAsked at hs ⊢
  rw [hsettings]
  obtain hsame | ⟨hstopped, code, hcode⟩ := hchecking
  · exact hsame.trans hs
  · cases hvalidate : s.settings.validate.isTrue with
    | false => exact hstopped
    | true => exact absurd hcode (hstarts hvalidate code)

/-- What every session keeps while the tool can be started. -/
structure Faithful (s : Session) : Prop where
  tracked : s.Tracked
  checks : s.ChecksAsAsked

theorem faithful_ofSettings (root : Option Path) (settings : Settings) :
    (ofSettings root settings).Faithful :=
  ⟨⟨nofun, nofun⟩, rfl⟩

/-- The beginning of the session changes its root and its settings at most, and from then on it
checks as these ask for. -/
private theorem Faithful.started (hs : s.Faithful) (w : Surroundings) (root : Option Address) :
    (s.serve w (.started root)).2.Faithful := by
  have hroot : ∀ p, ({ s with root := some p } : Session).Faithful := fun p =>
    ⟨⟨hs.tracked.named, hs.tracked.isOpen⟩, hs.checks⟩
  show ((Activity.started w root (.ofSession s)).2.session).Faithful
  unfold Activity.started
  split
  case h_1 =>
    split
    case h_1 => exact hs
    case h_2 p _ =>
      simp only
      split
      case h_1 => exact hroot p
      case h_2 => exact ⟨⟨hs.tracked.named, hs.tracked.isOpen⟩, rfl⟩
  case h_2 => exact hs

/-- A request that is served while the tool can be started leaves the session faithful. -/
theorem Faithful.serve (hs : s.Faithful) (hstarts : s.ToolStarts w) (request : Request) :
    (s.serve w request).2.Faithful := by
  have htold : ∀ n, (s.told w n).Faithful := fun n =>
    ⟨(tablesAfter_told w s n).tracked hs.tracked, hs.checks.told hstarts n⟩
  cases request with
  | started root => exact hs.started w root
  | opened uri text => exact htold (.opened uri text)
  | changed uri texts => exact htold (.changed uri texts)
  | saved uri => exact htold (.saved uri)
  | closed uri => exact htold (.closed uri)
  | links uri => exact hs
  | definition uri position =>
    unfold Session.serve
    simp only
    split <;> exact hs

/-- **Diagnoses agree with loads.** Let requests be served from a fresh session, in surroundings in
which the tool can be started whenever the settings ask for the check. If the encoding is known
then, and every open document has the text of its file, a diagnosis of an open document finds
* nothing exactly where its file is loaded with success, and
* the error for which the load fails, if it fails with a finding.

If the load ends with a fault, so does the diagnosis, and the modules are nested too deeply. -/
theorem diagnosis_agrees {e : Encoding} (root : Option Path) (settings : Settings)
    (requests : List (Surroundings × Request)) (w : Surroundings) (s : Session)
    (hsession : s = (ofSettings root settings).servedIn requests)
    (hserved : ∀ before w' request, before ++ [(w', request)] <+: requests →
      ((ofSettings root settings).servedIn before).ToolStarts w')
    (hstarts : s.ToolStarts w) (hencoding : s.settings.sourceEncoding = .ok e)
    (hstored : s.Stored w) (htext : s.documents.get? uri = some text)
    (hpath : Uri.toPath uri = .ok p) :
    ((∃ d, s.diagnosis w p text = .ok d ∧ d.diagnostics = []) ↔
        ∃ m, s.outcomeStored w p = .ok m) ∧
      (∀ error, s.outcomeStored w p = .error (.finding error) →
        ∃ d span, s.diagnosis w p text = .ok d ∧ d.diagnostics = [⟨span, error.message⟩]) ∧
      ∀ f, s.outcomeStored w p = .error (.fault f) →
        f = .nestingTooDeep ∧ s.diagnosis w p text = .error f := by
  have hfaithful : s.Faithful := by
    subst hsession
    clear hstarts hencoding hstored htext
    induction requests using List.reverseRecOn with
    | nil => exact faithful_ofSettings root settings
    | append_singleton requests request ih =>
      rw [servedIn_concat]
      refine (ih fun before w' r h => hserved before w' r (h.trans (List.prefix_append _ _))).serve
        (hserved requests request.1 request.2 List.prefix_rfl) request.2
  obtain ⟨state, hdiagnosis⟩ :=
    hstored.exists_diagnosis_eq hfaithful.tracked.named hfaithful.checks hstarts htext hpath
  have hp := Uri.isCanonical_of_toPath hpath
  match houtcome : s.outcomeStored w p with
  | .ok m =>
    rw [houtcome] at hdiagnosis
    exact ⟨⟨fun _ => ⟨m, rfl⟩, fun _ => ⟨_, hdiagnosis, rfl⟩⟩, nofun, nofun⟩
  | .error (.finding error) =>
    rw [houtcome] at hdiagnosis
    refine ⟨⟨fun ⟨d, hd, hclean⟩ => ?_, nofun⟩, fun error' herror => ?_, nofun⟩
    · cases hdiagnosis.symm.trans hd
      cases hclean
    · cases herror
      exact ⟨_, _, hdiagnosis, rfl⟩
  | .error (.fault f) =>
    rw [houtcome] at hdiagnosis
    refine ⟨⟨fun ⟨d, hd, _⟩ => ?_, nofun⟩, nofun, fun f' hf => ?_⟩
    · cases hdiagnosis.symm.trans hd
    · cases hf
      exact ⟨fault_eq hencoding hp hdiagnosis, hdiagnosis⟩

/-- Surroundings in which `a` includes `b`, and the tool refuses everything. -/
def strictTool : Surroundings where
  files := (FileTree.ofWorkingDirectory [])
    |>.add ["p".toList, "a".toList] (.file (Utf8.encode "& include 'b';".toList) 0 none)
    |>.add ["p".toList, "b".toList] (.file (Utf8.encode "B".toList) 0 none)
  environment := {}
  run _ := .exited 1 "bad".toList []
  writer _ := .ok none

/-- What the tool reports of the file of an open document is what a diagnosis shows. -/
theorem diagnosis_agrees_refused :
    let a := "file:///p/a".toList
    let text := "& include 'b';".toList
    let p := Path.parse "/p/a".toList
    let s := (ofSettings none {}).servedIn [(strictTool, .opened a text)]
    s.outcomeStored strictTool p = .error (.finding (.rejected "bad".toList)) ∧
      ∃ d span, s.diagnosis strictTool p text = .ok d ∧ d.diagnostics = [⟨span, "bad".toList⟩] := by
  intro a text p s
  have houtcome : s.outcomeStored strictTool p = .error (.finding (.rejected "bad".toList)) := by
    decide +kernel
  have hopen : s.documents.entries = [(a, text)] := by decide +kernel
  have hpath : Uri.toPath a = .ok p := by decide +kernel
  have hstored : s.Stored strictTool := by
    intro uri text' huri
    rw [← OrderedMap.mem_entries_iff, hopen, List.mem_singleton] at huri
    obtain ⟨rfl, rfl⟩ := Prod.mk.inj huri
    exact ⟨p, hpath, by decide +kernel⟩
  have hserved : ∀ before w request, before ++ [(w, request)] <+: [(strictTool, .opened a text)] →
      ((ofSettings none {}).servedIn before).ToolStarts w := by
    intro before w request hprefix
    obtain rfl : w = strictTool := by
      have hmem := hprefix.subset (List.mem_append_right _ List.mem_cons_self)
      exact (Prod.mk.inj (List.mem_singleton.mp hmem)).1
    exact fun _ _ => nofun
  refine ⟨houtcome, ?_⟩
  exact (diagnosis_agrees none {} [(strictTool, .opened a text)] strictTool s rfl hserved
    (fun _ _ => nofun) (e := .utf8) (by decide +kernel) hstored (by decide +kernel) hpath).2.1 _
    houtcome

/-! ### A document that leads to an endless chain -/

/-- The document for the file that includes itself. -/
def loopAddress : Address := "untitled:../loop".toList

/-- The session in which this document is open. -/
def withLoop : Session :=
  ((ofSettings none { validate := .bool false }).setDocument loopAddress loopSource).setBuffer
    (climb 1) loopAddress

theorem toPath_loopAddress : Uri.toPath loopAddress = .ok (climb 1) := by
  decide +kernel

theorem encoding_withLoop : withLoop.settings.sourceEncoding = .ok .utf8 := by
  decide +kernel

/-- Of this document there is no diagnosis. -/
theorem diagnosis_withLoop :
    withLoop.diagnosis loopingFile (climb 1) loopSource = .error .nestingTooDeep := by
  have hchain : EndlessChain (withLoop.reader loopTree) fun k => climb (k + 2) := by
    refine ⟨fun i j h => ?_, fun k => ?_⟩
    · have hij := climb_injective h
      omega
    · have hbuffer : withLoop.buffers.get? (climb (k + 2)) = none := by
        refine OrderedMap.get?_set_of_ne _ _ fun h => ?_
        have hk := climb_injective h
        omega
      have htext : withLoop.text? (climb (k + 2)) = none := by
        rw [text?, hbuffer]
        rfl
      have hread : withLoop.reader loopTree (climb (k + 2)) = .ok loopSource := by
        simp only [reader, htext, encoding_withLoop, FileTree.readSource_climb]
      exact ⟨loopSource, _, _, hread, directory?_climb (k + 2), scan_loopSource,
        target_climb (k + 2)⟩
  refine diagnosis_of_endlessChain hchain 0 (Uri.isCanonical_of_toPath toPath_loopAddress)
    (directory?_climb 1) scan_loopSource (target_climb 1) fun i _ h => ?_
  have hi := climb_injective h
  omega

/-- When the document is opened, nothing is published. -/
theorem serve_openLoop :
    (ofSettings none { validate := .bool false }).serve loopingFile
        (.opened loopAddress loopSource) = (⟨.error .nestingTooDeep, [], [], []⟩, withLoop) :=
  serve_opened_of_fault toPath_loopAddress diagnosis_withLoop

private theorem stored_withLoop : withLoop.Stored loopingFile := by
  intro uri text h
  have hentries : withLoop.documents.entries = [(loopAddress, loopSource)] := rfl
  rw [← OrderedMap.mem_entries_iff, hentries, List.mem_singleton] at h
  obtain ⟨rfl, rfl⟩ := Prod.mk.inj h
  refine ⟨climb 1, toPath_loopAddress, ?_⟩
  rw [encoding_withLoop]
  exact FileTree.readSource_climb 0

/-- **A diagnosis without an answer**: the only open document has the text of its file, which
includes itself from above the root. Its load ends with a fault, and the diagnosis ends with the
same fault instead of showing it. -/
theorem not_agrees_of_endless_chain :
    (ofSettings none { validate := .bool false }).servedIn
        [(loopingFile, .opened loopAddress loopSource)] = withLoop ∧
      withLoop.settings.sourceEncoding = .ok .utf8 ∧ withLoop.settings.validate.isTrue = false ∧
      withLoop.Stored loopingFile ∧ withLoop.documents.get? loopAddress = some loopSource ∧
      Uri.toPath loopAddress = .ok (climb 1) ∧
      withLoop.outcomeStored loopingFile (climb 1) = .error (.fault .nestingTooDeep) ∧
      ∀ d, withLoop.diagnosis loopingFile (climb 1) loopSource ≠ .ok d := by
  have hsession : (ofSettings none { validate := .bool false }).servedIn
      [(loopingFile, .opened loopAddress loopSource)] = withLoop := by
    rw [servedIn, List.foldl_cons, List.foldl_nil, serve_openLoop]
  have hopen : withLoop.documents.get? loopAddress = some loopSource := by decide +kernel
  have hvalidate : withLoop.settings.validate.isTrue = false := by decide +kernel
  have hnamed : withLoop.Named := (editedAt_open _ _ _ _).named toPath_loopAddress nofun
  have houtcome : withLoop.outcomeStored loopingFile (climb 1) =
      .error (.fault .nestingTooDeep) := by
    obtain ⟨state, hdiagnosis⟩ := stored_withLoop.exists_diagnosis_eq hnamed hvalidate.symm
      (fun h => nomatch hvalidate.symm.trans h) hopen toPath_loopAddress
    exact Diagnosis.ofOutcome_eq_error_iff.mp (hdiagnosis.symm.trans diagnosis_withLoop)
  refine ⟨hsession, encoding_withLoop, hvalidate, stored_withLoop, hopen, toPath_loopAddress,
    houtcome, fun d hd => ?_⟩
  exact nomatch diagnosis_withLoop.symm.trans hd

end Session

end Editor

end ShaderInclude
