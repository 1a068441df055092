import ShaderInclude.Editor.Request
import ShaderInclude.Proofs.Editor.Refresh

/-!
# Notices of an editor

A notice tells that a document was opened, changed, saved or closed. `Effect` says by one
constructor for each case what a session does with it: nothing, or a change of the documents at
one address and of the text at its path, followed by a refresh. `Session.exists_effect` derives
this from `Session.serve`.

`Renewal` says what the session is after a notice that ended well, as far as a property is concerned
that diagnoses keep up, and `Renewal.holds` when the property lasts.
-/

namespace ShaderInclude

namespace Editor

/-- What an editor tells of its documents. -/
inductive Notice where
  | opened (uri : Address) (text : Text)
  /-- A document got one text after the other. -/
  | changed (uri : Address) (texts : List Text)
  | saved (uri : Address)
  | closed (uri : Address)

/-- The notice as a request. -/
def Notice.request : Notice → Request
  | opened uri text => .opened uri text
  | changed uri texts => .changed uri texts
  | saved uri => .saved uri
  | closed uri => .closed uri

namespace Session

/-- The session after a notice. -/
def told (w : Surroundings) (s : Session) (n : Notice) : Session := (s.serve w n.request).2

/-- The session after notices in a row. -/
def toldAll (w : Surroundings) (s : Session) (notices : List Notice) : Session :=
  notices.foldl (told w) s

@[simp]
theorem toldAll_nil (w : Surroundings) (s : Session) : s.toldAll w [] = s := rfl

@[simp]
theorem toldAll_concat (w : Surroundings) (s : Session) (notices : List Notice) (n : Notice) :
    s.toldAll w (notices ++ [n]) = (s.toldAll w notices).told w n := by
  simp [toldAll]

/-- A notice ends with a fault, because some modules are nested too deeply to be resolved. -/
def GivesUp (w : Surroundings) (s : Session) (n : Notice) : Prop :=
  (s.serve w n.request).1.reply = .error .nestingTooDeep

theorem not_givesUp_of_ok {w : Surroundings} {s : Session} {n : Notice}
    (h : (s.serve w n.request).1.reply.toBool = true) : ¬ s.GivesUp w n := by
  intro hgives
  rw [hgives] at h
  cases h

/-- None of the notices, told one after the other, ends with a fault. -/
def Completes (w : Surroundings) (s : Session) (notices : List Notice) : Prop :=
  ∀ before n, before ++ [n] <+: notices → ¬ (s.toldAll w before).GivesUp w n

theorem completes_nil (w : Surroundings) (s : Session) : s.Completes w [] := by
  intro before n h
  have hlength := h.length_le
  simp at hlength

theorem completes_concat {w : Surroundings} {s : Session} {notices : List Notice} {n : Notice} :
    s.Completes w (notices ++ [n]) ↔
      s.Completes w notices ∧ ¬ (s.toldAll w notices).GivesUp w n := by
  constructor
  · intro h
    exact ⟨fun before m hm => h before m (hm.trans (List.prefix_append _ _)),
      h notices n (List.prefix_refl _)⟩
  · rintro ⟨hbefore, hlast⟩ before m hm
    obtain heq | hm := List.prefix_concat_iff.mp hm
    · obtain ⟨rfl, hlist⟩ := List.append_inj' heq rfl
      obtain rfl := List.singleton_inj.mp hlist
      exact hlast
    · exact hbefore before m hm

/-- The second session differs from the first one in the document at an address and in the text at
a path. -/
structure EditedAt (s s' : Session) (uri : Address) (p : Path) : Prop where
  documents : ∀ u, u ≠ uri → s'.documents.get? u = s.documents.get? u
  buffers : ∀ q, q ≠ p → s'.buffers.get? q = s.buffers.get? q
  buffer : ∀ u, s'.buffers.get? p = some u → u = uri ∨ s.buffers.get? p = some u
  settings : s'.settings = s.settings
  checking : s'.checking = s.checking
  diagnostics : ∀ u, u ≠ uri → s'.diagnostics.get? u = s.diagnostics.get? u
  dependencies : ∀ u, u ≠ uri → s'.dependencies.get? u = s.dependencies.get? u

end Session

variable {w : Surroundings} {s s' : Session} {uri u : Address} {p q : Path} {text : Text}
  {a a' : Activity}

/-- **What a session does with a notice.** -/
inductive Effect (w : Surroundings) (s : Session) : Work → Prop
  | nothing : Effect w s (none, .ofSession s)
  | astray {uri : Address} {f : Fault} {a : Activity} {documents : OrderedMap Address Text}
      (hpath : Uri.toPath uri = .error f) (hsession : a.session = { s with documents })
      (hdocuments : ∀ u, u ≠ uri → documents.get? u = s.documents.get? u) :
    Effect w s (some f, a)
  | refreshed {uri : Address} {p : Path} {text : Text} {a : Activity}
      (hpath : Uri.toPath uri = .ok p) (hedit : s.EditedAt a.session uri p)
      (htext : a.session.documents.get? uri = some text) :
    Effect w s (a.refresh w uri p text)
  | dropped {uri : Address} {p : Path} {a : Activity} (hpath : Uri.toPath uri = .ok p)
      (hedit : s.EditedAt a.session uri p) (htext : a.session.documents.get? uri = none) :
    Effect w s (a.refreshDependents w p)

namespace Session

theorem EditedAt.refl (s : Session) (uri : Address) (p : Path) : s.EditedAt s uri p :=
  ⟨fun _ _ => rfl, fun _ _ => rfl, fun _ h => .inr h, rfl, rfl, fun _ _ => rfl, fun _ _ => rfl⟩

/-- A document that is opened stands for its path. -/
theorem editedAt_open (s : Session) (uri : Address) (text : Text) (p : Path) :
    s.EditedAt ((s.setDocument uri text).setBuffer p uri) uri p := by
  refine ⟨fun u hu => ?_, fun q hq => ?_, fun u hu => ?_, rfl, rfl, fun _ _ => rfl, fun _ _ => rfl⟩
  · simp [setDocument, setBuffer, OrderedMap.get?_set, Ne.symm hu]
  · simp [setDocument, setBuffer, OrderedMap.get?_set, Ne.symm hq]
  · simp only [setDocument, setBuffer, OrderedMap.get?_set, if_true, Option.some.injEq] at hu
    exact .inl hu.symm

/-- A document that is changed stands for its path unless another one does. -/
theorem editedAt_change (s : Session) (uri : Address) (text : Text) (p : Path) :
    s.EditedAt ((s.setDocument uri text).addBuffer p uri) uri p := by
  unfold addBuffer
  split
  · refine ⟨fun u hu => ?_, fun _ _ => rfl, fun _ h => .inr h, rfl, rfl, fun _ _ => rfl,
      fun _ _ => rfl⟩
    simp [setDocument, OrderedMap.get?_set, Ne.symm hu]
  · exact editedAt_open s uri text p

/-- For a path whose document is closed none stands any more. -/
theorem editedAt_close (s : Session) (uri : Address) (p : Path) :
    s.EditedAt (((s.removeDocument uri).removeBuffer p).forget uri) uri p := by
  refine ⟨fun u hu => ?_, fun q hq => ?_, fun u hu => ?_, rfl, rfl, fun u hu => ?_, fun u hu => ?_⟩
  · simp [removeDocument, removeBuffer, forget, OrderedMap.get?_erase, Ne.symm hu]
  · simp [removeDocument, removeBuffer, forget, OrderedMap.get?_erase, Ne.symm hq]
  · simp [removeDocument, removeBuffer, forget, OrderedMap.get?_erase] at hu
  · simp [removeDocument, removeBuffer, forget, OrderedMap.get?_set, Ne.symm hu]
  · simp [removeDocument, removeBuffer, forget, OrderedMap.get?_erase, Ne.symm hu]

end Session

/-- A document is opened, and the refresh ends well. -/
theorem Session.told_opened (hpath : Uri.toPath uri = .ok p)
    (hres : (Activity.ofSession ((s.setDocument uri text).setBuffer p uri)).refresh w uri p text =
      (none, a')) :
    ¬ s.GivesUp w (.opened uri text) ∧ s.told w (.opened uri text) = a'.session := by
  have hwork : Activity.opened w uri text (.ofSession s) = (none, a') := by
    unfold Activity.opened
    rw [hpath, ← hres]
    rfl
  unfold GivesUp told
  simp [Notice.request, serve, perform, hwork, Work.response]

/-- A document is opened, and its diagnosis ends in a fault: nothing else is done, and nothing is
published. -/
theorem Session.serve_opened_of_fault {f : Fault} (hpath : Uri.toPath uri = .ok p)
    (hd : ((s.setDocument uri text).setBuffer p uri).diagnosis w p text = .error f) :
    s.serve w (.opened uri text) =
      (⟨.error f, [], [], []⟩, (s.setDocument uri text).setBuffer p uri) := by
  simp [serve, perform, Activity.opened, hpath, Activity.refresh, Activity.diagnose, Activity.edit,
    Activity.ofSession, hd, Work.response]

theorem Session.told_opened_of_fault {f : Fault} (hpath : Uri.toPath uri = .ok p)
    (hd : ((s.setDocument uri text).setBuffer p uri).diagnosis w p text = .error f) :
    s.told w (.opened uri text) = (s.setDocument uri text).setBuffer p uri :=
  congrArg Prod.snd (serve_opened_of_fault hpath hd)

/-- Work on a session has the effect of a notice. -/
private theorem Effect.perform {work : Activity → Work} (h : Effect w s (work (.ofSession s))) :
    ∃ result, Effect w s result ∧ (s.perform work).2 = result.2.session ∧
      ((s.perform work).1.reply = .error .nestingTooDeep ↔ result.1 = some .nestingTooDeep) := by
  refine ⟨_, h, rfl, ?_⟩
  unfold Session.perform
  match work (.ofSession s) with
  | (none, _) => simp [Work.response]
  | (some f, _) => simp [Work.response]

/-- Every notice has an effect. -/
theorem Session.exists_effect (w : Surroundings) (s : Session) (n : Notice) :
    ∃ result, Effect w s result ∧ s.told w n = result.2.session ∧
      (s.GivesUp w n ↔ result.1 = some .nestingTooDeep) := by
  cases n with
  | opened uri text =>
    refine Effect.perform ?_
    unfold Activity.opened
    split
    case h_1 f hpath => exact .astray hpath rfl fun _ hu => OrderedMap.get?_set_of_ne _ _ hu
    case h_2 p hpath =>
      exact .refreshed hpath (editedAt_open s uri text p) (OrderedMap.get?_set_self _ _ _)
  | changed uri texts =>
    unfold told GivesUp
    simp only [Notice.request, serve]
    split
    case h_1 => exact ⟨_, .nothing, rfl, by simp [Response.quiet]⟩
    case h_2 text _ =>
      refine Effect.perform ?_
      unfold Activity.changed
      split
      case h_1 f hpath => exact .astray hpath rfl fun _ hu => OrderedMap.get?_set_of_ne _ _ hu
      case h_2 p hpath =>
        refine .refreshed hpath (editedAt_change s uri text p) ?_
        have htext : ((s.setDocument uri text).addBuffer p uri).documents.get? uri = some text := by
          unfold addBuffer
          split <;> simp [setDocument, setBuffer]
        exact htext
  | saved uri =>
    refine Effect.perform ?_
    unfold Activity.saved
    split
    case h_1 => exact .nothing
    case h_2 text htext =>
      split
      case h_1 f hpath => exact .astray hpath rfl fun _ _ => rfl
      case h_2 p hpath => exact .refreshed hpath (.refl s uri p) htext
  | closed uri =>
    refine Effect.perform ?_
    unfold Activity.closed
    split
    case isTrue =>
      simp only
      split
      case h_1 f hpath =>
        exact .astray hpath rfl fun _ hu => OrderedMap.get?_erase_of_ne _ hu
      case h_2 p hpath =>
        exact .dropped hpath (editedAt_close s uri p) (OrderedMap.get?_erase_self _ _)
    case isFalse => exact .nothing

/-! ### What an edit leaves alone -/

namespace Session

/-- The document that stands for a path has it. -/
def Named (s : Session) : Prop :=
  ∀ p uri, s.buffers.get? p = some uri → Uri.toPath uri = .ok p

/-- Away from the edited path all texts are as they were. -/
theorem EditedAt.reader_eq (hedit : s.EditedAt s' uri p) (hpath : Uri.toPath uri = .ok p)
    (hnamed : s.Named) (files : FileTree) (hq : q ≠ p) :
    s'.reader files q = s.reader files q := by
  have htext : s'.text? q = s.text? q := by
    unfold text?
    rw [hedit.buffers q hq]
    cases hbuffer : s.buffers.get? q with
    | none => rfl
    | some u =>
      have hu : u ≠ uri := by
        rintro rfl
        exact hq (Except.ok.inj ((hnamed q u hbuffer).symm.trans hpath))
      exact hedit.documents u hu
  unfold reader
  rw [htext, hedit.settings]

/-- A document without a path is nothing that is read. -/
theorem reader_astray {f : Fault} {documents : OrderedMap Address Text} (hnamed : s.Named)
    (hpath : Uri.toPath uri = .error f)
    (hdocuments : ∀ u, u ≠ uri → documents.get? u = s.documents.get? u) (files : FileTree) :
    ({ s with documents } : Session).reader files = s.reader files := by
  funext q
  unfold reader text?
  cases hbuffer : s.buffers.get? q with
  | none => rfl
  | some u =>
    have hu : u ≠ uri := by
      rintro rfl
      exact nomatch (hnamed q u hbuffer).symm.trans hpath
    simp only [Option.bind_some, hdocuments u hu]

theorem EditedAt.refusal_eq (hedit : s.EditedAt s' uri p) (code : Text) :
    (s'.loader w).refusal? code = (s.loader w).refusal? code :=
  refusal?_congr hedit.checking hedit.settings code

theorem EditedAt.diagnosticsOf_eq (hedit : s.EditedAt s' uri p) (hu : u ≠ uri) :
    s'.diagnosticsOf u = s.diagnosticsOf u :=
  congrArg (·.getD []) (hedit.diagnostics u hu)

theorem EditedAt.named (hedit : s.EditedAt s' uri p) (hpath : Uri.toPath uri = .ok p)
    (hnamed : s.Named) : s'.Named := by
  intro q u hu
  by_cases hq : q = p
  · subst hq
    obtain rfl | hu := hedit.buffer u hu
    · exact hpath
    · exact hnamed q u hu
  · exact hnamed q u (hedit.buffers q hq ▸ hu)

theorem EditedAt.addressed (hedit : s.EditedAt s' uri p) (hpath : Uri.toPath uri = .ok p)
    (haddressed : Activity.Addressed s.dependencies.entries) :
    Activity.Addressed s'.dependencies.entries := by
  rintro ⟨u, dependencies⟩ hu
  by_cases hne : u = uri
  · exact ⟨p, hne ▸ hpath⟩
  · have hget := OrderedMap.mem_entries_iff.mp hu
    rw [hedit.dependencies u hne] at hget
    exact haddressed (u, dependencies) (OrderedMap.mem_entries_iff.mpr hget)

/-- After an edit a refresh leaves the diagnostics of other documents alone that do not depend on
the edited path. -/
theorem EditedAt.diagnosticsOf_refresh (hedit : s.EditedAt a.session uri p) (text : Text)
    (hu : u ≠ uri)
    (hunnamed : ∀ dependencies, s.dependencies.get? u = some dependencies → p ∉ dependencies) :
    (a.refresh w uri p text).2.session.diagnosticsOf u = s.diagnosticsOf u := by
  rw [← hedit.dependencies u hu] at hunnamed
  rw [Activity.refresh_frame hu.symm hunnamed, hedit.diagnosticsOf_eq hu]

end Session

/-! ### Notices that end well -/

variable {Holds : Session → Address → Prop}

/-- **What a session is after a notice that ended well**: as it was; with another text where no path
leads; or edited and refreshed, so that the property holds of the edited document and of all that
depend on its path. -/
inductive Renewal (w : Surroundings) (Holds : Session → Address → Prop) (s : Session) :
    Session → Prop
  | nothing : Renewal w Holds s s
  | astray {uri : Address} {f : Fault} {documents : OrderedMap Address Text}
      (hpath : Uri.toPath uri = .error f)
      (hdocuments : ∀ u, u ≠ uri → documents.get? u = s.documents.get? u) :
    Renewal w Holds s { s with documents }
  | refreshed {uri : Address} {p : Path} {a a' : Activity} (hpath : Uri.toPath uri = .ok p)
      (hedit : s.EditedAt a.session uri p) (hpreserves : Activity.Preserves w Holds a a')
      (hself : Holds a'.session uri)
      (hdependents : ∀ u dependencies, a.session.dependencies.get? u = some dependencies →
        p ∈ dependencies → Holds a'.session u) :
    Renewal w Holds s a'.session

/-- A notice either ends well or gives up. -/
theorem Session.renewal_told {e : Encoding} {n : Notice} (hkept : Activity.Upkept w Holds)
    (hencoding : s.settings.sourceEncoding = .ok e)
    (haddressed : Activity.Addressed s.dependencies.entries) (hn : ¬ s.GivesUp w n) :
    Renewal w Holds s (s.told w n) := by
  obtain ⟨result, heffect, htold, hgives⟩ := s.exists_effect w n
  rw [hgives] at hn
  rw [htold]
  cases heffect with
  | nothing => exact .nothing
  | astray hpath hsession hdocuments =>
    rw [hsession]
    exact .astray hpath hdocuments
  | @refreshed uri p text a hpath hedit htext =>
    rw [← hedit.settings] at hencoding
    match hres : a.refresh w uri p text with
    | (some f, a') =>
      rw [hres] at hn
      have hf := Activity.refresh_fault hencoding (hedit.addressed hpath haddressed) hpath hres
      exact absurd (congrArg some hf) hn
    | (none, a') =>
      obtain ⟨hpreserves, hself, hdependents⟩ := Activity.refresh_spec hkept htext hpath hres
      exact .refreshed hpath hedit hpreserves hself hdependents
  | @dropped uri p a hpath hedit htext =>
    rw [← hedit.settings] at hencoding
    match hres : a.refreshDependents w p with
    | (some f, a') =>
      rw [hres] at hn
      have hf := Activity.diagnoseDependents_fault hencoding
        (hedit.addressed hpath haddressed) hres
      exact absurd (congrArg some hf) hn
    | (none, a') =>
      obtain ⟨hpreserves, hdependents⟩ := Activity.refreshDependents_spec hkept hres
      -- the document is closed, so the property holds of it
      have hclosed : a'.session.documents.get? uri = none := by
        rw [hpreserves.eases.documents, htext]
      exact .refreshed hpath hedit hpreserves (hkept.closed hclosed) hdependents

namespace Renewal

theorem settings_eq (h : Renewal w Holds s s') : s'.settings = s.settings := by
  cases h with
  | nothing | astray => rfl
  | refreshed _ hedit hpreserves => rw [hpreserves.eases.settings, hedit.settings]

theorem named (h : Renewal w Holds s s') (hnamed : s.Named) : s'.Named := by
  cases h with
  | nothing | astray => exact hnamed
  | refreshed hpath hedit hpreserves =>
    have hedited := hedit.named hpath hnamed
    unfold Session.Named at hedited ⊢
    rw [hpreserves.eases.buffers]
    exact hedited

/-- Nothing is recorded for an address without a path. -/
theorem unaddressed {f : Fault} (h : Renewal w Holds s s') (hu : Uri.toPath u = .error f) :
    s'.diagnostics.get? u = s.diagnostics.get? u ∧
      s'.dependencies.get? u = s.dependencies.get? u := by
  cases h with
  | nothing | astray => exact ⟨rfl, rfl⟩
  | @refreshed uri p a a' hpath hedit hpreserves =>
    obtain ⟨hdiagnostics, hdependencies⟩ := hpreserves.unaddressed u f hu
    have hne : u ≠ uri := by
      rintro rfl
      exact nomatch hpath.symm.trans hu
    exact ⟨hdiagnostics.trans (hedit.diagnostics u hne),
      hdependencies.trans (hedit.dependencies u hne)⟩

/-- **The property lasts** if it does so where a text changes that nothing reads, and if an edit
leaves it alone for all other documents that do not depend on the edited path. -/
theorem holds (h : Renewal w Holds s s') (hs : ∀ u, Holds s u)
    (hastray : ∀ {uri f documents}, Uri.toPath uri = .error f →
      (∀ u, u ≠ uri → documents.get? u = s.documents.get? u) → ∀ u, Holds { s with documents } u)
    (hedited : ∀ {s₁ uri p}, Uri.toPath uri = .ok p → s.EditedAt s₁ uri p → ∀ u, u ≠ uri →
      Holds s₁ u ∨ ∃ dependencies, s₁.dependencies.get? u = some dependencies ∧ p ∈ dependencies)
    (u : Address) : Holds s' u := by
  cases h with
  | nothing => exact hs u
  | astray hpath hdocuments => exact hastray hpath hdocuments u
  | @refreshed uri p a a' hpath hedit hpreserves hself hdependents =>
    by_cases hu : u = uri
    · exact hu ▸ hself
    · obtain h | ⟨dependencies, hdeps, hp⟩ := hedited hpath hedit u hu
      · exact hpreserves.holds u h
      · exact hdependents u dependencies hdeps hp

end Renewal

end Editor

end ShaderInclude
