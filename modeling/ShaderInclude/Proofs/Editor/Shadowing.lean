import Mathlib.Data.List.Induction
import ShaderInclude.Proofs.Editor.Notice

/-!
# Open documents in front of files

A session keeps its open documents in one table by their addresses, and in a second one the document
that stands for a canonical path. Reads go through the second table, and several addresses may name
one path. `Session.Shadows` says that reads of open documents still end at open documents: the path
of every open document has the text of some open document with this path, whatever the files hold.

`Session.TablesAfter` says what a notice does to the two tables, in whatever way the diagnoses after
it end. The main statement is `shadows_iff`: from a fresh session the open documents shadow the
files throughout a run if and only if no document is closed whose path another open document has.
The table of paths loses the path in this case, also if the other document stood for it.
`not_shadows_closed` is such a run.
-/

namespace ShaderInclude

/-- Where there are no files, none can be read. -/
theorem FileTree.readSource_of_empty {t : FileTree} (h : t.nodes = .empty)
    (encoding : Except EncodingError Encoding) (p : Path) (text : Text) :
    t.readSource encoding p ≠ .ok text := by
  have hnode : ∃ failure, t.node p = .error failure := by
    unfold node
    split
    · exact ⟨_, rfl⟩
    · rw [h, OrderedMap.get?_empty]
      exact ⟨_, rfl⟩
  obtain ⟨failure, hnode⟩ := hnode
  unfold readSource read
  rw [hnode]
  exact nofun

namespace Editor

variable {w : Surroundings} {s s' s'' : Session} {uri u : Address} {p q : Path} {text : Text}
  {a : Activity} {n : Notice}

/-! ### The two tables -/

namespace Session

/-- The two sessions have the same documents, and these stand for the same paths. -/
structure SameTables (s s' : Session) : Prop where
  documents : s'.documents = s.documents
  buffers : s'.buffers = s.buffers

theorem SameTables.refl (s : Session) : s.SameTables s := ⟨rfl, rfl⟩

theorem SameTables.trans (h : s.SameTables s') (h' : s'.SameTables s'') : s.SameTables s'' :=
  ⟨h'.documents.trans h.documents, h'.buffers.trans h.buffers⟩

end Session

namespace Activity

theorem sameTables_diagnose (w : Surroundings) (uri : Address) (p : Path) (text : Text)
    (a : Activity) : a.session.SameTables (a.diagnose w uri p text).2.session := by
  unfold diagnose
  split
  · exact .refl _
  · exact ⟨rfl, rfl⟩

theorem sameTables_diagnoseAt (w : Surroundings) (uri : Address) (text : Text) (a : Activity) :
    a.session.SameTables (a.diagnoseAt w uri text).2.session := by
  unfold diagnoseAt
  split
  · exact .refl _
  · exact sameTables_diagnose w uri _ text a

theorem sameTables_diagnoseDependents (w : Surroundings) (p : Path)
    (entries : List (Address × List Path)) (a : Activity) :
    a.session.SameTables (diagnoseDependents w p entries a).2.session := by
  induction entries generalizing a with
  | nil => exact .refl _
  | cons entry entries ih =>
    obtain ⟨uri, dependencies⟩ := entry
    rw [diagnoseDependents]
    split
    case h_1 => exact ih a
    case h_2 text _ =>
      have hfirst := sameTables_diagnoseAt w uri text a
      split
      case h_1 hres =>
        rw [hres] at hfirst
        exact hfirst
      case h_2 hres =>
        rw [hres] at hfirst
        exact hfirst.trans (ih _)

/-- **Diagnoses leave the tables alone**, in whatever way they end. -/
theorem sameTables_refresh (w : Surroundings) (uri : Address) (p : Path) (text : Text)
    (a : Activity) : a.session.SameTables (a.refresh w uri p text).2.session := by
  have hfirst := sameTables_diagnose w uri p text a
  unfold refresh
  split
  case h_1 hres =>
    rw [hres] at hfirst
    exact hfirst
  case h_2 hres =>
    rw [hres] at hfirst
    exact hfirst.trans (sameTables_diagnoseDependents w p _ _)

end Activity

namespace Session

/-- **What a notice does to the two tables**: nothing; or a document gets a text, and it or another
one stands for its path; or an open document goes, and none stands for its path. -/
inductive TablesAfter (s s' : Session) : Notice → Prop
  | kept {n : Notice} (hsame : s.SameTables s')
      (hclosed : ∀ uri, n = .closed uri → s.documents.get? uri = none) : TablesAfter s s' n
  | put {n : Notice} {uri : Address} {text : Text} (hclosed : ∀ u, n ≠ .closed u)
      (hdocuments : s'.documents = s.documents.set uri text)
      (hself : ∀ p, Uri.toPath uri = .ok p →
        ∃ u, s'.buffers.get? p = some u ∧ (u = uri ∨ s.buffers.get? p = some u))
      (hothers : ∀ q, Uri.toPath uri ≠ .ok q → s'.buffers.get? q = s.buffers.get? q) :
    TablesAfter s s' n
  | dropped {uri : Address} {text : Text} (hopen : s.documents.get? uri = some text)
      (hdocuments : s'.documents = s.documents.erase uri)
      (hself : ∀ p, Uri.toPath uri = .ok p → s'.buffers.get? p = none)
      (hothers : ∀ q, Uri.toPath uri ≠ .ok q → s'.buffers.get? q = s.buffers.get? q) :
    TablesAfter s s' (.closed uri)

/-- What is done after the tables have changed does not matter. -/
theorem TablesAfter.trans (h : s.TablesAfter s' n) (hsame : s'.SameTables s'') :
    s.TablesAfter s'' n := by
  obtain ⟨hdocuments', hbuffers'⟩ := hsame
  cases h with
  | kept hsame hclosed => exact .kept (hsame.trans ⟨hdocuments', hbuffers'⟩) hclosed
  | put hclosed hdocuments hself hothers =>
    rw [← hbuffers'] at hself hothers
    exact .put hclosed (hdocuments'.trans hdocuments) hself hothers
  | dropped hopen hdocuments hself hothers =>
    rw [← hbuffers'] at hself hothers
    exact .dropped hopen (hdocuments'.trans hdocuments) hself hothers

private theorem tablesAfter_setBuffer (hclosed : ∀ u, n ≠ .closed u)
    (hpath : Uri.toPath uri = .ok p) :
    s.TablesAfter ((s.setDocument uri text).setBuffer p uri) n := by
  refine .put hclosed rfl (fun q hq => ?_) fun q hq => ?_
  · obtain rfl := Except.ok.inj (hpath.symm.trans hq)
    exact ⟨uri, OrderedMap.get?_set_self _ _ _, .inl rfl⟩
  · refine OrderedMap.get?_set_of_ne _ _ ?_
    rintro rfl
    exact hq hpath

private theorem tablesAfter_addBuffer (hclosed : ∀ u, n ≠ .closed u)
    (hpath : Uri.toPath uri = .ok p) :
    s.TablesAfter ((s.setDocument uri text).addBuffer p uri) n := by
  unfold addBuffer
  split
  case isTrue hhas =>
    obtain ⟨u, hu⟩ := OrderedMap.has_eq_true_iff.mp hhas
    refine .put hclosed rfl (fun q hq => ?_) fun _ _ => rfl
    obtain rfl := Except.ok.inj (hpath.symm.trans hq)
    exact ⟨u, hu, .inr hu⟩
  case isFalse => exact tablesAfter_setBuffer hclosed hpath

private theorem tablesAfter_removeBuffer (htext : s.documents.get? uri = some text)
    (hpath : Uri.toPath uri = .ok p) :
    s.TablesAfter (((s.removeDocument uri).removeBuffer p).forget uri) (.closed uri) := by
  refine .dropped htext rfl (fun q hq => ?_) fun q hq => ?_
  · obtain rfl := Except.ok.inj (hpath.symm.trans hq)
    exact OrderedMap.get?_erase_self _ _
  · refine OrderedMap.get?_erase_of_ne _ ?_
    rintro rfl
    exact hq hpath

/-- A document without a path gets a text. -/
private theorem tablesAfter_setDocument {f : Fault} (hclosed : ∀ u, n ≠ .closed u)
    (hpath : Uri.toPath uri = .error f) : s.TablesAfter (s.setDocument uri text) n :=
  .put hclosed rfl (fun _ hp => nomatch hpath.symm.trans hp) fun _ _ => rfl

/-- A document without a path goes. -/
private theorem tablesAfter_removeDocument {f : Fault} (htext : s.documents.get? uri = some text)
    (hpath : Uri.toPath uri = .error f) : s.TablesAfter (s.removeDocument uri) (.closed uri) :=
  .dropped htext rfl (fun _ hp => nomatch hpath.symm.trans hp) fun _ _ => rfl

/-- What an opening does, whether or not the address has a path. -/
private theorem tablesAfter_opened (w : Surroundings) (s : Session) (uri : Address) (text : Text) :
    s.TablesAfter (Activity.opened w uri text (.ofSession s)).2.session (.opened uri text) := by
  have hn : ∀ u, Notice.opened uri text ≠ .closed u := nofun
  unfold Activity.opened
  cases hpath : Uri.toPath uri with
  | error f => exact tablesAfter_setDocument hn hpath
  | ok p =>
    exact (tablesAfter_setBuffer hn hpath).trans (Activity.sameTables_refresh w uri p text
      (.ofSession ((s.setDocument uri text).setBuffer p uri)))

private theorem tablesAfter_changed (w : Surroundings) (s : Session) (uri : Address) (text : Text)
    (texts : List Text) :
    s.TablesAfter (Activity.changed w uri text (.ofSession s)).2.session (.changed uri texts) := by
  have hn : ∀ u, Notice.changed uri texts ≠ .closed u := nofun
  unfold Activity.changed
  cases hpath : Uri.toPath uri with
  | error f => exact tablesAfter_setDocument hn hpath
  | ok p =>
    exact (tablesAfter_addBuffer hn hpath).trans (Activity.sameTables_refresh w uri p text
      (.ofSession ((s.setDocument uri text).addBuffer p uri)))

private theorem tablesAfter_saved (w : Surroundings) (s : Session) (uri : Address) :
    s.TablesAfter (Activity.saved w uri (.ofSession s)).2.session (.saved uri) := by
  have hn : ∀ u, Notice.saved uri = .closed u → s.documents.get? u = none := nofun
  unfold Activity.saved
  cases (Activity.ofSession s).session.documents.get? uri with
  | none => exact .kept (.refl s) hn
  | some text =>
    cases Uri.toPath uri with
    | error f => exact .kept (.refl s) hn
    | ok p => exact .kept (Activity.sameTables_refresh w uri p text (.ofSession s)) hn

private theorem tablesAfter_closed (w : Surroundings) (s : Session) (uri : Address) :
    s.TablesAfter (Activity.closed w uri (.ofSession s)).2.session (.closed uri) := by
  unfold Activity.closed
  by_cases hopen : s.documents.has uri = true
  · obtain ⟨text, htext⟩ := OrderedMap.has_eq_true_iff.mp hopen
    rw [if_pos (by exact hopen)]
    cases hpath : Uri.toPath uri with
    | error f => exact tablesAfter_removeDocument htext hpath
    | ok p =>
      exact (tablesAfter_removeBuffer htext hpath).trans
        (Activity.sameTables_diagnoseDependents w p _
          ⟨((s.removeDocument uri).removeBuffer p).forget uri, [uri], [], []⟩)
  · rw [if_neg (by exact hopen)]
    refine .kept (.refl s) fun u hu => ?_
    obtain rfl := Notice.closed.inj hu
    exact Option.not_isSome_iff_eq_none.mp hopen

/-- **Every notice does one of these.** -/
theorem tablesAfter_told (w : Surroundings) (s : Session) (n : Notice) :
    s.TablesAfter (s.told w n) n := by
  cases n with
  | opened uri text => exact tablesAfter_opened w s uri text
  | changed uri texts =>
    unfold told
    simp only [Notice.request, serve]
    cases texts.getLast? with
    | none =>
      refine .kept (.refl s) fun u hu => ?_
      cases hu
    | some text => exact tablesAfter_changed w s uri text texts
  | saved uri => exact tablesAfter_saved w s uri
  | closed uri => exact tablesAfter_closed w s uri

/-! ### Open documents in front of files -/

/-- **The open documents shadow the files**: the path of every open document has the text of an open
document with this path, whatever the files hold. -/
def Shadows (s : Session) : Prop :=
  ∀ uri p, s.documents.has uri = true → Uri.toPath uri = .ok p →
    ∃ u text, Uri.toPath u = .ok p ∧ s.documents.get? u = some text ∧
      ∀ files, s.reader files p = .ok text

/-- A document is closed whose path another open document has. -/
def ClosesShared (s : Session) (n : Notice) : Prop :=
  ∃ uri u p, n = .closed uri ∧ u ≠ uri ∧ Uri.toPath uri = .ok p ∧ Uri.toPath u = .ok p ∧
    s.documents.has uri = true ∧ s.documents.has u = true

/-- What stands for a path is an open document with this path. -/
structure Tracked (s : Session) : Prop where
  named : s.Named
  isOpen : ∀ p u, s.buffers.get? p = some u → ∃ text, s.documents.get? u = some text

/-- For the path of every open document some document stands. -/
def Backed (s : Session) : Prop :=
  ∀ uri p, s.documents.has uri = true → Uri.toPath uri = .ok p → ∃ u, s.buffers.get? p = some u

/-- A text is read whatever the files hold if and only if it is the text of the document that stands
for the path. -/
theorem text?_eq_some_iff : s.text? p = some text ↔ ∀ files, s.reader files p = .ok text := by
  unfold reader
  constructor
  · intro h files
    rw [h]
  · intro h
    have hempty := h ⟨[], .empty, []⟩
    split at hempty
    case h_1 htext => rw [htext, Except.ok.inj hempty]
    case h_2 => exact absurd hempty (FileTree.readSource_of_empty rfl _ p text)

/-- **Open documents shadow the files** if and only if some document stands for the path of each. -/
theorem Tracked.shadows_iff_backed (hs : s.Tracked) : s.Shadows ↔ s.Backed := by
  constructor
  · intro h uri p hopen hpath
    obtain ⟨u, text, -, -, hread⟩ := h uri p hopen hpath
    obtain ⟨u', hu', -⟩ := Option.bind_eq_some_iff.mp (text?_eq_some_iff.mpr hread)
    exact ⟨u', hu'⟩
  · intro h uri p hopen hpath
    obtain ⟨u, hu⟩ := h uri p hopen hpath
    obtain ⟨text, htext⟩ := hs.isOpen p u hu
    refine ⟨u, text, hs.named p u hu, htext, text?_eq_some_iff.mp ?_⟩
    exact Option.bind_eq_some_iff.mpr ⟨u, hu, htext⟩

/-! ### Along the notices of an editor -/

/-- A notice leaves the tables tracked. -/
theorem TablesAfter.tracked (h : s.TablesAfter s' n) (hs : s.Tracked) : s'.Tracked := by
  cases h with
  | kept hsame =>
    obtain ⟨hnamed, hopen⟩ := hs
    unfold Named at hnamed
    rw [← hsame.buffers] at hnamed hopen
    rw [← hsame.documents] at hopen
    exact ⟨hnamed, hopen⟩
  | @put _ uri text _ hdocuments hself hothers =>
    have hbuffer : ∀ p u, s'.buffers.get? p = some u →
        u = uri ∧ Uri.toPath uri = .ok p ∨ s.buffers.get? p = some u := by
      intro p u hu
      by_cases hpath : Uri.toPath uri = .ok p
      · obtain ⟨u', hu', hcases⟩ := hself p hpath
        obtain rfl := Option.some.inj (hu'.symm.trans hu)
        exact hcases.imp_left fun h => ⟨h, hpath⟩
      · exact .inr (hothers p hpath ▸ hu)
    refine ⟨fun p u hu => ?_, fun p u hu => ?_⟩
    · obtain ⟨rfl, hpath⟩ | hu := hbuffer p u hu
      · exact hpath
      · exact hs.named p u hu
    · rw [hdocuments, OrderedMap.get?_set]
      obtain ⟨rfl, -⟩ | hu := hbuffer p u hu
      · exact ⟨text, if_pos rfl⟩
      · split
        · exact ⟨text, rfl⟩
        · exact hs.isOpen p u hu
  | @dropped uri text _ hdocuments hself hothers =>
    have hbuffer : ∀ p u, s'.buffers.get? p = some u →
        Uri.toPath uri ≠ .ok p ∧ s.buffers.get? p = some u := by
      intro p u hu
      have hpath : Uri.toPath uri ≠ .ok p := fun hpath => nomatch (hself p hpath).symm.trans hu
      exact ⟨hpath, hothers p hpath ▸ hu⟩
    refine ⟨fun p u hu => hs.named p u (hbuffer p u hu).2, fun p u hu => ?_⟩
    obtain ⟨hpath, hu⟩ := hbuffer p u hu
    have hne : uri ≠ u := by
      rintro rfl
      exact hpath (hs.named p _ hu)
    rw [hdocuments, OrderedMap.get?_erase, if_neg hne]
    exact hs.isOpen p u hu

/-- A notice leaves the paths of open documents backed unless it closes a document that shares its
path. -/
theorem TablesAfter.backed (h : s.TablesAfter s' n) (hs : s.Backed) (hn : ¬ s.ClosesShared n) :
    s'.Backed := by
  intro uri' p hopen hpath'
  cases h with
  | kept hsame =>
    rw [hsame.documents] at hopen
    rw [hsame.buffers]
    exact hs uri' p hopen hpath'
  | @put _ uri text _ hdocuments hself hothers =>
    by_cases hpath : Uri.toPath uri = .ok p
    · obtain ⟨u, hu, -⟩ := hself p hpath
      exact ⟨u, hu⟩
    · rw [hothers p hpath]
      refine hs uri' p ?_ hpath'
      have hne : uri ≠ uri' := by
        rintro rfl
        exact hpath hpath'
      simpa [OrderedMap.has, hdocuments, hne] using hopen
  | @dropped uri text hopen' hdocuments hself hothers =>
    have hboth : uri' ≠ uri ∧ s.documents.has uri' = true := by
      by_cases hne : uri = uri'
      · simp [OrderedMap.has, hdocuments, hne] at hopen
      · exact ⟨Ne.symm hne, by simpa [OrderedMap.has, hdocuments, hne] using hopen⟩
    have hpath : Uri.toPath uri ≠ .ok p := fun hpath =>
      hn ⟨uri, uri', p, rfl, hboth.1, hpath, hpath', OrderedMap.has_eq_true_iff.mpr ⟨text, hopen'⟩,
        hboth.2⟩
    rw [hothers p hpath]
    exact hs uri' p hboth.2 hpath'

/-- Where a document is closed that shares its path, the other document is left without one that
stands for its path. -/
theorem TablesAfter.not_backed (h : s.TablesAfter s' n) (hn : s.ClosesShared n) : ¬ s'.Backed := by
  obtain ⟨uri, u, p, rfl, hne, huri, hu, hopen, hopen'⟩ := hn
  intro hbacked
  cases h with
  | kept _ hclosed =>
    obtain ⟨text, htext⟩ := OrderedMap.has_eq_true_iff.mp hopen
    rw [hclosed uri rfl] at htext
    cases htext
  | put hclosed => exact hclosed uri rfl
  | dropped _ hdocuments hself =>
    have hstill : s'.documents.has u = true := by
      simpa [OrderedMap.has, hdocuments, Ne.symm hne] using hopen'
    obtain ⟨u', hu'⟩ := hbacked u p hstill hu
    rw [hself p huri] at hu'
    cases hu'

/-- The session after notices in a row, each with the surroundings in which it is told. -/
def toldIn (s : Session) (notices : List (Surroundings × Notice)) : Session :=
  notices.foldl (fun s e => s.told e.1 e.2) s

@[simp]
theorem toldIn_concat (s : Session) (notices : List (Surroundings × Notice))
    (e : Surroundings × Notice) : s.toldIn (notices ++ [e]) = (s.toldIn notices).told e.1 e.2 := by
  simp [toldIn]

theorem tracked_toldIn (root : Option Path) (settings : Settings)
    (notices : List (Surroundings × Notice)) :
    ((ofSettings root settings).toldIn notices).Tracked := by
  induction notices using List.reverseRecOn with
  | nil => exact ⟨nofun, nofun⟩
  | append_singleton notices e ih =>
    rw [toldIn_concat]
    exact (tablesAfter_told e.1 _ e.2).tracked ih

/-- **When open documents shadow the files.** From a fresh session, in whatever surroundings the
notices are told and however they end, the open documents shadow the files throughout a run if and
only if no notice closes a document whose path another open document has. -/
theorem shadows_iff (root : Option Path) (settings : Settings)
    (notices : List (Surroundings × Notice)) :
    (∀ before, before <+: notices → ((ofSettings root settings).toldIn before).Shadows) ↔
      ∀ before w n, before ++ [(w, n)] <+: notices →
        ¬ ((ofSettings root settings).toldIn before).ClosesShared n := by
  simp only [(tracked_toldIn root settings _).shadows_iff_backed]
  constructor
  · intro h before w n hbefore hn
    have hbacked := h _ hbefore
    rw [toldIn_concat] at hbacked
    exact (tablesAfter_told w _ n).not_backed hn hbacked
  intro h before
  induction before using List.reverseRecOn with
  | nil => exact fun _ _ _ => nofun
  | append_singleton before e ih =>
    intro hbefore
    have hbacked := ih ((List.prefix_append before [e]).trans hbefore)
    rw [toldIn_concat]
    exact (tablesAfter_told e.1 _ e.2).backed hbacked (h before e.1 e.2 hbefore)

/-- Surroundings without files. -/
def noFiles : Surroundings where
  files := .ofWorkingDirectory []
  environment := {}
  run _ := .notStarted
  writer _ := .ok none

/-- One path is opened under two addresses, and the second one is closed: the first one is still
open, and its path is read from the files. -/
theorem not_shadows_closed :
    ¬ ((ofSettings none { validate := .bool false }).toldIn
      [(noFiles, .opened "file:///p/b".toList "B".toList),
        (noFiles, .opened "file:///p/%62".toList "B".toList),
        (noFiles, .closed "file:///p/%62".toList)]).Shadows := by
  intro h
  obtain ⟨u, text, -, -, hread⟩ := h "file:///p/b".toList (.parse "/p/b".toList)
    (by decide +kernel) (by decide +kernel)
  have hnone : (((ofSettings none { validate := .bool false }).toldIn
      [(noFiles, .opened "file:///p/b".toList "B".toList),
        (noFiles, .opened "file:///p/%62".toList "B".toList),
        (noFiles, .closed "file:///p/%62".toList)]).text? (.parse "/p/b".toList)) = none := by
    decide +kernel
  exact nomatch hnone.symm.trans (text?_eq_some_iff.mpr hread)

end Session

end Editor

end ShaderInclude
