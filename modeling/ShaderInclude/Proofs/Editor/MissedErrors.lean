import Mathlib.Data.List.Induction
import ShaderInclude.Proofs.Editor.Notice
import ShaderInclude.Proofs.Resolution.Endless

/-!
# Missed errors

An error of an open document is missed if none is shown for the document, although a diagnosis would
now find it. A diagnosis that finds nothing has recorded all that it read, so a change at one of
these paths renews it, and a change elsewhere leaves it as it is (`Session.Clean.congr`). That the
session may stop checking its documents does no harm, since it only makes findings go away.

So no error is missed along notices that all end well (`Session.noMissedError_of_completes`),
whatever the tool does and however many documents there are for one path. A notice that gives up
leaves its work undone. In `Session.missedError_of_endless_chain` a document is opened that closes a
circle with its includer and leads to an endless chain besides: it has no diagnosis itself, and so
its includer is not diagnosed again.
-/

namespace ShaderInclude

namespace Editor

namespace Session

/-- **No missed error**: every open document for which a diagnosis has shown no errors would now be
diagnosed without any. -/
def NoMissedError (s : Session) (w : Surroundings) : Prop :=
  ∀ uri text, s.documents.get? uri = some text → s.diagnostics.get? uri = some [] →
    ∃ p d, Uri.toPath uri = .ok p ∧ s.diagnosis w p text = .ok d ∧ d.diagnostics = []

/-- If no errors are shown for the document, a diagnosis finds none now, and depends on what is
recorded. -/
def Clean (s : Session) (w : Surroundings) (uri : Address) : Prop :=
  ∀ text p, s.documents.get? uri = some text → Uri.toPath uri = .ok p → s.diagnosticsOf uri = [] →
    ∃ d, s.diagnosis w p text = .ok d ∧ d.diagnostics = [] ∧
      s.dependencies.get? uri = some d.dependencies

variable {w : Surroundings} {s s' : Session} {uri u : Address} {p q : Path} {text : Text}
  {settings : Settings}

/-- **A clean document stays clean** while the same is recorded for it, what it depends on reads the
same, and nothing more is refused. -/
theorem Clean.congr (hs : s.Clean w u) (htext : s'.documents.get? u = s.documents.get? u)
    (hdiagnostics : s'.diagnosticsOf u = s.diagnosticsOf u)
    (hdependencies : s'.dependencies.get? u = s.dependencies.get? u)
    (hreader : ∀ dependencies, s.dependencies.get? u = some dependencies →
      ∀ q ∈ dependencies, s'.reader w.files q = s.reader w.files q)
    (hrefusal : ∀ code, (s.loader w).refusal? code = none →
      (s'.loader w).refusal? code = none) : s'.Clean w u := by
  intro text p htext' hp hshown
  rw [htext] at htext'
  rw [hdiagnostics] at hshown
  obtain ⟨d, hd, hclean, hdeps⟩ := hs text p htext' hp hshown
  have hcanonical := Uri.isCanonical_of_toPath hp
  have hreads : ∀ q, .read q ∈ d.events → s'.reader w.files q = s.reader w.files q := fun q hq =>
    hreader d.dependencies hdeps q (mem_dependencies_of_clean hcanonical hd hclean hq)
  obtain ⟨d', hd', hclean', hdeps'⟩ :=
    diagnosis_congr_clean hcanonical hd hclean hreads hrefusal
  exact ⟨d', hd', hclean', by rw [hdependencies, hdeps, hdeps']⟩

/-- That a document is clean is kept up by diagnoses. -/
theorem clean_upkept : Activity.Upkept w fun s u => s.Clean w u where
  closed hclosed text p htext := nomatch hclosed.symm.trans htext
  recorded := by
    intro a uri p text d htext hp hd text' p' htext' hp' hshown
    obtain rfl := Option.some.inj (htext.symm.trans htext')
    obtain rfl := Except.ok.inj (hp.symm.trans hp')
    rw [Activity.diagnosticsOf_record, if_pos rfl] at hshown
    have hcanonical := Uri.isCanonical_of_toPath hp
    have heases := Activity.eases_record hcanonical hd uri
    obtain ⟨d', hd', hclean, hdeps⟩ := diagnosis_congr_clean hcanonical hd hshown
      (fun q _ => congrFun (heases.reader_eq w.files) q) fun _ => heases.refusal?_eq_none
    refine ⟨d', hd', hclean, ?_⟩
    rw [Activity.dependencies_record, if_pos rfl, hdeps]
  retained heases hdiagnostics hdependencies hs :=
    hs.congr (by rw [heases.documents]) (congrArg (·.getD []) hdiagnostics) hdependencies
      (fun _ _ q _ => congrFun (heases.reader_eq w.files) q) fun _ => heases.refusal?_eq_none

/-- What every session keeps along notices that end well. -/
structure Current (s : Session) (w : Surroundings) (settings : Settings) : Prop where
  settings_eq : s.settings = settings
  named : s.Named
  unaddressed : ∀ uri f, Uri.toPath uri = .error f →
    s.diagnostics.get? uri = none ∧ s.dependencies.get? uri = none
  clean : ∀ uri, s.Clean w uri

theorem current_ofSettings (w : Surroundings) (root : Option Path) (settings : Settings) :
    (ofSettings root settings).Current w settings :=
  ⟨rfl, nofun, fun _ _ _ => ⟨rfl, rfl⟩, fun _ _ _ => nofun⟩

/-- Where all documents are clean, no error is missed. -/
theorem Current.noMissedError (hs : s.Current w settings) : s.NoMissedError w := by
  intro uri text htext hshown
  cases hpath : Uri.toPath uri with
  | error f => exact nomatch (hs.unaddressed uri f hpath).1.symm.trans hshown
  | ok p =>
    obtain ⟨d, hd, hclean, -⟩ := hs.clean uri text p htext hpath (congrArg (·.getD []) hshown)
    exact ⟨p, d, rfl, hd, hclean⟩

/-- **After an edit every other document is clean or depends on the edited path.** -/
theorem EditedAt.clean_or_depends (hedit : s.EditedAt s' uri p) (hpath : Uri.toPath uri = .ok p)
    (hnamed : s.Named) (hs : s.Clean w u) (hu : u ≠ uri) :
    s'.Clean w u ∨
      ∃ dependencies, s'.dependencies.get? u = some dependencies ∧ p ∈ dependencies := by
  by_cases hdepends : ∃ dependencies, s'.dependencies.get? u = some dependencies ∧ p ∈ dependencies
  · exact .inr hdepends
  refine .inl (hs.congr (hedit.documents u hu) (hedit.diagnosticsOf_eq hu)
    (hedit.dependencies u hu) (fun dependencies hdeps q hq => ?_)
    fun code hcode => (hedit.refusal_eq code).trans hcode)
  refine hedit.reader_eq hpath hnamed w.files ?_
  rintro rfl
  exact hdepends ⟨dependencies, (hedit.dependencies u hu).trans hdeps, hq⟩

/-- A document without a path is nothing that a clean document depends on. -/
theorem Current.clean_astray {f : Fault} {documents : OrderedMap Address Text}
    (hs : s.Current w settings) (hpath : Uri.toPath uri = .error f)
    (hdocuments : ∀ u, u ≠ uri → documents.get? u = s.documents.get? u) (u : Address) :
    ({ s with documents } : Session).Clean w u := by
  by_cases hu : u = uri
  · subst hu
    exact fun text p htext hp => nomatch hpath.symm.trans hp
  · exact (hs.clean u).congr (hdocuments u hu) rfl rfl
      (fun _ _ q _ => congrFun (reader_astray hs.named hpath hdocuments w.files) q) fun _ => id

/-- A notice that ends well keeps the session current. -/
theorem Current.told {e : Encoding} {n : Notice} (hs : s.Current w settings)
    (hencoding : settings.sourceEncoding = .ok e) (hn : ¬ s.GivesUp w n) :
    (s.told w n).Current w settings := by
  rw [← hs.settings_eq] at hencoding
  have haddressed := Activity.addressed_of fun u f hu => (hs.unaddressed u f hu).2
  have hrenewal := renewal_told clean_upkept hencoding haddressed hn
  refine ⟨hrenewal.settings_eq.trans hs.settings_eq, hrenewal.named hs.named, fun u f hu => ?_, ?_⟩
  · obtain ⟨hdiagnostics, hdependencies⟩ := hrenewal.unaddressed hu
    rw [hdiagnostics, hdependencies]
    exact hs.unaddressed u f hu
  · exact hrenewal.holds hs.clean hs.clean_astray fun hpath hedit u hu =>
      hedit.clean_or_depends hpath hs.named (hs.clean u) hu

/-- **No error is missed along notices that end well.** From a fresh session with a known encoding,
after any notices none of which gives up, every open document for which no errors are shown would be
diagnosed without errors. -/
theorem noMissedError_of_completes {e : Encoding} (root : Option Path) (settings : Settings)
    (hencoding : settings.sourceEncoding = .ok e) (notices : List Notice)
    (hcompletes : (ofSettings root settings).Completes w notices) :
    ((ofSettings root settings).toldAll w notices).NoMissedError w := by
  suffices hcurrent : ((ofSettings root settings).toldAll w notices).Current w settings from
    hcurrent.noMissedError
  induction notices using List.reverseRecOn with
  | nil => exact current_ofSettings w root settings
  | append_singleton notices n ih =>
    obtain ⟨hbefore, hn⟩ := completes_concat.mp hcompletes
    rw [toldAll_concat]
    exact (ih hbefore).told hencoding hn

/-! ### Includes that the tool and the editor change -/

/-- Surroundings in which `b` includes nothing, with a tool that starts for all sources but that
of `b`, and then refuses them. -/
def halfTool : Surroundings where
  files := (FileTree.ofWorkingDirectory [])
    |>.add ["p".toList, "b".toList] (.file (Utf8.encode "B".toList) 0 none)
  environment := {}
  run source := if source = "B".toList then .notStarted else .exited 1 [] []
  writer _ := .ok none

/-- No error is missed where an includer of `b` is opened, `b` is opened with an include that is not
there, and `b` is closed again: in the end no error is shown for the includer. -/
theorem noMissedError_of_completes_closed :
    let includer := "file:///p/a".toList
    let included := "file:///p/b".toList
    let breaking :=
      [.opened includer "& include 'b';".toList, .opened included "& include 'x';".toList]
    let s := (ofSettings none {}).toldAll halfTool (breaking ++ [.closed included])
    (ofSettings none {}).Completes halfTool (breaking ++ [.closed included]) ∧
      ((ofSettings none {}).toldAll halfTool breaking).diagnostics.get? includer ≠ some [] ∧
      s.diagnostics.get? includer = some [] ∧ s.NoMissedError halfTool := by
  intro includer included breaking s
  have hopened : (ofSettings none {}).Completes halfTool
      [.opened includer "& include 'b';".toList] :=
    completes_concat.mpr ⟨completes_nil _ _, not_givesUp_of_ok (by decide +kernel)⟩
  have hbroken : (ofSettings none {}).Completes halfTool breaking :=
    completes_concat.mpr ⟨hopened, not_givesUp_of_ok (by decide +kernel)⟩
  have hcompletes : (ofSettings none {}).Completes halfTool (breaking ++ [.closed included]) :=
    completes_concat.mpr ⟨hbroken, not_givesUp_of_ok (by decide +kernel)⟩
  refine ⟨hcompletes, by decide +kernel, by decide +kernel, ?_⟩
  have hencoding : ({} : Settings).sourceEncoding = .ok .utf8 := by decide +kernel
  exact noMissedError_of_completes none {} hencoding _ hcompletes

/-! ### An include that leads to an endless chain -/

/-- A document that leads to an endless chain has no diagnosis. -/
theorem diagnosis_of_endlessChain {chain : Nat → Path} {directive : Directive} {directory : Path}
    (hchain : EndlessChain (s.reader w.files) chain) (k : Nat) (hp : p.IsCanonical)
    (hdir : p.directory? = some directory) (hscan : Directive.scan text = [directive])
    (htarget : Path.target directory directive.path = chain k)
    (hne : ∀ i, k ≤ i → chain i ≠ p) : s.diagnosis w p text = .error .nestingTooDeep := by
  obtain ⟨state, hnext⟩ : ∃ state, Derives (s.loader w).reader (s.loader w).limit p []
      (.path (Path.target directory directive.path)) .initial
      (.error (.fault .nestingTooDeep)) state := by
    rw [htarget]
    exact hchain.derives k (by simpa using hne) fun _ _ => rfl
  have hbody : Derives (s.loader w).reader (s.loader w).limit p [] (.ofSource directory text)
      .initial (.error (.fault .nestingTooDeep)) state := by
    rw [Task.ofSource, hscan]
    exact .halted hnext
  exact diagnosis_eq hp (.unrooted hdir (.failed .supplied hbody))

/-- The text at the path of an opened document is its own. -/
theorem text?_opened_self (s : Session) (uri : Address) (p : Path) (text : Text) :
    ((s.setDocument uri text).setBuffer p uri).text? p = some text := by
  simp [text?, setDocument, setBuffer]

/-- The texts at other paths stay, unless the document stood for them. -/
theorem text?_opened_of_ne (hq : q ≠ p) (hu : s.buffers.get? q ≠ some uri) :
    ((s.setDocument uri text).setBuffer p uri).text? q = s.text? q := by
  unfold text?
  rw [(editedAt_open s uri text p).buffers q hq]
  cases hbuffer : s.buffers.get? q with
  | none => rfl
  | some u =>
    have hne : u ≠ uri := by
      rintro rfl
      exact hu hbuffer
    exact (editedAt_open s uri text p).documents u hne

/-- The path `b` in the working directory. -/
def pathB : Path := .parse "b".toList

/-- The path `part` in the working directory. -/
def pathPart : Path := .parse "part".toList

/-- The chain that begins at `b` and goes on at the file that includes itself. -/
def chainFromB : Nat → Path
  | 0 => pathB
  | k + 1 => climb (k + 1)

theorem chainFromB_injective : Function.Injective chainFromB
  | 0, 0, _ => rfl
  | 0, j + 1, h => absurd h.symm (climb_ne rfl j)
  | i + 1, 0, h => absurd h (climb_ne rfl i)
  | _ + 1, _ + 1, h => climb_injective h

theorem chainFromB_ne_pathPart : ∀ k, chainFromB k ≠ pathPart
  | 0 => by decide
  | k + 1 => climb_ne rfl k

/-- The document for `b` includes the file, and none stands for a path that climbs to it. -/
structure LeadsAstray (s : Session) : Prop where
  encoding : s.settings.sourceEncoding = .ok .utf8
  start : s.text? pathB = some loopSource
  climbs : ∀ k, s.buffers.get? (climb (k + 1)) = none

theorem LeadsAstray.endlessChain (h : s.LeadsAstray) :
    EndlessChain (s.reader loopTree) chainFromB where
  injective := chainFromB_injective
  leads
    | 0 => by
      refine ⟨loopSource, .here, _, ?_, rfl, scan_loopSource, target_climb 0⟩
      simp only [reader, chainFromB, h.start]
    | k + 1 => by
      have htext : s.text? (climb (k + 1)) = none := by
        rw [text?, h.climbs k]
        rfl
      refine ⟨loopSource, _, _, ?_, directory?_climb (k + 1), scan_loopSource, target_climb (k + 1)⟩
      simp only [reader, chainFromB, htext, h.encoding, FileTree.readSource_climb]

/-- Surroundings with the file that includes itself. -/
def loopingFile : Surroundings where
  files := loopTree
  environment := {}
  run _ := .notStarted
  writer _ := .ok none

/-- A document for `b` is opened that includes `part`. -/
def openIncluderOfPart : Notice := .opened "untitled:b".toList "& include 'part';".toList

/-- A second document for `b` is opened. It includes the file. -/
def openSecond : Notice := .opened "untitled:./b".toList loopSource

/-- A document for `part` is opened that includes `b`. -/
def openPart : Notice := .opened "untitled:part".toList "& include 'b';".toList

/-- The session in which the includer is open, and nothing is found. -/
def withIncluder : Session :=
  (ofSettings none { validate := .bool false }).told loopingFile openIncluderOfPart

/-- The session in which the second document is open as well, which stands for `b` from now on. -/
def withSecond : Session :=
  (withIncluder.setDocument "untitled:./b".toList loopSource).setBuffer pathB
    "untitled:./b".toList

/-- The session in which all three documents are open. -/
def withPart : Session :=
  (withSecond.setDocument "untitled:part".toList "& include 'b';".toList).setBuffer pathPart
    "untitled:part".toList

private theorem leadsAstray_withSecond : withSecond.LeadsAstray where
  encoding := by decide +kernel
  start := text?_opened_self withIncluder _ pathB loopSource
  climbs k := by
    have hkeys : withSecond.buffers.keys = [pathB] := by decide +kernel
    cases hget : withSecond.buffers.get? (climb (k + 1)) with
    | none => rfl
    | some u =>
      have hmem := OrderedMap.mem_keys_iff.mpr ⟨u, hget⟩
      rw [hkeys, List.mem_singleton] at hmem
      exact absurd hmem (climb_ne rfl k)

private theorem leadsAstray_withPart : withPart.LeadsAstray where
  encoding := leadsAstray_withSecond.encoding
  start := (text?_opened_of_ne (by decide) (by decide +kernel)).trans leadsAstray_withSecond.start
  climbs k :=
    ((editedAt_open withSecond _ _ _).buffers _ (climb_ne rfl k)).trans
      (leadsAstray_withSecond.climbs k)

/-- The second document has no diagnosis, but it stands for its path all the same. -/
private theorem told_openSecond : withIncluder.told loopingFile openSecond = withSecond := by
  have hpath : Uri.toPath "untitled:./b".toList = .ok pathB := by decide +kernel
  have hne : ∀ i, 1 ≤ i → chainFromB i ≠ pathB := by
    intro i hi h
    have hzero : i = 0 := chainFromB_injective h
    omega
  have hfault : withSecond.diagnosis loopingFile pathB loopSource = .error .nestingTooDeep :=
    diagnosis_of_endlessChain leadsAstray_withSecond.endlessChain 1
      (Uri.isCanonical_of_toPath hpath) rfl scan_loopSource (target_climb 0) hne
  exact told_opened_of_fault hpath hfault

/-- The document for `part` has no diagnosis, and so the work on its includer is left undone. -/
private theorem told_openPart : withSecond.told loopingFile openPart = withPart := by
  have hpath : Uri.toPath "untitled:part".toList = .ok pathPart := by decide +kernel
  have hscan : Directive.scan "& include 'b';".toList = [⟨.line, "b".toList, 0, 14⟩] := by
    decide +kernel
  have hfault : withPart.diagnosis loopingFile pathPart "& include 'b';".toList =
      .error .nestingTooDeep :=
    diagnosis_of_endlessChain leadsAstray_withPart.endlessChain 0
      (Uri.isCanonical_of_toPath hpath) rfl hscan (by decide) fun i _ => chainFromB_ne_pathPart i
  exact told_opened_of_fault hpath hfault

/-- The includer now closes a circle with `part`, and still no error is shown for it. -/
private theorem missed_withPart : ¬ withPart.NoMissedError loopingFile := by
  intro hnone
  have htext : withPart.documents.get? "untitled:b".toList = some "& include 'part';".toList := by
    decide +kernel
  have hshown : withPart.diagnostics.get? "untitled:b".toList = some [] := by decide +kernel
  have hpath : Uri.toPath "untitled:b".toList = .ok pathB := by decide +kernel
  have hfound : (withPart.diagnosis loopingFile pathB "& include 'part';".toList).map
      (fun d => d.diagnostics.map Diagnostic.message) =
        .ok ["circular dependency b from part".toList] := by
    decide +kernel
  obtain ⟨p, d, hp, hd, hclean⟩ := hnone _ _ htext hshown
  obtain rfl := Except.ok.inj (hpath.symm.trans hp)
  rw [hd, Except.map, hclean] at hfound
  cases hfound

/-- **An error is missed** after a notice that gives up: the includer of `part` is open, `part` is
opened with a text that includes it in turn, and the error is neither shown nor looked for. -/
theorem missedError_of_endless_chain :
    ({ validate := .bool false } : Settings).sourceEncoding = .ok .utf8 ∧
      ¬ ((ofSettings none { validate := .bool false }).toldAll loopingFile
        [openIncluderOfPart, openSecond, openPart]).NoMissedError loopingFile := by
  refine ⟨by decide +kernel, ?_⟩
  rw [toldAll, List.foldl_cons, List.foldl_cons, List.foldl_cons, List.foldl_nil]
  rw [show told loopingFile (ofSettings none { validate := .bool false }) openIncluderOfPart =
    withIncluder from rfl, told_openSecond, told_openPart]
  exact missed_withPart

end Session

end Editor

end ShaderInclude
