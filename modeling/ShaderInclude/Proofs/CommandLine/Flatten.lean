import ShaderInclude.CommandLine.Run
import ShaderInclude.Proofs.Encoding.RoundTrip
import ShaderInclude.Proofs.Resolution.IncludeTree
import ShaderInclude.Proofs.Resolution.Reads
import ShaderInclude.Proofs.Storage.Writing

/-!
# Flattened modules read back

The code of a module has no characters but those of the sources that it was put together from
(`Module.Explained.forall_mem_code`). The sources were decoded, so the encoding has their
characters, and their line ends are uniform; an encoding keeps such a text. Main statement:
`CommandLine.flattened_reads_back`, a flattened module can always be written in the encoding of its
sources, and is read back from its file as it was.

The file is one of a `FileTree`, which has no devices, no links and no permissions for one direction
only: a file that can be written holds what was written and can be read.
-/

namespace ShaderInclude

/-! ### The characters of a module -/

section Characters

variable {P : Char → Prop} {provided : Path → Text → Prop}

theorem Directive.forall_mem_splice {d : Directive} {text code : Text} (htext : ∀ c ∈ text, P c)
    (hcode : ∀ c ∈ code, P c) : ∀ c ∈ d.splice text code, P c := by
  intro c hc
  rw [Directive.splice, Text.splice] at hc
  simp only [List.mem_append] at hc
  rcases hc with (hc | hc) | hc
  · exact hcode c (List.mem_of_mem_take hc)
  · exact htext c hc
  · exact hcode c (List.mem_of_mem_drop hc)

namespace IncludeTree

theorem forall_mem_spliceAll {ds : List Directive} {texts : List Text} {source : Text}
    (htexts : ∀ text ∈ texts, ∀ c ∈ text, P c) (hsource : ∀ c ∈ source, P c) :
    ∀ c ∈ spliceAll ds texts source, P c := by
  induction ds generalizing texts with
  | nil => exact hsource
  | cons d ds ih =>
    cases texts with
    | nil => exact hsource
    | cons text texts =>
      obtain ⟨htext, htexts⟩ := List.forall_mem_cons.mp htexts
      exact Directive.forall_mem_splice htext (ih htexts)

/-- What holds of all characters of the sources holds of all characters of the code. -/
theorem Follows.forall_mem_code {t : IncludeTree} (ht : t.Follows provided)
    (h : ∀ q source, provided q source → ∀ c ∈ source, P c) : ∀ c ∈ t.code, P c := by
  induction ht with
  | node _ hprovided _ _ _ ih =>
    rw [code, codes_eq_map]
    exact forall_mem_spliceAll (List.forall_mem_map.mpr ih) (h _ _ hprovided)

end IncludeTree

/-- **The code of a module is made of the characters of its sources.** -/
theorem Module.Explained.forall_mem_code {p : Path} {m : Module} (hm : m.Explained provided p)
    (h : ∀ q source, provided q source → ∀ c ∈ source, P c) : ∀ c ∈ m.code, P c := by
  obtain ⟨t, -, hfollows, hexplains⟩ := hm
  rw [hexplains.code_eq]
  exact hfollows.forall_mem_code h

end Characters

/-! ### What a loaded module keeps -/

section Loading

variable {files : FileTree} {encoding : Except EncodingError Encoding} {p : Path} {source : Text}

/-- A source that was read is decoded from the bytes of its file. -/
theorem FileTree.exists_bytes_of_readSource (h : files.readSource encoding p = .ok source) :
    ∃ e bytes, encoding = .ok e ∧ files.read p = .ok bytes ∧ textOfBytes e bytes = .ok source := by
  rw [readSource] at h
  cases hread : files.read p with
  | error => simp [hread] at h
  | ok bytes =>
    simp only [hread] at h
    cases encoding with
    | ok e => exact ⟨e, bytes, rfl, rfl, h⟩
    | error e => cases e <;> cases h

theorem FileTree.readSource_eq (files : FileTree) (e : Encoding) {bytes : Bytes}
    (h : files.read p = .ok bytes) : files.readSource (.ok e) p = textOfBytes e bytes := by
  rw [readSource, h]

/-- **The encoding of the sources keeps the code** of a module that is loaded from stored files. -/
theorem Settings.exists_keeps_of_loadAlone {s : Settings} {run : Text → ToolRun} {m : Module}
    {state : CacheState} (h : (s.loader files run).loadAlone p none = (.ok m, state)) :
    ∃ e, s.sourceEncoding = .ok e ∧ e.Keeps m.code := by
  have hloads := loads_loadCanonical (s.loader files run) p.normal none .initial
  rw [← Loader.loadAlone, h] at hloads
  have hm : m.Explained (fun q source => (s.loader files run).reader q = .ok source) p.normal :=
    (hloads.explained p.normal_isCanonical nofun (fun q source _ hq => hq) nofun).2 m rfl
  have ⟨_, _, hfollows, _⟩ := hm
  obtain ⟨-, hroot, -, -, -⟩ := hfollows
  obtain ⟨e, -, he, -⟩ := FileTree.exists_bytes_of_readSource hroot
  refine ⟨e, he, Encoding.keeps_iff.mpr (hm.forall_mem_code fun q source hq c hc => ?_)⟩
  obtain ⟨e', bytes, he', -, htext⟩ := FileTree.exists_bytes_of_readSource hq
  obtain rfl := Except.ok.inj (he.symm.trans he')
  exact Encoding.mem_of_textOfBytes htext hc

end Loading

/-! ### Faults that loading may end with -/

section Faults

variable {files : FileTree} {f : Fault}

theorem Settings.eq_of_subtable {key : String} {table : Toml.Table}
    (h : subtable key table = .error f) : f = .settingsNotTable := by
  rw [subtable] at h
  split at h <;> cases h
  rfl

theorem Settings.ofBytes_ne_unencodable (bytes : Bytes) : ofBytes bytes ≠ .error .unencodable := by
  intro h
  rw [ofBytes] at h
  split at h
  case h_1 => cases h
  case h_2 text _ =>
    split at h
    case h_1 => cases h
    case h_2 document _ =>
      cases htool : subtable "tool" document with
      | error f =>
        rw [htool, eq_of_subtable htool] at h
        cases h
      | ok tool =>
        rw [htool] at h
        cases htable : subtable "wgsl-modules" tool with
        | error f =>
          simp only [bind, Except.bind, htable, eq_of_subtable htable] at h
          cases h
        | ok table =>
          simp only [bind, Except.bind, htable] at h
          cases h

theorem Settings.load_ne_unencodable (files : FileTree) (environment : Environment)
    (project : Option Path) : load files environment project ≠ .error .unencodable := by
  intro h
  unfold load at h
  split at h
  case h_1 => cases h
  case h_2 =>
    simp only at h
    split at h
    case h_1 | h_2 => cases h
    case h_3 =>
      split at h
      case h_1 => cases h
      case h_2 bytes _ =>
        cases hsettings : ofBytes bytes with
        | error f =>
          rw [hsettings] at h
          cases h
          exact ofBytes_ne_unencodable bytes hsettings
        | ok loaded =>
          rw [hsettings] at h
          cases h

/-- The only faults of reading are those of the encoding's name. -/
theorem FileTree.eq_encoding_of_fault {encoding : Except EncodingError Encoding} {p : Path}
    (h : files.readSource encoding p = .error (.fault f)) : ∃ e, f = .encoding e := by
  rw [readSource] at h
  cases hread : files.read p with
  | error => simp [hread] at h
  | ok bytes =>
    simp only [hread] at h
    match encoding, h with
    | .error (.unknown _), h | .error .notText, h =>
      cases h
      exact ⟨_, rfl⟩
    | .ok e, h =>
      simp only [textOfBytes] at h
      split at h <;> cases h

theorem Loads.fault_cases {l : Loader} {p : Path} {supplied : Option Text} {s s' : CacheState}
    (h : Loads l p supplied s (.error (.fault f)) s') :
    f = .nestingTooDeep ∨ ∃ q, l.reader q = .error (.fault f) := by
  cases h with
  | unrooted hdir hroot =>
    generalize hr : (Except.error (.fault f) : Except LoadError Module) = r at hroot
    cases hroot with
    | cached | resolved => cases hr
    | @unread e _ _ hread =>
      cases e with
      | failed => cases hr
      | fault f' =>
        cases hr
        exact .inr ⟨p, hread⟩
    | failed _ hbody =>
      cases hr
      exact hbody.fault_cases rfl

/-- Loading writes nothing. -/
theorem Settings.loadAlone_ne_unencodable (s : Settings) (files : FileTree) (run : Text → ToolRun)
    (p : Path) (supplied : Option Text) :
    ((s.loader files run).loadAlone p supplied).1 ≠ .error (.fault .unencodable) := by
  intro h
  have hloads := loads_loadCanonical (s.loader files run) p.normal supplied .initial
  rw [← Loader.loadAlone, h] at hloads
  obtain hnesting | ⟨q, hq⟩ := hloads.fault_cases
  · cases hnesting
  · obtain ⟨e, he⟩ := FileTree.eq_encoding_of_fault hq
    cases he

end Faults

namespace CommandLine

/-! ### Writing -/

variable {files files' : FileTree} {p : Path} {e : Encoding} {text : Text} {fault : Option Fault}

/-- **A text that the encoding can write** is in its file afterwards, unless an access fails. -/
theorem writeText_cases {bytes : Bytes} (hencode : e.encode? text = some bytes)
    (h : writeText files p (.ok e) text = (files', fault)) :
    (∃ failure place, fault = some (.access failure place)) ∨
      fault = none ∧ files'.read p = .ok bytes := by
  rw [writeText] at h
  split at h
  case h_1 failure place _ =>
    cases h
    exact .inl ⟨failure, place, rfl⟩
  case h_2 files₁ _ =>
    simp only [hencode] at h
    cases hwrite : files₁.write p bytes with
    | error failure =>
      simp only [hwrite] at h
      cases h
      exact .inl ⟨failure, p, rfl⟩
    | ok files₂ =>
      simp only [hwrite] at h
      cases h
      exact .inr ⟨rfl, FileTree.read_of_write hwrite⟩

variable {s : Settings} {path file : Text} {m : Module}

/-- What delivers a module whose code the encoding keeps may fail only at an access. -/
theorem fault_deliver_ne_unencodable (he : s.sourceEncoding = .ok e) (hkeeps : e.Keeps m.code)
    (command : Command) : (command.deliver path s files m).fault ≠ some .unencodable := by
  obtain ⟨bytes, hencode, -⟩ := hkeeps
  match command with
  | .deps | .flatten none => exact nofun
  | .flatten (some ⟨file, depfile⟩) =>
    rw [Command.deliver, deliverTo, he]
    split
    case h_1 hwrite =>
      obtain ⟨failure, place, hfault⟩ | ⟨hfault, -⟩ := writeText_cases hencode hwrite
      · cases hfault
        exact nofun
      · cases hfault
    case h_2 =>
      cases depfile with
      | none => exact nofun
      | some depfile =>
        -- the rule is in UTF-8, which has all characters
        simp only
        generalize hwrite : writeText _ (Path.parse depfile) (.ok .utf8) _ = written
        obtain ⟨failure, place, hfault⟩ | ⟨hfault, -⟩ := writeText_cases (e := .utf8) rfl hwrite
        · simp [hfault]
        · simp [hfault]

/-- A module that is delivered into a file without a fault is read back from it. -/
theorem readSource_of_deliver (he : s.sourceEncoding = .ok e) (hkeeps : e.Keeps m.code)
    (hfault : (Command.deliver (.flatten (some ⟨file, none⟩)) path s files m).fault = none) :
    (Command.deliver (.flatten (some ⟨file, none⟩)) path s files m).files.readSource
      s.sourceEncoding (Path.parse file) = .ok m.code := by
  obtain ⟨bytes, hencode, hread⟩ := hkeeps
  rw [Command.deliver, deliverTo, he] at hfault ⊢
  generalize hwrite : writeText files (Path.parse file) (.ok e) m.code = written at hfault ⊢
  obtain ⟨files', fault⟩ := written
  obtain ⟨failure, place, rfl⟩ | ⟨rfl, hwritten⟩ := writeText_cases hencode hwrite
  · cases hfault
  · exact (FileTree.readSource_eq files' e hwritten).trans hread

/-! ### Running -/

/-- **How a run ends**: the settings are not loaded, loading the module ends with a fault or with a
finding, or the module is delivered. -/
theorem Invocation.run_cases (i : Invocation) (w : Surroundings) :
    (∃ f, Settings.load w.files w.environment (i.projectRoot.map Path.parse) = .error f ∧
        (i.run w).status = .error f) ∨
      (∃ f, (((i.run w).settings.loader w.files w.run).loadAlone (Path.parse i.path) none).1 =
          .error (.fault f) ∧ (i.run w).status = .error f) ∨
      (i.run w).status = .ok 1 ∨
      ∃ m state, ((i.run w).settings.loader w.files w.run).loadAlone (Path.parse i.path) none =
          (.ok m, state) ∧
        let d := i.command.deliver i.path (i.run w).settings w.files m
        (i.run w).status = d.fault.elim (.ok 0) .error ∧ (i.run w).files = d.files := by
  unfold run
  cases hsettings : Settings.load w.files w.environment (i.projectRoot.map Path.parse) with
  | error f => exact .inl ⟨f, rfl, rfl⟩
  | ok found =>
    obtain ⟨loaded, log⟩ := found
    refine .inr ?_
    simp only
    generalize (if i.validate then loaded else { loaded with validate := .bool false }) = s
    rcases hload : (s.loader w.files w.run).loadAlone (Path.parse i.path) none with
      ⟨(finding | f) | m, state⟩
    · exact .inr (.inl rfl)
    · exact .inl ⟨f, congrArg Prod.fst hload, rfl⟩
    · refine .inr (.inr ⟨m, state, hload, ?_, rfl⟩)
      simp only
      cases (i.command.deliver i.path s w.files m).fault <;> rfl

/-- No run ends because a text cannot be written in its encoding. -/
theorem Invocation.status_ne_unencodable (i : Invocation) (w : Surroundings) :
    (i.run w).status ≠ .error .unencodable := by
  obtain ⟨f, hload, hstatus⟩ | ⟨f, hload, hstatus⟩ | hstatus | ⟨m, state, hload, hstatus, -⟩ :=
    i.run_cases w
  · intro hunencodable
    cases hstatus.symm.trans hunencodable
    exact Settings.load_ne_unencodable _ _ _ hload
  · intro hunencodable
    cases hstatus.symm.trans hunencodable
    exact Settings.loadAlone_ne_unencodable _ _ _ _ _ hload
  · simp [hstatus]
  · obtain ⟨e, he, hkeeps⟩ := Settings.exists_keeps_of_loadAlone hload
    have hfault : (i.command.deliver i.path (i.run w).settings w.files m).fault ≠
        some .unencodable := fault_deliver_ne_unencodable he hkeeps i.command
    rw [hstatus]
    cases hdelivery : (i.command.deliver i.path (i.run w).settings w.files m).fault with
    | none => exact nofun
    | some f =>
      intro hunencodable
      exact hfault (hdelivery.trans (congrArg some (Except.error.inj hunencodable)))

/-- A module that a run has flattened into a file is read back from it. -/
theorem Invocation.exists_readSource_eq {i : Invocation} {w : Surroundings}
    (hcommand : i.command = .flatten (some ⟨file, none⟩)) (hok : (i.run w).status = .ok 0) :
    ∃ m state, ((i.run w).settings.loader w.files w.run).loadAlone (Path.parse i.path) none =
        (.ok m, state) ∧
      (i.run w).files.readSource (i.run w).settings.sourceEncoding (Path.parse file) =
        .ok m.code := by
  obtain ⟨f, -, hstatus⟩ | ⟨f, -, hstatus⟩ | hstatus | ⟨m, state, hload, hstatus, hfiles⟩ :=
    i.run_cases w
  case inl | inr.inl | inr.inr.inl => cases hstatus.symm.trans hok
  case inr.inr.inr =>
    obtain ⟨e, he, hkeeps⟩ := Settings.exists_keeps_of_loadAlone hload
    refine ⟨m, state, hload, ?_⟩
    rw [hcommand] at hstatus hfiles
    rw [hfiles]
    refine readSource_of_deliver he hkeeps ?_
    generalize (Command.deliver _ i.path (i.run w).settings w.files m).fault = fault at hstatus ⊢
    cases fault with
    | none => rfl
    | some f => cases hstatus.symm.trans hok

/-- **A flattened module is read back unchanged.** Whatever the files and the settings: the code of
a module that is loaded can be written in the encoding of its sources, and is read back from the
bytes as it was. So no run ends because a text cannot be encoded, and after a run that has flattened
a module into a file, and nothing else, with success, this file is read as the code of the
module.

A refusal blocks reading and writing alike here. Devices, links, and files that may be written but
not read are left out: they need not give back what was written to them. -/
theorem flattened_reads_back (w : Surroundings) :
    (∀ (s : Settings) (p : Path) (m : Module) (state : CacheState),
      (s.loader w.files w.run).loadAlone p none = (.ok m, state) →
        ∃ e, s.sourceEncoding = .ok e ∧ e.Keeps m.code) ∧
      ∀ i : Invocation, (i.run w).status ≠ .error .unencodable ∧
        ∀ file, i.command = .flatten (some ⟨file, none⟩) → (i.run w).status = .ok 0 →
          ∃ m state, ((i.run w).settings.loader w.files w.run).loadAlone (Path.parse i.path) none =
              (.ok m, state) ∧
            (i.run w).files.readSource (i.run w).settings.sourceEncoding (Path.parse file) =
              .ok m.code := by
  refine ⟨fun s p m state h => Settings.exists_keeps_of_loadAlone h, fun i => ?_⟩
  exact ⟨i.status_ne_unencodable w, fun file => Invocation.exists_readSource_eq⟩

/-- A root that includes a file with a byte order mark at its start and a carriage return at its
end. -/
def markedSurroundings : Surroundings where
  files := (FileTree.ofWorkingDirectory [])
    |>.add ["a".toList] (.file (Utf8.encode "A\n& include 'b';".toList) 1 none)
    |>.add ["b".toList] (.file (Utf8.mark ++ Utf8.encode "B\r\n".toList) 1 none)
  environment := ⟨none, none⟩
  run := fun _ => .notStarted
  writer _ := .ok none

/-- The mark of an included file becomes a character within the code. -/
theorem flattened_reads_back_marked :
    let w := markedSurroundings
    let i : Invocation := ⟨none, false, false, .flatten (some ⟨"out".toList, none⟩), "a".toList⟩
    (i.run w).status = .ok 0 ∧
      (i.run w).files.read (.parse "out".toList) =
        .ok (Utf8.encode "A\n".toList ++ Utf8.mark ++ Utf8.encode "B\n".toList) ∧
      ∃ m state, ((i.run w).settings.loader w.files w.run).loadAlone (Path.parse i.path) none =
          (.ok m, state) ∧
        (∃ e, (i.run w).settings.sourceEncoding = .ok e ∧ e.Keeps m.code) ∧
        (i.run w).files.readSource (i.run w).settings.sourceEncoding (.parse "out".toList) =
          .ok m.code := by
  intro w i
  have hok : (i.run w).status = .ok 0 := by decide +kernel
  obtain ⟨m, state, hload, hread⟩ := ((flattened_reads_back w).2 i).2 "out".toList rfl hok
  have hkeeps := (flattened_reads_back w).1 (i.run w).settings (.parse i.path) m state hload
  exact ⟨hok, by decide +kernel, m, state, hload, hkeeps, hread⟩

end CommandLine

end ShaderInclude
