import ShaderInclude.CommandLine.Invocation
import ShaderInclude.Module.Load
import ShaderInclude.Rebuild.DependencyRule
import ShaderInclude.Settings.Load
import ShaderInclude.Surroundings
import ShaderInclude.Text.Lines

/-!
# Running an invocation

The settings are loaded, then the module. A finding about the module is reported and ends the run
with status 1. Otherwise the command delivers its result: to the standard output, or into files,
for which directories are created as needed. Wrong arguments end the run with status 2. A fault
ends the run wherever it is; what was written before stays.
-/

namespace ShaderInclude

namespace CommandLine

/-- What a run leaves behind. -/
structure Report where
  /-- The status, unless a fault ended the run. -/
  status : Except Fault Nat
  output : Text
  errorOutput : Text
  /-- The files after the run. -/
  files : FileTree
  /-- The settings in force. -/
  settings : Settings
  /-- The paths of modules that were read. -/
  reads : List Path
  /-- The sources that were handed to the tool. -/
  checked : List Text

/-- The last line of what was reported, which names what is wrong with the arguments. -/
def Report.lastErrorLine (r : Report) : Text := r.errorOutput.lastLine

/-! ### Delivering a result -/

/-- What a command delivers. -/
structure Delivery where
  output : Text := []
  files : FileTree
  log : List LogLine := []
  /-- The fault that ended the delivery early. -/
  fault : Option Fault := none

/-- Write a text into a file, with the directories that it lies in. A text that cannot be encoded
leaves an empty file. -/
def writeText (files : FileTree) (p : Path) (encoding : Except EncodingError Encoding)
    (text : Text) : FileTree × Option Fault :=
  match files.ensureDirectories p.parent with
  | (files, some (failure, place)) => (files, some (.access failure place))
  | (files, none) =>
    let (bytes, fault) := match encoding with
      | .error e => ([], some (.encoding e))
      | .ok e => match e.encode? text with
        | none => ([], some .unencodable)
        | some bytes => (bytes, none)
    match files.write p bytes with
    | .error failure => (files, some (.access failure p))
    | .ok files => (files, fault)

/-- The line that tells where a flattened module went. -/
def wroteLine (p : Path) : LogLine := ⟨.info, .commandLine, "Wrote ".toList ++ p.render⟩

/-- Write a flattened module into a file, and its dependency rule if one is asked for. -/
def deliverTo (d : Destination) (path : Text) (s : Settings) (files : FileTree) (m : Module) :
    Delivery :=
  let p := Path.parse d.file
  match writeText files p s.sourceEncoding m.code with
  | (files, some f) => { files, fault := some f }
  | (files, none) =>
    match d.depfile with
    | none => { files, log := [wroteLine p] }
    | some depfile =>
      let rule := DependencyRule.rule d.file (path :: m.dependencies.map Path.render)
      let (files, fault) := writeText files (Path.parse depfile) (.ok .utf8) rule
      { files, log := [wroteLine p], fault }

/-- Deliver what a command asks for. -/
def Command.deliver (command : Command) (path : Text) (s : Settings) (files : FileTree)
    (m : Module) : Delivery :=
  match command with
  | deps => { files, output := (Path.sort m.dependencies).flatMap fun p => p.render ++ ['\n'] }
  | flatten none => { files, output := m.code }
  | flatten (some d) => deliverTo d path s files m

/-! ### The run -/

/-- The lines of a log that are shown, in writing. -/
def shown (verbose : Bool) (log : List LogLine) : Text :=
  (log.filter (LogLine.isShown verbose)).flatMap LogLine.text

/-- The line that reports a finding. -/
def errorLine (e : ModuleError) : Text := "Error: ".toList ++ e.message ++ ['\n']

/-- Run an invocation. -/
def Invocation.run (i : Invocation) (w : Surroundings) : Report :=
  match Settings.load w.files w.environment (i.projectRoot.map Path.parse) with
  | .error f => ⟨.error f, [], [], w.files, {}, [], []⟩
  | .ok (loaded, log) =>
    let s := if i.validate then loaded else { loaded with validate := .bool false }
    let (outcome, state) := (s.loader w.files w.run).loadAlone (Path.parse i.path) none
    let log := log ++ state.events.filterMap Event.logLine?
    let reads := state.events.filterMap Event.readPath?
    let checked := state.events.filterMap Event.checkedCode?
    match outcome with
    | .error (.fault f) => ⟨.error f, [], shown i.verbose log, w.files, s, reads, checked⟩
    | .error (.finding e) =>
      ⟨.ok 1, [], shown i.verbose log ++ errorLine e, w.files, s, reads, checked⟩
    | .ok m =>
      let d := i.command.deliver i.path s w.files m
      let status := match d.fault with
        | some f => .error f
        | none => .ok 0
      ⟨status, d.output, shown i.verbose (log ++ d.log), d.files, s, reads, checked⟩

/-- What the program can do, in short. -/
def help : Text :=
  ("usage: wgsl-modules [-h] [--project-root DIRECTORY] [-v]\n" ++
    "         flatten PATH [-o FILE [--depfile FILE]] [--no-validate] |\n" ++
    "         deps PATH [--no-validate]\n").toList

/-- Run the program with arguments. -/
def run (arguments : List Text) (w : Surroundings) : Report :=
  match Invocation.parse arguments with
  | .ok i => i.run w
  | .error .help => ⟨.ok 0, help, [], w.files, {}, [], []⟩
  | .error .projectUnnamed => ⟨.error .projectUnnamed, [], [], w.files, {}, [], []⟩
  | .error (.misuse speaker e) =>
    ⟨.ok 2, [], speaker ++ ": error: ".toList ++ e.message ++ ['\n'], w.files, {}, [], []⟩

end CommandLine

end ShaderInclude
