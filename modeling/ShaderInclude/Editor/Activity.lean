import ShaderInclude.Editor.Diagnosis
import ShaderInclude.Uri.FilePath

/-!
# Keeping diagnoses up to date

When the text at a path changes, the document concerned is diagnosed again, and then every other
open document whose last diagnosis depends on the path, in the order in which their dependencies
were first recorded. An activity is a session on its way through this work, with a record of what
was done. A fault ends the work; what was done before it stays.
-/

namespace ShaderInclude

namespace Editor

/-- A session at work. -/
structure Activity where
  session : Session
  /-- The documents whose diagnostics were renewed, in order. -/
  renewed : List Address
  /-- The sources that were handed to the tool, in order. -/
  checked : List Text
  log : List LogLine

/-- What is left of a piece of work: the fault that ended it early, if any, and the activity. -/
abbrev Work := Option Fault × Activity

namespace Activity

/-- A session before it does anything. -/
def ofSession (s : Session) : Activity := ⟨s, [], [], []⟩

/-- The activity after a change of its session. -/
def edit (a : Activity) (change : Session → Session) : Activity :=
  { a with session := change a.session }

/-- Record the diagnosis of a document. Once a check was waived, the session does not check any
more. -/
def record (a : Activity) (uri : Address) (d : Diagnosis) : Activity :=
  let s := a.session.record uri d.dependencies d.diagnostics
  { session := { s with checking := s.checking && !d.events.any Event.isWaived }
    renewed := a.renewed ++ [uri]
    checked := a.checked ++ d.events.filterMap Event.checkedCode?
    log := a.log ++ d.events.filterMap Event.logLine? }

/-- Diagnose a document. -/
def diagnose (w : Surroundings) (uri : Address) (p : Path) (text : Text) (a : Activity) : Work :=
  match a.session.diagnosis w p text with
  | .error f => (some f, a)
  | .ok d => (none, a.record uri d)

/-- Diagnose the document of an address, whose path is yet to be found out. -/
def diagnoseAt (w : Surroundings) (uri : Address) (text : Text) (a : Activity) : Work :=
  match Uri.toPath uri with
  | .error f => (some f, a)
  | .ok p => a.diagnose w uri p text

/-- Diagnose the open documents among those listed that depend on a path. -/
def diagnoseDependents (w : Surroundings) (p : Path) : List (Address × List Path) → Activity → Work
  | [], a => (none, a)
  | (uri, dependencies) :: entries, a =>
    match if p ∈ dependencies then a.session.documents.get? uri else none with
    | none => diagnoseDependents w p entries a
    | some text =>
      match a.diagnoseAt w uri text with
      | (some f, a) => (some f, a)
      | (none, a) => diagnoseDependents w p entries a

/-- Diagnose all open documents that depend on a path. -/
def refreshDependents (w : Surroundings) (p : Path) (a : Activity) : Work :=
  diagnoseDependents w p a.session.dependencies.entries a

/-- Diagnose a document and all that depend on it. -/
def refresh (w : Surroundings) (uri : Address) (p : Path) (text : Text) (a : Activity) : Work :=
  match a.diagnose w uri p text with
  | (some f, a) => (some f, a)
  | (none, a) => a.refreshDependents w p

/-! ### What an editor tells -/

/-- A document was opened. It stands for its path from now on. -/
def opened (w : Surroundings) (uri : Address) (text : Text) (a : Activity) : Work :=
  let a := a.edit (·.setDocument uri text)
  match Uri.toPath uri with
  | .error f => (some f, a)
  | .ok p => (a.edit (·.setBuffer p uri)).refresh w uri p text

/-- A document has a new text. -/
def changed (w : Surroundings) (uri : Address) (text : Text) (a : Activity) : Work :=
  let a := a.edit (·.setDocument uri text)
  match Uri.toPath uri with
  | .error f => (some f, a)
  | .ok p => (a.edit (·.addBuffer p uri)).refresh w uri p text

/-- A document was saved. -/
def saved (w : Surroundings) (uri : Address) (a : Activity) : Work :=
  match a.session.documents.get? uri with
  | none => (none, a)
  | some text =>
    match Uri.toPath uri with
    | .error f => (some f, a)
    | .ok p => a.refresh w uri p text

/-- A document was closed. No document stands for its path from now on. -/
def closed (w : Surroundings) (uri : Address) (a : Activity) : Work :=
  if a.session.documents.has uri then
    let a := a.edit (·.removeDocument uri)
    match Uri.toPath uri with
    | .error f => (some f, a)
    | .ok p =>
      let a := a.edit fun s => (s.removeBuffer p).forget uri
      { a with renewed := a.renewed ++ [uri] }.refreshDependents w p
  else (none, a)

/-- The session began, possibly in the directory of a project. The first directory counts, and an
empty name does not. -/
def started (w : Surroundings) (root : Option Address) (a : Activity) : Work :=
  match root, a.session.root with
  | some (c :: uri), none =>
    match Uri.toPath (c :: uri) with
    | .error f => (some f, a)
    | .ok p =>
      let a := a.edit ({ · with root := some p })
      match Settings.load w.files w.environment (some p) with
      | .error f => (some f, a)
      | .ok (settings, log) =>
        (none, { a.edit (·.withSettings settings) with log := a.log ++ log })
  | _, _ => (none, a)

end Activity

end Editor

end ShaderInclude
