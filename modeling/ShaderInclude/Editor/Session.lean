import ShaderInclude.Module.Load
import ShaderInclude.Settings.Load
import ShaderInclude.Surroundings

/-!
# Editing sessions

An editor tells the program which documents it has open and what their texts are. A session keeps
these texts, the canonical paths they stand for, and what the last diagnosis of every document
found out. The text of an open document takes the place of the file at its path, for the document
itself and for all that include it.

A session has no access to files of its own: what it finds outside comes with every request.
-/

namespace ShaderInclude

namespace Editor

/-- The URI of a document, exactly as the editor writes it. -/
abbrev Address := Text

/-- An error in a document, and where it lies. -/
structure Diagnostic where
  span : Span
  message : Text
deriving DecidableEq

namespace Diagnostic

/-- The severity of all diagnostics: they are errors. -/
def severity : Nat := 1

/-- The name under which an editor shows diagnostics. -/
def source : String := "wgsl-modules"

end Diagnostic

/-- The state of a session. -/
structure Session where
  /-- The directory of the project, once it is known. -/
  root : Option Path
  settings : Settings
  /-- Whether flattened documents are handed to the tool. -/
  checking : Bool
  /-- The texts of the open documents. -/
  documents : OrderedMap Address Text
  /-- The document that stands for a canonical path. -/
  buffers : OrderedMap Path Address
  /-- The paths on which the last diagnosis of a document depends. -/
  dependencies : OrderedMap Address (List Path)
  /-- What the last diagnosis of a document found. -/
  diagnostics : OrderedMap Address (List Diagnostic)

namespace Session

/-- The session without documents. -/
def ofSettings (root : Option Path) (settings : Settings) : Session :=
  { root, settings, checking := settings.validate.isTrue, documents := .empty, buffers := .empty,
    dependencies := .empty, diagnostics := .empty }

/-- The session with other settings. Checking starts anew as they ask for. -/
def withSettings (s : Session) (settings : Settings) : Session :=
  { s with settings, checking := settings.validate.isTrue }

/-- A new session, with the given settings or those of the project. -/
def start (w : Surroundings) (root : Option Path) (given : Option Settings) :
    Except Fault (Session × List LogLine) :=
  match given with
  | some settings => .ok (ofSettings root settings, [])
  | none => (Settings.load w.files w.environment root).map fun (settings, log) =>
      (ofSettings root settings, log)

/-! ### Reading through a session -/

/-- The text of the open document that stands for a path. -/
def text? (s : Session) (p : Path) : Option Text := (s.buffers.get? p).bind s.documents.get?

/-- Reads a path: from the open document that stands for it, and from the files otherwise. -/
def reader (s : Session) (files : FileTree) : Reader := fun p =>
  match s.text? p with
  | some text => .ok text
  | none => files.readSource s.settings.sourceEncoding p

/-- Checks flattened documents as long as the session does so. It passes everything if the tool
cannot be started. -/
def validator? (s : Session) (run : Text → ToolRun) : Option Validator :=
  if s.checking then some ((Tool.ofSettings s.settings).validator run).waiving else none

/-- Loads documents as the session sees them. -/
def loader (s : Session) (w : Surroundings) : Loader :=
  ⟨s.reader w.files, s.validator? w.run, Loader.defaultLimit⟩

/-! ### Changes -/

/-- Keep the text of a document. -/
def setDocument (s : Session) (uri : Address) (text : Text) : Session :=
  { s with documents := s.documents.set uri text }

/-- Let a document stand for a path. -/
def setBuffer (s : Session) (p : Path) (uri : Address) : Session :=
  { s with buffers := s.buffers.set p uri }

/-- Let a document stand for a path for which none stands yet. -/
def addBuffer (s : Session) (p : Path) (uri : Address) : Session :=
  if s.buffers.has p then s else s.setBuffer p uri

/-- Forget the text of a document. -/
def removeDocument (s : Session) (uri : Address) : Session :=
  { s with documents := s.documents.erase uri }

/-- Let no document stand for a path. -/
def removeBuffer (s : Session) (p : Path) : Session := { s with buffers := s.buffers.erase p }

/-- Forget what a document depends on, and with it all diagnostics. -/
def forget (s : Session) (uri : Address) : Session :=
  { s with dependencies := s.dependencies.erase uri, diagnostics := s.diagnostics.set uri [] }

/-- Keep what a diagnosis of a document found. -/
def record (s : Session) (uri : Address) (dependencies : List Path)
    (diagnostics : List Diagnostic) : Session :=
  { s with
    dependencies := s.dependencies.set uri dependencies
    diagnostics := s.diagnostics.set uri diagnostics }

/-- The diagnostics kept for a document; none if it was never diagnosed. -/
def diagnosticsOf (s : Session) (uri : Address) : List Diagnostic :=
  (s.diagnostics.get? uri).getD []

end Session

end Editor

end ShaderInclude
