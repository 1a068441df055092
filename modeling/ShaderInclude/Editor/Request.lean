import ShaderInclude.Editor.Activity
import ShaderInclude.Editor.Navigation

/-!
# Requests of an editor

`Session.serve` answers one request. Besides its answer a request has effects that the editor
sees: the diagnostics of the documents that it renewed are published, in the order in which that
happened, with the diagnostics that stand at the end. A request that ends with a fault publishes
nothing.
-/

namespace ShaderInclude

namespace Editor

/-- What an editor may say. -/
inductive Request where
  /-- The session begins, possibly in the directory of a project. -/
  | started (root : Option Address)
  | opened (uri : Address) (text : Text)
  /-- A document got one text after the other. -/
  | changed (uri : Address) (texts : List Text)
  | saved (uri : Address)
  | closed (uri : Address)
  | links (uri : Address)
  | definition (uri : Address) (position : Position)

/-- What an editor is told in return. -/
inductive Reply where
  | done
  | links (links : List Link)
  | definition (location : Option Location)

/-- The diagnostics of a document, as they are sent to the editor. -/
structure Publication where
  uri : Address
  diagnostics : List Diagnostic
deriving DecidableEq

/-- The answer to a request and its effects. -/
structure Response where
  reply : Except Fault Reply
  published : List Publication
  /-- The sources that were handed to the tool. -/
  checked : List Text
  log : List LogLine

/-- The response to a request that asks without changing anything. -/
def Response.quiet (reply : Except Fault Reply) : Response := ⟨reply, [], [], []⟩

/-- The publications of an activity. -/
def Activity.publications (a : Activity) : List Publication :=
  a.renewed.map fun uri => ⟨uri, a.session.diagnosticsOf uri⟩

/-- The response to a notice of the editor. -/
def Work.response : Work → Response
  | (none, a) => ⟨.ok .done, a.publications, a.checked, a.log⟩
  | (some f, a) => ⟨.error f, [], a.checked, a.log⟩

namespace Session

/-- Do some work on a session. -/
def perform (s : Session) (work : Activity → Work) : Response × Session :=
  let done := work (.ofSession s)
  (Work.response done, done.2.session)

/-- Answer a request. Of several texts of a document the last one counts. A position out of range
is refused before any document is looked at. -/
def serve (w : Surroundings) (s : Session) : Request → Response × Session
  | .started root => s.perform (Activity.started w root)
  | .opened uri text => s.perform (Activity.opened w uri text)
  | .changed uri texts =>
    match texts.getLast? with
    | none => (.quiet (.ok .done), s)
    | some text => s.perform (Activity.changed w uri text)
  | .saved uri => s.perform (Activity.saved w uri)
  | .closed uri => s.perform (Activity.closed w uri)
  | .links uri => (.quiet ((s.links w.writer uri).map .links), s)
  | .definition uri position =>
    match position.outOfRange? with
    | some (coordinate, value) => (.quiet (.error (.positionOutOfRange coordinate value)), s)
    | none => (.quiet ((s.definition w.writer uri position).map .definition), s)

end Session

end Editor

end ShaderInclude
