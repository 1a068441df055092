import ShaderInclude.Editor.Diagnosis
import ShaderInclude.Uri.FilePath

/-!
# Finding the way from a directive to its module

Every directive of an open document is a link to the module that it names, and the definition of
the directive at a position is the start of that module. The address of a module is what the writer
makes of its path.
-/

namespace ShaderInclude

namespace Editor

/-- A stretch of a document that leads to another one. -/
structure Link where
  span : Span
  target : Address
  /-- The path as it is written in the directive. -/
  tooltip : Text
deriving DecidableEq

/-- A place in some document. -/
structure Location where
  address : Address
  span : Span
deriving DecidableEq

namespace Session

/-- The links of a text at a path. -/
def linksOf (write : Uri.Writer) (p : Path) (text : Text) : Except Fault (List Link) :=
  (targets p text).mapM fun (d, target) => do
    return ⟨d.span (LineIndex.ofText text), ← Uri.ofPath write target, d.path⟩

/-- The links of a document; a document that is not open has none. -/
def links (s : Session) (write : Uri.Writer) (uri : Address) : Except Fault (List Link) :=
  match s.documents.get? uri with
  | none => .ok []
  | some text => do linksOf write (← Uri.toPath uri) text

/-- Where the first directive at a position leads, in a text at a path. -/
def definitionOf (write : Uri.Writer) (p : Path) (text : Text) (position : Position) :
    Except Fault (Option Location) :=
  match (targets p text).find? fun t => (t.1.span (LineIndex.ofText text)).contains position with
  | none => .ok none
  | some (_, target) => do return some ⟨← Uri.ofPath write target, .atOrigin⟩

/-- Where the first directive at a position of a document leads. -/
def definition (s : Session) (write : Uri.Writer) (uri : Address) (position : Position) :
    Except Fault (Option Location) :=
  match s.documents.get? uri with
  | none => .ok none
  | some text => do definitionOf write (← Uri.toPath uri) text position

end Session

end Editor

end ShaderInclude
