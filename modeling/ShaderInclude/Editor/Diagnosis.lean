import ShaderInclude.Editor.Session

/-!
# Diagnosing a document

A document is loaded into an empty cache, with the texts of the other open documents in place of
their files. If that fails with a finding, the document has one diagnostic, on the directive whose
module could not be resolved. Directives are resolved from the last to the first, and a module
that is resolved is cached, so this is the last directive whose target the cache lacks. Where
there is none, the diagnostic stands at the start of the document.

The diagnosis depends on every path that could change its outcome: the dependencies of the module,
and after a failure the targets of the document's own directives, all modules resolved until then,
and the path that the finding is about.
-/

namespace ShaderInclude

namespace Editor

/-- What a diagnosis of a document finds out. -/
structure Diagnosis where
  diagnostics : List Diagnostic
  /-- The paths on which the diagnosis depends. -/
  dependencies : List Path
  /-- What happened while the document was loaded. -/
  events : List Event

/-- The directives of a document with the paths to which they lead. -/
def targets (p : Path) (text : Text) : List (Directive × Path) :=
  (Directive.scan text).map fun d => (d, Path.target p.parent d.path)

/-- The last directive whose target is not cached. -/
def unresolved? (c : Cache) (p : Path) (text : Text) : Option Directive :=
  ((targets p text).reverse.find? fun t => !c.has t.2).map Prod.fst

/-- Where the failure to resolve a directive shows; without a directive, at the start. -/
def failureSpan (text : Text) : Option Directive → Span
  | some d => d.span (LineIndex.ofText text)
  | none => .atOrigin

/-- The paths on which a failed diagnosis depends. -/
def touched (c : Cache) (p : Path) (text : Text) (e : ModuleError) : List Path :=
  ((targets p text).map Prod.snd ++ c.paths ++ e.path?.toList).filter (· ≠ p)

/-- The diagnosis of a document that could not be loaded. -/
def Diagnosis.ofError (p : Path) (text : Text) (e : ModuleError) (s : CacheState) : Diagnosis :=
  ⟨[⟨failureSpan text (unresolved? s.cache p text), e.message⟩], touched s.cache p text e, s.events⟩

/-- The diagnosis of a document that was loaded. -/
def Diagnosis.ofModule (m : Module) (s : CacheState) : Diagnosis :=
  ⟨[], m.dependencies, s.events⟩

/-- The diagnosis of a text at a path. -/
def Session.diagnosis (s : Session) (w : Surroundings) (p : Path) (text : Text) :
    Except Fault Diagnosis :=
  match (s.loader w).loadAlone p (some text) with
  | (.ok m, state) => .ok (.ofModule m state)
  | (.error (.finding e), state) => .ok (.ofError p text e state)
  | (.error (.fault f), _) => .error f

end Editor

end ShaderInclude
