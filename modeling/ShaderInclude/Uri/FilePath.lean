import ShaderInclude.Fault
import ShaderInclude.Path.Normal
import ShaderInclude.Uri.Basic
import ShaderInclude.Uri.Percent

/-!
# File paths as URIs

The path that a URI names is its path part, decoded and made canonical; scheme and authority do
not matter.

How the URI of a path is written is up to whoever speaks with the editor: a writer decides about it,
and the program only falls back on a URI of its own where the writer has none. Writers differ from
each other, so a writer is a parameter wherever addresses are made.
-/

namespace ShaderInclude

namespace Uri

/-- The canonical path that a URI names. -/
def toPath (uri : Text) : Except Fault Path :=
  match Uri.parse uri with
  | .error reason => .error (.badAuthority reason)
  | .ok u => .ok (Path.canonical (Percent.decode u.path))

/-- Gives the URI of a path, if it has one for it. -/
abbrev Writer := Text → Except Fault (Option Text)

/-- The URI of a file without an authority, with its whole path encoded. -/
def ofFile (path : Text) : Text := "file://".toList ++ Percent.encode path

/-- The URI of a path that no writer knows. A relative path has none. -/
def ofAnchored (p : Path) : Except Fault Text :=
  if p.isAnchored then .ok (ofFile p.render)
  else .error (.noAddress "relative path can't be expressed as a file URI".toList)

/-- The URI of a path: the writer's, unless it is missing or empty. -/
def ofPath (write : Writer) (p : Path) : Except Fault Text :=
  match write p.render with
  | .error f => .error f
  | .ok (some (c :: uri)) => .ok (c :: uri)
  | .ok (some []) | .ok none => ofAnchored p

end Uri

end ShaderInclude
