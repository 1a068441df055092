import ShaderInclude.Uri.FilePath

/-!
# A writer of URIs

The writer that the outer layer hands to a session. A path from `//` gives its first segment as the
authority; a relative path is written as if from the root; and a leading drive letter becomes small
and keeps its colon.
-/

namespace ShaderInclude

namespace Uri

namespace Writer

/-- The path part of a URI from a path that begins with a slash. -/
def pathPart : Text → Text
  | '/' :: c :: ':' :: t =>
    if c.isAlpha then '/' :: c.toLower :: ':' :: Percent.encode t
    else Percent.encode ('/' :: c :: ':' :: t)
  | t => Percent.encode t

/-- A text with a slash in front, unless it has one. -/
def withSlash : Text → Text
  | '/' :: t => '/' :: t
  | t => '/' :: t

/-- Writes all paths but those from `//` that have no second segment. -/
def standard : Writer
  | '/' :: '/' :: t =>
    match Text.cutAt '/' t with
    | (_, none) => .error (.noAddress "substring not found".toList)
    | (authority, some rest) =>
      .ok (some ("file://".toList ++ Percent.encode authority ++ pathPart ('/' :: rest)))
  | t => .ok (some ("file://".toList ++ pathPart (withSlash t)))

end Writer

end Uri

end ShaderInclude
