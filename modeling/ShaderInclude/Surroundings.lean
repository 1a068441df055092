import ShaderInclude.Storage.FileTree
import ShaderInclude.Uri.FilePath
import ShaderInclude.Validation.Basic

/-!
# What the program finds outside

The program has no access to the outside of its own. The stored files, the environment, the
behaviour of the validator's tool and the way in which addresses are written are handed to it as
values, and what it writes it hands back.
-/

namespace ShaderInclude

/-- What the program finds outside. -/
structure Surroundings where
  files : FileTree
  environment : Settings.Environment
  /-- How a run of the validator's tool on a source ends. -/
  run : Text → ToolRun
  /-- How the paths of files are written for an editor. -/
  writer : Uri.Writer

end ShaderInclude
