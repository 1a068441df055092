import ShaderInclude.Settings.Basic
import ShaderInclude.Storage.FileTree
import ShaderInclude.Toml.Document

/-!
# Loading settings

The settings of a project are a table in its settings file, which need not exist; only its name
must not be too long to ask for. The file has to be UTF-8 and well-formed TOML, and what stands
where the table belongs has to be a table; a missing table is an empty one. The environment has
the last word.
-/

namespace ShaderInclude

namespace Settings

/-- The name of the settings file of a project. -/
def fileName : Path := Path.parse "pyproject.toml".toList

/-- The table of a key, which is empty if the key is missing. -/
def subtable (key : String) (table : Toml.Table) : Except Fault Toml.Table :=
  match Toml.Table.get? key.toList table with
  | none => .ok []
  | some (.table entries) => .ok entries
  | some _ => .error .settingsNotTable

/-- The settings in the bytes of a settings file. -/
def ofBytes (bytes : Bytes) : Except Fault (Settings × List LogLine) :=
  match Utf8.decode bytes with
  | .error _ => .error .settingsNotUtf8
  | .ok text =>
    match Toml.parse text with
    | .error refusal => .error (.settingsRefused refusal)
    | .ok document => do
      let tool ← subtable "tool" document
      let table ← subtable "wgsl-modules" tool
      return ofTable (.ofList table)

/-- The line that tells where settings were found. -/
def loadedLine (file : Path) : LogLine :=
  ⟨.debug, .settings, "Loaded wgsl-modules settings from ".toList ++ file.render⟩

/-- The settings of the project in a directory, or the ones given by default if there is no
project or it has no settings file; overridden by the environment. -/
def load (tree : FileTree) (e : Environment) (project : Option Path) :
    Except Fault (Settings × List LogLine) :=
  match project with
  | none => .ok (withEnvironment {} e, [])
  | some directory =>
    let file := directory.join fileName
    match tree.isFile file with
    | .error failure => .error (.access failure file)
    | .ok false => .ok (withEnvironment {} e, [])
    | .ok true =>
      match tree.read file with
      | .error failure => .error (.access failure file)
      | .ok bytes =>
        (ofBytes bytes).map fun (s, log) => (s.withEnvironment e, log ++ [loadedLine file])

end Settings

end ShaderInclude
