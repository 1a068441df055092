import ShaderInclude.CommandLine.Run
import ShaderInclude.Uri.Writer

/-!
# The program

The outer layer of the command line. The files that a run may look at are fetched into a file
tree, the run is computed, and what it wrote is stored. Which modules are looked at is known only
from the run itself, so it is repeated until it reads nothing that was not fetched.

There is no way here to start the validator's tool, so a run that wants a module checked reports
that the tool is missing.
-/

namespace ShaderInclude

namespace Main

/-- The path with its first names only, for every number of names. -/
def beginnings (p : Path) : List Path :=
  (List.range (p.names.length + 1)).map fun n => { p with names := p.names.take n }

/-- The location of a path, taken by its names alone. -/
def location (files : FileTree) (p : Path) : Location :=
  p.names.foldl (fun l n => if n = Name.up then l.dropLast else l ++ [n.text]) (files.base p)

/-- The node that is stored at a path, if there is one. -/
def stored (p : Path) : IO (Option Node) := do
  let place := (← IO.currentDir) / p.toString
  if ← place.isDir then return some (.directory 0)
  if ← place.pathExists then
    try return some (.file (← IO.FS.readBinFile place).toList 0 none)
    catch _ => return some (.file [] 0 (some .accessDenied))
  return none

/-- Fetch what is stored at a path and above it. -/
def fetch (files : FileTree) (p : Path) : IO FileTree :=
  (beginnings p).foldlM
    (fun files p => return match ← stored p with
      | some node => files.add (location files p) node
      | none => files)
    files

/-- The paths that a run of arguments is sure to look at. -/
def expected (arguments : List Text) : List Path :=
  match CommandLine.Invocation.parse arguments with
  | .error _ => []
  | .ok i =>
    let settings := i.projectRoot.map fun root => (Path.parse root).join Settings.fileName
    let written := match i.command with
      | .flatten (some d) => d.file :: d.depfile.toList
      | _ => []
    settings.toList ++ written.map Path.parse

/-- Run arguments on fetched files, and fetch more until nothing is missing. -/
partial def settle (arguments : List Text) (environment : Settings.Environment)
    (fetched : List Path) (files : FileTree) : IO CommandLine.Report := do
  let report := CommandLine.run arguments ⟨files, environment, fun _ => .notStarted, .standard⟩
  match report.reads.filter fun p => !fetched.contains p with
  | [] => return report
  | missing => settle arguments environment (missing ++ fetched) (← missing.foldlM fetch files)

/-- Store what a run wrote. -/
def store (files : FileTree) : IO Unit :=
  files.touched.forM fun l => do
    let place : String := String.ofList (l.flatMap ('/' :: ·))
    match files.nodes.get? l with
    | some (.file bytes _ _) => IO.FS.writeBinFile place ⟨bytes.toArray⟩
    | some (.directory _) => IO.FS.createDirAll place
    | none => return

/-- Run the program. -/
def run (arguments : List String) : IO UInt32 := do
  let arguments := arguments.map String.toList
  let environment : Settings.Environment :=
    ⟨(← IO.getEnv "WGSL_MODULES_NAGA").map String.toList,
      (← IO.getEnv "WGSL_MODULES_VALIDATE").map String.toList⟩
  let directory := Path.parse (← IO.currentDir).toString.toList
  let files := FileTree.ofWorkingDirectory (directory.names.map Name.text)
  let report ← settle arguments environment [] (← (expected arguments).foldlM fetch files)
  store report.files
  IO.print (String.ofList report.output)
  IO.eprint (String.ofList report.errorOutput)
  match report.status with
  | .ok status => return UInt32.ofNat status
  | .error fault =>
    IO.eprintln (fault.message?.getD "the settings cannot be used")
    return 1

end Main

end ShaderInclude

/-- The program's entry point. -/
def main (arguments : List String) : IO UInt32 := ShaderInclude.Main.run arguments
