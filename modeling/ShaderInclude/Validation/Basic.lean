import ShaderInclude.Settings.Basic

/-!
# Checking flattened modules

A validator gives its verdict on a flattened source. The usual one runs an external tool that
reads the source from its standard input. How a run of the tool ended determines the verdict: a
status of zero accepts, any other status rejects with what the tool wrote to its error output, or
failing that to its standard output, or failing that with the status.
-/

namespace ShaderInclude

/-- What a validator says about a source. -/
inductive Verdict where
  | accepted
  /-- The source is refused with a message. A tool that ended by itself has also reported
  something, possibly nothing but blanks. -/
  | rejected (message : Text) (report : Option Text)
  /-- The tool could not be started. -/
  | toolMissing (executable : Text)
  /-- The tool could not be started, and the source passes for want of it. -/
  | waived (executable : Text)
deriving DecidableEq

/-- Gives a verdict on the flattened source of a module. -/
abbrev Validator := Text → Verdict

/-- How a run of the tool ended. -/
inductive ToolRun where
  | notStarted
  | timedOut
  | exited (status : Int) (errorOutput output : Text)

/-- The tool as the settings call it. -/
structure Tool where
  executable : Value
  timeout : Value

namespace Tool

/-- The tool that the settings name. -/
def ofSettings (s : Settings) : Tool := ⟨s.executable, s.timeout⟩

/-- The file name under which the tool gets the source. -/
def inputName : Text := "module.wgsl".toList

/-- The command line of the tool. -/
def command (tool : Tool) : List Value :=
  [tool.executable, .text "--stdin-file-path".toList, .text inputName]

/-- The verdict that a run of the tool amounts to. -/
def verdict (tool : Tool) : ToolRun → Verdict
  | .notStarted => .toolMissing tool.executable.shown
  | .timedOut =>
    .rejected ("validation timed out after ".toList ++ tool.timeout.shown ++ " seconds".toList) none
  | .exited status errorOutput output =>
    if status = 0 then .accepted
    else
      let report := Text.strip (if errorOutput = [] then output else errorOutput)
      .rejected
        (if report = [] then "naga exited with status ".toList ++ Value.intText status else report)
        (some report)

/-- The validator that runs the tool. -/
def validator (tool : Tool) (run : Text → ToolRun) : Validator := fun source =>
  tool.verdict (run source)

end Tool

/-- The validator that the settings ask for. -/
def Settings.validator? (s : Settings) (run : Text → ToolRun) : Option Validator :=
  if s.validate.isTrue then some ((Tool.ofSettings s).validator run) else none

/-- A tool with a prepared answer: it ends as prepared on sources that hold a marker, and accepts
all others. Without a marker it always ends as prepared. -/
def ToolRun.onMarker (marker : Option Text) (prepared : ToolRun) (source : Text) : ToolRun :=
  match marker with
  | some m => if Text.hasPart m source then prepared else .exited 0 [] []
  | none => prepared

/-- The validator that lets a source pass where the tool cannot be started. -/
def Validator.waiving (validator : Validator) : Validator := fun source =>
  match validator source with
  | .toolMissing executable => .waived executable
  | verdict => verdict

/-- The validator that refuses sources that hold a marker, and accepts all others. Without a marker
it accepts everything. -/
def Validator.refusing (marker : Option Text) : Validator := fun source =>
  match marker with
  | some m =>
    if Text.hasPart m source then
      .rejected ("error: unexpected '".toList ++ m ++ "'".toList) none
    else .accepted
  | none => .accepted

end ShaderInclude
