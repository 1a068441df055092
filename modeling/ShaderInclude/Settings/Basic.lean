import ShaderInclude.Fault
import ShaderInclude.Log
import ShaderInclude.OrderedMap
import ShaderInclude.Settings.Value

/-!
# Settings

The four settings of the program, how a table of a settings file is read into them, and how the
environment overrides them. A dash and an underscore are the same in the name of a setting, the
last of several values counts, and unknown names are reported and passed over. No value is
checked for its kind.
-/

namespace ShaderInclude

/-- The settings of the program. -/
structure Settings where
  /-- The command that checks flattened modules. -/
  executable : Value := .text (Text.ofString "naga")
  /-- Whether flattened modules are checked. -/
  validate : Value := .bool true
  /-- The encoding of sources. -/
  encoding : Value := .text (Text.ofString "utf-8")
  /-- How many seconds the check may take; absent for no limit. -/
  timeout : Value := .absent

namespace Settings

instance : Inhabited Settings := ⟨{}⟩

/-- Set a setting by its name with underscores, if there is one of the name. -/
def set? (s : Settings) (name : String) (v : Value) : Option Settings :=
  match name with
  | "naga_executable" => some { s with executable := v }
  | "validate" => some { s with validate := v }
  | "encoding" => some { s with encoding := v }
  | "validation_timeout" => some { s with timeout := v }
  | _ => none

/-- The name of a setting with its dashes turned into underscores. -/
def underscored (key : Text) : Text := key.map fun c => if c = '-' then '_' else c

/-- The line that reports an unknown setting. -/
def unknownLine (key : Text) : LogLine :=
  ⟨.warning, .settings, "Ignoring unknown wgsl-modules setting: ".toList ++ key⟩

/-- Take one entry of a table, noting an unknown name. -/
def take (state : Settings × List LogLine) (entry : Text × Value) : Settings × List LogLine :=
  match state.1.set? (String.ofList (underscored entry.1)) entry.2 with
  | some s => (s, state.2)
  | none => (state.1, state.2 ++ [unknownLine entry.1])

/-- The settings of a table, and the lines that report unknown names. -/
def ofTable (table : OrderedMap Text Value) : Settings × List LogLine :=
  table.entries.foldl take ({}, [])

/-! ### The environment -/

/-- The variables that override settings. -/
structure Environment where
  executable : Option Text := none
  validate : Option Text := none

/-- The words that switch the check off. -/
def offWords : List String := ["0", "false", "no", "off"]

/-- Whether the value of the variable asks for the check. -/
def asksToValidate (value : Text) : Bool :=
  !offWords.contains (String.ofList (Text.toLower (Text.strip value)))

/-- The settings as the environment overrides them. An empty name of a command does not count,
while any value for the check does. -/
def withEnvironment (s : Settings) (e : Environment) : Settings :=
  let s := match e.executable with
    | some (c :: name) => { s with executable := .text (c :: name) }
    | _ => s
  match e.validate with
  | some value => { s with validate := .bool (asksToValidate value) }
  | none => s

/-! ### The encoding of sources -/

/-- The encoding that the settings name; without one it is UTF-8. -/
def sourceEncoding (s : Settings) : Except EncodingError Encoding :=
  match s.encoding with
  | .absent => .ok .utf8
  | .text name =>
    if '\x00' ∈ name then .error .nullCharacter
    else match Encoding.named? name with
      | some e => .ok e
      | none => .error (.unknown name)
  | _ => .error .notText

end Settings

end ShaderInclude
