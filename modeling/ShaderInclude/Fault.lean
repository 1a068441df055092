import ShaderInclude.Storage.Access
import ShaderInclude.Text.Position
import ShaderInclude.Text.Quoted
import ShaderInclude.Toml.Refusal

/-!
# Faults

A fault ends an operation without an answer. It is no finding about a module: the program does
not report it, it hands it on to whoever started the operation.
-/

namespace ShaderInclude

/-- Why the settings give no encoding. -/
inductive EncodingError where
  /-- There is no encoding of the name. -/
  | unknown (name : Text)
  /-- The name holds a null character. -/
  | nullCharacter
  /-- What stands in place of a name is not a text. -/
  | notText
deriving DecidableEq

/-- What ends an operation without an answer. -/
inductive Fault where
  /-- The settings give no encoding. -/
  | encoding (error : EncodingError)
  /-- A text to be written has a character that the encoding lacks. -/
  | unencodable
  /-- Modules include each other deeper than the limit. -/
  | nestingTooDeep
  /-- An access outside the reading of modules failed. -/
  | access (failure : AccessFailure) (path : Path)
  /-- A settings file is not UTF-8. -/
  | settingsNotUtf8
  /-- A settings file is not read. -/
  | settingsRefused (refusal : Toml.Refusal)
  /-- A settings file has something else where the table of settings belongs. -/
  | settingsNotTable
  /-- An address whose authority is not acceptable. -/
  | badAuthority (reason : Text)
  /-- A path that cannot be written as an address. -/
  | noAddress (reason : Text)
  /-- A project is asked for, but not named. -/
  | projectUnnamed
  /-- A position that an editor cannot be told. -/
  | positionOutOfRange (coordinate : Coordinate) (value : Int)
deriving DecidableEq

/-- The message of a fault, for those that have one. -/
def Fault.message? : Fault → Option String
  | encoding (.unknown name) => some ("unknown encoding: " ++ String.ofList name)
  | encoding .nullCharacter => some ReadFailure.nullInEncoding.text
  | nestingTooDeep => some "maximum recursion depth exceeded"
  | access (.system error) path =>
    some ("[Errno " ++ error.number.repr ++ "] " ++ error.text ++ ": "
      ++ String.ofList (Text.quoted path.render))
  | access .nullCharacter _ => some AccessFailure.nullCharacter.text
  | badAuthority reason | noAddress reason => some (String.ofList reason)
  | settingsRefused refusal => refusal.message?
  | positionOutOfRange coordinate value =>
    some ("Position." ++ coordinate.text ++ " should be in range [0:" ++ Position.limit.repr
      ++ "], but was " ++ value.repr ++ ".")
  | encoding .notText | unencodable | settingsNotUtf8 | settingsNotTable | projectUnnamed => none

end ShaderInclude
