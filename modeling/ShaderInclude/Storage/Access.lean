import ShaderInclude.Encoding.Basic
import ShaderInclude.Path.Basic

/-!
# Why a storage refuses

The errors that a storage reports, with their customary numbers and wordings, and the failures of
an access: such an error, or a path that holds a null character and so cannot be passed on. A
read may fail further because the bytes are no text.
-/

namespace ShaderInclude

/-- An error that a storage reports. -/
inductive SystemError where
  | notPermitted
  | noEntry
  | inputOutput
  | accessDenied
  | exists_
  | notDirectory
  | isDirectory
  | nameTooLong
  | linkLoop
deriving DecidableEq

namespace SystemError

/-- Every error. -/
def all : List SystemError :=
  [notPermitted, noEntry, inputOutput, accessDenied, exists_, notDirectory, isDirectory,
    nameTooLong, linkLoop]

/-- The number of an error. -/
def number : SystemError → Nat
  | notPermitted => 1
  | noEntry => 2
  | inputOutput => 5
  | accessDenied => 13
  | exists_ => 17
  | notDirectory => 20
  | isDirectory => 21
  | nameTooLong => 36
  | linkLoop => 40

/-- The symbol of an error. -/
def symbol : SystemError → String
  | notPermitted => "EPERM"
  | noEntry => "ENOENT"
  | inputOutput => "EIO"
  | accessDenied => "EACCES"
  | exists_ => "EEXIST"
  | notDirectory => "ENOTDIR"
  | isDirectory => "EISDIR"
  | nameTooLong => "ENAMETOOLONG"
  | linkLoop => "ELOOP"

/-- The wording of an error. -/
def text : SystemError → String
  | notPermitted => "Operation not permitted"
  | noEntry => "No such file or directory"
  | inputOutput => "Input/output error"
  | accessDenied => "Permission denied"
  | exists_ => "File exists"
  | notDirectory => "Not a directory"
  | isDirectory => "Is a directory"
  | nameTooLong => "File name too long"
  | linkLoop => "Too many levels of symbolic links"

/-- The error of a symbol. -/
def ofSymbol? (symbol : String) : Option SystemError := all.find? fun e => e.symbol = symbol

end SystemError

/-- Why a path could not be accessed. -/
inductive AccessFailure where
  | system (error : SystemError)
  /-- The path holds a null character. -/
  | nullCharacter
deriving DecidableEq

/-- The wording of a failed access. -/
def AccessFailure.text : AccessFailure → String
  | system error => error.text
  | nullCharacter => "embedded null byte"

/-- Why a source could not be read. -/
inductive ReadFailure where
  | access (failure : AccessFailure)
  /-- The stored bytes are no text in the encoding. -/
  | malformed (bytes : Malformed)
  /-- The name of the encoding holds a null character. -/
  | nullInEncoding
deriving DecidableEq

/-- The wording of a failed read. -/
def ReadFailure.text : ReadFailure → String
  | access failure => failure.text
  | malformed bytes => bytes.message
  | nullInEncoding => "embedded null character"

end ShaderInclude
