import ShaderInclude.Fault
import ShaderInclude.Storage.FileTree

/-!
# Reading a source

A source is opened, then its encoding is looked up, then it is decoded as a whole, and last its
line ends are made uniform. So a file that cannot be opened is reported as such even if the
encoding does not exist either, or is no name at all.
-/

namespace ShaderInclude

/-- Why a source is not available: a failure to read it, or a fault that is none of its own. -/
inductive SourceError where
  | failed (failure : ReadFailure)
  | fault (fault : Fault)
deriving DecidableEq

/-- Gives the text of a path. One reader serves one call, so a source that changes between calls
is a matter of using another reader. -/
abbrev Reader := Path → Except SourceError Text

/-- The text of stored bytes in an encoding, with uniform line ends. -/
def textOfBytes (e : Encoding) (bytes : Bytes) : Except SourceError Text :=
  match e.decode bytes with
  | .error m => .error (.failed (.malformed m))
  | .ok t => .ok t.unixLines

/-- The text of a file in an encoding, which may be missing. -/
def FileTree.readSource (t : FileTree) (encoding : Except EncodingError Encoding) : Reader :=
  fun p =>
    match t.read p with
    | .error failure => .error (.failed (.access failure))
    | .ok bytes =>
      match encoding with
      | .error .nullCharacter => .error (.failed .nullInEncoding)
      | .error e => .error (.fault (.encoding e))
      | .ok e => textOfBytes e bytes

end ShaderInclude
