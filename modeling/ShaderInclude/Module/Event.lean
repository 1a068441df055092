import ShaderInclude.Log
import ShaderInclude.Module.Basic
import ShaderInclude.Module.Error
import ShaderInclude.Validation.Basic

/-!
# What happens while modules are loaded

Every step of a load that concerns the outside, or that the log tells about, is an event. From
the events of a call one reads off which paths were read, which sources were checked and what the
log says.
-/

namespace ShaderInclude

/-- A step of a load. -/
inductive Event where
  /-- A source is requested from the reader. -/
  | read (path : Path)
  /-- An included module is loaded. -/
  | loading (path : Path)
  /-- An included module is taken from the cache. -/
  | reused (path : Path)
  /-- A directive of some module is replaced. -/
  | spliced (target : Path) (start stop : Nat)
  /-- A flattened source is handed to the validator. -/
  | checked (code : Text) (verdict : Verdict)
  /-- A cached module goes because it includes a replaced one. -/
  | evicted (path replaced : Path)
deriving DecidableEq

namespace Event

/-- The path that is read, if the event is a read. -/
def readPath? : Event → Option Path
  | read path => some path
  | _ => none

/-- The source that is checked, if the event is a check. -/
def checkedCode? : Event → Option Text
  | checked code _ => some code
  | _ => none

/-- Whether the event is a check that was waived. -/
def isWaived : Event → Bool
  | checked _ (.waived _) => true
  | _ => false

/-- The log's line about an event, if it has one. -/
def logLine? : Event → Option LogLine
  | loading path => some ⟨.debug, .cache, "Loading module ".toList ++ path.render⟩
  | reused path => some ⟨.debug, .cache, "Reusing cached module ".toList ++ path.render⟩
  | spliced target start stop =>
    some ⟨.debug, .modules, "Spliced ".toList ++ target.render ++ " into range ".toList ++
      Nat.toDigits 10 start ++ ':' :: Nat.toDigits 10 stop⟩
  | evicted path replaced =>
    some ⟨.debug, .cache, "Evicting ".toList ++ path.render ++
      ", it includes replaced module ".toList ++ replaced.render⟩
  | checked _ (.rejected _ (some report)) =>
    some ⟨.debug, .validation, "naga rejected flattened source: ".toList ++ report⟩
  | checked _ (.waived executable) =>
    some ⟨.warning, .editor, (ModuleError.toolMissing executable).message ++
      "; validation diagnostics are disabled".toList⟩
  | _ => none

end Event

end ShaderInclude
