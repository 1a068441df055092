import ShaderInclude.CommandLine.Switch

/-!
# Invocations of the program

An invocation consists of switches that hold for the whole program, a command, and the command's
own switches together with the path of a module. `Invocation.parse` finds it in the arguments.

The command is the first operand, and all arguments after it belong to the command. Switches of
the command may stand before and after the path. What is of no use is collected and reported once
everything else is in order.
-/

namespace ShaderInclude

namespace CommandLine

/-- The switches of the program and of its commands. -/
inductive Key where
  | help
  | projectRoot
  | verbose
  | output
  | depfile
  | noValidate
deriving DecidableEq

/-- The switch of a key. -/
def Key.switch : Key → Switch Key
  | help => ⟨help, ["-h".toList, "--help".toList], false⟩
  | projectRoot => ⟨projectRoot, ["--project-root".toList], true⟩
  | verbose => ⟨verbose, ["-v".toList, "--verbose".toList], false⟩
  | output => ⟨output, ["-o".toList, "--output".toList], true⟩
  | depfile => ⟨depfile, ["--depfile".toList], true⟩
  | noValidate => ⟨noValidate, ["--no-validate".toList], false⟩

/-- The commands by name. -/
inductive CommandName where
  | flatten
  | deps
deriving DecidableEq

namespace CommandName

/-- All commands. -/
def all : List CommandName := [flatten, deps]

/-- The name in writing. -/
def text : CommandName → Text
  | flatten => "flatten".toList
  | deps => "deps".toList

/-- The command of a name. -/
def ofText? (t : Text) : Option CommandName := all.find? fun name => name.text = t

/-- The switches of a command. -/
def switches : CommandName → List (Switch Key)
  | flatten => [Key.help, .output, .depfile, .noValidate].map Key.switch
  | deps => [Key.help, .noValidate].map Key.switch

end CommandName

/-- The switches of the program. -/
def programSwitches : List (Switch Key) := [Key.help, .projectRoot, .verbose].map Key.switch

/-- The name of the program. -/
def programName : Text := "wgsl-modules".toList

/-- Why no invocation results: help is asked for, or the arguments are wrong. The part of the
program that finds fault is named. -/
inductive Halt where
  | help
  | misuse (speaker : Text) (error : Misuse)
  /-- The switch for the project has no value. -/
  | projectUnnamed

/-! ### Collecting -/

/-- What has been found among the arguments. -/
structure Collected where
  given : List (Key × Option Text) := []
  operand : Option Text := none
  unrecognized : List Text := []

namespace Collected

/-- Note an argument that is of no use. -/
def refuse (c : Collected) (t : Text) : Collected :=
  { c with unrecognized := c.unrecognized ++ [t] }

/-- Note switches. -/
def add (c : Collected) (t : Taken Key) : Collected :=
  { c with given := c.given ++ t.given }

/-- Whether a switch was given. -/
def has (c : Collected) (key : Key) : Bool := c.given.any fun g => g.1 = key

/-- The value of a switch where it was given last, if it has one there. -/
def value? (c : Collected) (key : Key) : Option Text :=
  (c.given.reverse.find? fun g => g.1 = key).bind Prod.snd

end Collected

/-- Take a switch. A demand for help ends the collection. -/
def collectSwitch (speaker : Text) (switches : List (Switch Key)) (rest : List (Token Key))
    (s : Switch Key) (spelling : Text) (attached : Option Text) (c : Collected) :
    Except Halt (Collected × Nat) :=
  match take switches rest s spelling attached with
  | .error e => .error (.misuse speaker e)
  | .ok taken =>
    if taken.given.any fun g => g.1 = .help then .error .help
    else .ok (c.add taken, taken.skip)

/-- Collect the switches in front of the first operand, and return it with all that follows. -/
def collectUpToOperand (speaker : Text) (switches : List (Switch Key)) :
    List (Token Key) → Collected → Except Halt (Collected × List Text)
  | [], c => .ok (c, [])
  | ⟨t, .unknown⟩ :: rest, c => collectUpToOperand speaker switches rest (c.refuse t)
  | ⟨_, .switch s spelling attached⟩ :: rest, c =>
    match collectSwitch speaker switches rest s spelling attached c with
    | .error halt => .error halt
    | .ok (c, skip) => collectUpToOperand speaker switches (rest.drop skip) c
  | ⟨t, .operand⟩ :: rest, c | ⟨t, .terminator⟩ :: rest, c => .ok (c, t :: rest.map Token.text)
termination_by tokens => tokens.length
decreasing_by
  · simp
  · simp only [List.length_drop, List.length_cons]
    omega

/-- What follows an operand, without a terminator right after it. -/
def afterOperand : List (Token Key) → List (Token Key)
  | ⟨_, .terminator⟩ :: rest => rest
  | rest => rest

theorem length_afterOperand_le (rest : List (Token Key)) :
    (afterOperand rest).length ≤ rest.length := by
  unfold afterOperand
  split <;> simp

/-- Collect switches and one operand. A terminator next to the operand does not count. -/
def collect (speaker : Text) (switches : List (Switch Key)) :
    List (Token Key) → Collected → Except Halt Collected
  | [], c => .ok c
  | ⟨t, .unknown⟩ :: rest, c => collect speaker switches rest (c.refuse t)
  | ⟨_, .switch s spelling attached⟩ :: rest, c =>
    match collectSwitch speaker switches rest s spelling attached c with
    | .error halt => .error halt
    | .ok (c, skip) => collect speaker switches (rest.drop skip) c
  | ⟨t, .operand⟩ :: rest, c =>
    match c.operand with
    | none => collect speaker switches (afterOperand rest) { c with operand := some t }
    | some _ => collect speaker switches rest (c.refuse t)
  | ⟨t, .terminator⟩ :: rest, c =>
    collect speaker switches rest
      (if c.operand = none ∧ !rest.isEmpty then c else c.refuse t)
termination_by tokens => tokens.length
decreasing_by
  · simp
  · simp only [List.length_drop, List.length_cons]
    omega
  · have := length_afterOperand_le rest
    simp only [List.length_cons]
    omega
  · simp
  · simp

/-! ### Invocations -/

/-- Where a flattened module goes. -/
structure Destination where
  file : Text
  /-- A file for the dependency rule of the flattened module. -/
  depfile : Option Text

/-- What the program is to do with a module. -/
inductive Command where
  /-- Write the flattened module, by default to the standard output. -/
  | flatten (destination : Option Destination)
  /-- List the paths of all modules included. -/
  | deps

/-- A complete demand on the program. -/
structure Invocation where
  projectRoot : Option Text
  verbose : Bool
  validate : Bool
  command : Command
  /-- The path of the module. -/
  path : Text

namespace Invocation

/-- The command of its name and switches. An empty file name counts as none. -/
def commandOf (name : CommandName) (c : Collected) : Except Misuse Command :=
  match name with
  | .deps => .ok .deps
  | .flatten =>
    let depfile := (c.value? .depfile).filter (· ≠ [])
    match (c.value? .output).filter (· ≠ []), depfile with
    | some file, depfile => .ok (.flatten (some ⟨file, depfile⟩))
    | none, none => .ok (.flatten none)
    | none, some _ => .error .targetMissing

/-- Collect the arguments of a part of the program. -/
def collectFor (speaker : Text) (switches : List (Switch Key)) {α : Type}
    (collector : List (Token Key) → Collected → Except Halt α) (arguments : List Text) :
    Except Halt α :=
  match tokens switches arguments with
  | .error e => .error (.misuse speaker e)
  | .ok tokens => collector tokens {}

/-- The invocation that was collected. -/
def ofCollected (program : Collected) (name : CommandName) (path : Text) (c : Collected) :
    Except Halt Invocation :=
  match program.unrecognized ++ c.unrecognized with
  | [] =>
    match commandOf name c with
    | .error e => .error (.misuse programName e)
    | .ok command =>
      let projectRoot := program.value? .projectRoot
      if projectRoot.isNone && program.has .projectRoot then .error .projectUnnamed
      else .ok {
        projectRoot
        verbose := program.has .verbose
        validate := !c.has .noValidate
        command
        path }
  | arguments => .error (.misuse programName (.unrecognized arguments))

/-- The invocation with a given command, from the arguments after it. -/
def ofCommand (program : Collected) (name : CommandName) (arguments : List Text) :
    Except Halt Invocation :=
  let speaker := programName ++ ' ' :: name.text
  match collectFor speaker name.switches (collect speaker name.switches) arguments with
  | .error halt => .error halt
  | .ok c =>
    match c.operand with
    | none => .error (.misuse speaker .pathMissing)
    | some path => ofCollected program name path c

/-- The invocation that arguments ask for. -/
def parse (arguments : List Text) : Except Halt Invocation :=
  match collectFor programName programSwitches (collectUpToOperand programName programSwitches)
      arguments with
  | .error halt => .error halt
  | .ok (_, []) | .ok (_, [['-', '-']]) => .error (.misuse programName .commandMissing)
  | .ok (program, name :: arguments) =>
    match CommandName.ofText? name with
    | none =>
      .error (.misuse programName (.commandUnknown name (CommandName.all.map CommandName.text)))
    | some name => ofCommand program name arguments

end Invocation

end CommandLine

end ShaderInclude
