import ShaderInclude.CommandLine.Misuse
import ShaderInclude.Text.Digit

/-!
# Switches among the arguments

A switch has one or more spellings: short ones, a dash and a letter, and long ones, two dashes and
a name. A long spelling may be abbreviated as long as one switch only is meant. A value follows in
the next argument or is attached: after an equals sign, or right after a short spelling. Short
switches without value may be written together, also with an equals sign after the first. An
attached `--` stands for no value at all.

An argument is first read on its own. It is an operand unless it begins with a dash; and also a
single dash, a negative number, and what begins with a dash but holds a space are operands. After
the argument `--` everything is an operand. Only then are switches taken together with values.
-/

namespace ShaderInclude

namespace CommandLine

/-- A switch, with the key under which it is known to the program. -/
structure Switch (κ : Type) where
  key : κ
  spellings : List Text
  takesValue : Bool

/-- What an argument is on its own. -/
inductive Sense (κ : Type) where
  | operand
  /-- The argument `--`. -/
  | terminator
  | switch (switch : Switch κ) (spelling : Text) (attached : Option Text)
  /-- It looks like a switch, but there is none. -/
  | unknown

/-- An argument that has been read. -/
structure Token (κ : Type) where
  text : Text
  sense : Sense κ

variable {κ : Type}

namespace Switch

/-- The switch of a spelling. -/
def find? (switches : List (Switch κ)) (spelling : Text) : Option (Switch κ) :=
  switches.find? fun s => s.spellings.contains spelling

/-- All spellings that pass a test, with their switches. -/
def spelled (switches : List (Switch κ)) (test : Text → Bool) : List (Switch κ × Text) :=
  switches.flatMap fun s => (s.spellings.filter test).map (s, ·)

end Switch

/-! ### Reading single arguments -/

/-- Digits, possibly with a decimal point before the last run of them. -/
def isUnsignedNumber (t : Text) : Bool :=
  match t.dropWhile Text.isDecimalDigit with
  | [] => t ≠ []
  | '.' :: fraction => fraction ≠ [] && fraction.all Text.isDecimalDigit
  | _ => false

/-- A negative number; a newline after it does no harm. -/
def isNegativeNumber : Text → Bool
  | '-' :: t => isUnsignedNumber t || (t.getLast? = some '\n' && isUnsignedNumber t.dropLast)
  | _ => false

/-- The switches that an argument might mean that is not one of their spellings, nor one of them
with an equals sign and a value: those that it abbreviates, or the short one to which it attaches
a value. -/
def meant (switches : List (Switch κ)) (t : Text) : List (Switch κ × Text × Option Text) :=
  match t with
  | '-' :: '-' :: _ =>
    let (name, value) := Text.cutAt '=' t
    (Switch.spelled switches name.isPrefixOf).map fun (s, spelling) => (s, spelling, value)
  | _ =>
    (Switch.spelled switches (· = t.take 2)).map fun (s, spelling) =>
      (s, spelling, some (t.drop 2))

/-- The switch that is spelled out in an argument before an equals sign, with the value. -/
def assigned? (switches : List (Switch κ)) (t : Text) : Option (Switch κ × Text × Text) :=
  match Text.cutAt '=' t with
  | (name, some value) => (Switch.find? switches name).map (·, name, value)
  | (_, none) => none

/-- Read an argument that begins with a dash. -/
def senseOfDashed (switches : List (Switch κ)) (t : Text) : Except Misuse (Sense κ) :=
  match Switch.find? switches t with
  | some s => .ok (.switch s t none)
  | none =>
    if t = ['-'] then .ok .operand
    else match assigned? switches t with
      | some (s, spelling, value) => .ok (.switch s spelling (some value))
      | none =>
        match meant switches t with
        | [(s, spelling, attached)] => .ok (.switch s spelling attached)
        | [] => .ok (if isNegativeNumber t || t.contains ' ' then .operand else .unknown)
        | several => .error (.ambiguous t (several.map (·.2.1)))

/-- Read an argument. -/
def senseOf (switches : List (Switch κ)) : Text → Except Misuse (Sense κ)
  | '-' :: t => senseOfDashed switches ('-' :: t)
  | _ => .ok .operand

/-- Read all arguments. -/
def tokens (switches : List (Switch κ)) : List Text → Except Misuse (List (Token κ))
  | [] => .ok []
  | t :: arguments =>
    if t = ['-', '-'] then .ok (⟨t, .terminator⟩ :: arguments.map (⟨·, .operand⟩))
    else do
      let sense ← senseOf switches t
      return ⟨t, sense⟩ :: (← tokens switches arguments)

/-! ### Taking values -/

/-- What an argument with switches comes to. -/
structure Taken (κ : Type) where
  /-- The switches, with their values as far as they have one. -/
  given : List (κ × Option Text)
  /-- How many of the arguments after it were taken as values. -/
  skip : Nat

/-- Put a switch without value before what else is taken. -/
def Taken.after (t : Taken κ) (key : κ) : Taken κ := { t with given := (key, none) :: t.given }

/-- Take a switch without attached value from in front of other arguments. -/
def takeAlone (s : Switch κ) (rest : List (Token κ)) : Except Misuse (Taken κ) :=
  if s.takesValue then
    match rest with
    | ⟨value, .operand⟩ :: _ => .ok ⟨[(s.key, some value)], 1⟩
    | _ => .error (.valueMissing s.spellings)
  else .ok ⟨[(s.key, none)], 0⟩

/-- Whether a spelling is a long one. -/
def isLong (spelling : Text) : Bool := ['-', '-'].isPrefixOf spelling

/-- The value that an attached text stands for. -/
def attachedValue (t : Text) : Option Text := if t = ['-', '-'] then none else some t

/-- Take a switch with an attached text. If the switch takes no value and its spelling is short,
the text is a series of further short switches, of which the last may have a value. -/
def takeAttached (switches : List (Switch κ)) (rest : List (Token κ)) (s : Switch κ)
    (spelling attached : Text) : Except Misuse (Taken κ) :=
  if s.takesValue then .ok ⟨[(s.key, attachedValue attached)], 0⟩
  else match attached with
    | [] => .error (.valueRefused s.spellings [])
    | c :: more =>
      if isLong spelling then .error (.valueRefused s.spellings (c :: more))
      else match Switch.find? switches ['-', c], more with
        | none, more => .error (.valueRefused s.spellings (c :: more))
        | some s', [] => (takeAlone s' rest).map (·.after s.key)
        | some s', d :: more =>
          (takeAttached switches rest s' ['-', c] (d :: more)).map (·.after s.key)
termination_by attached.length

/-- Take a switch, with an attached text if there is one, from in front of other arguments. -/
def take (switches : List (Switch κ)) (rest : List (Token κ)) (s : Switch κ) (spelling : Text) :
    Option Text → Except Misuse (Taken κ)
  | none => takeAlone s rest
  | some attached => takeAttached switches rest s spelling attached

end CommandLine

end ShaderInclude
