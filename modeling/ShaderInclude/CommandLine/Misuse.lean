import ShaderInclude.Text.Quoted

/-!
# Misuse of the command line

What can be wrong with the arguments of the program, and how it is reported.
-/

namespace ShaderInclude

namespace CommandLine

/-- Texts with a separator between neighbours. -/
def separated (separator : String) (texts : List Text) : Text := separator.toList.intercalate texts

/-- What is wrong with the arguments. Switches are named by all their spellings. -/
inductive Misuse where
  /-- An abbreviation fits several spellings. -/
  | ambiguous (argument : Text) (spellings : List Text)
  /-- A switch lacks its value. -/
  | valueMissing (spellings : List Text)
  /-- A switch without a value is given one. -/
  | valueRefused (spellings : List Text) (value : Text)
  | commandMissing
  | commandUnknown (name : Text) (known : List Text)
  | pathMissing
  /-- Arguments that are of no use. -/
  | unrecognized (arguments : List Text)
  /-- A dependency rule is asked for, but no file that it could be about. -/
  | targetMissing
deriving DecidableEq

namespace Misuse

/-- The beginning of a message about an argument. -/
def about (name : Text) : Text := "argument ".toList ++ name ++ ": ".toList

/-- The message. -/
def message : Misuse → Text
  | ambiguous argument spellings =>
    "ambiguous option: ".toList ++ argument ++ " could match ".toList ++ separated ", " spellings
  | valueMissing spellings => about (separated "/" spellings) ++ "expected one argument".toList
  | valueRefused spellings value =>
    about (separated "/" spellings) ++ "ignored explicit argument ".toList ++ Text.quoted value
  | commandMissing => "the following arguments are required: command".toList
  | commandUnknown name known =>
    about "command".toList ++ "invalid choice: ".toList ++ Text.quoted name ++
      " (choose from ".toList ++ separated ", " (known.map Text.quoted) ++ [')']
  | pathMissing => "the following arguments are required: path".toList
  | unrecognized arguments => "unrecognized arguments: ".toList ++ separated " " arguments
  | targetMissing => "--depfile requires -o/--output".toList

end Misuse

end CommandLine

end ShaderInclude
