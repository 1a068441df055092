import ShaderInclude.Decimal.Shortest
import ShaderInclude.Settings.Moment
import ShaderInclude.Text.Quoted

/-!
# Values of settings

A settings file may give any kind of value to any setting, and the program takes what it gets:
whether a value counts as true, and how it is shown in a message, is decided here for every kind.
-/

namespace ShaderInclude

/-- A value of a settings file, or the absence of one. -/
inductive Value where
  | absent
  | bool (b : Bool)
  | text (t : Text)
  | int (n : Int)
  | float (x : Binary64)
  | list (items : List Value)
  | table (entries : List (Text × Value))
  | moment (m : Moment)

namespace Value

instance : Inhabited Value := ⟨absent⟩

/-- Whether a value counts as true: false, zero, and everything empty do not. -/
def isTrue : Value → Bool
  | absent => false
  | bool b => b
  | text t => t ≠ []
  | int n => n ≠ 0
  | float x => !x.isZero
  | list items => !items.isEmpty
  | table entries => !entries.isEmpty
  | moment _ => true

/-- An integer in writing. -/
def intText (n : Int) : Text := n.repr.toList

mutual

/-- A value as it is shown inside another one. -/
def inner : Value → Text
  | absent => ['N', 'o', 'n', 'e']
  | bool true => ['T', 'r', 'u', 'e']
  | bool false => ['F', 'a', 'l', 's', 'e']
  | text t => t.quoted
  | int n => intText n
  | float x => x.text
  | list items => '[' :: innerItems items ++ [']']
  | table entries => '{' :: innerEntries entries ++ ['}']
  | moment m => m.expression

/-- Items with a comma and a space between neighbours. -/
def innerItems : List Value → Text
  | [] => []
  | [v] => inner v
  | v :: items => inner v ++ ',' :: ' ' :: innerItems items

/-- Entries with a comma and a space between neighbours. -/
def innerEntries : List (Text × Value) → Text
  | [] => []
  | [(k, v)] => Text.quoted k ++ ':' :: ' ' :: inner v
  | (k, v) :: entries =>
    Text.quoted k ++ ':' :: ' ' :: inner v ++ ',' :: ' ' :: innerEntries entries

end

/-- A value as it is shown in a message: a text as it is, a moment in writing, all else as inside
another value. -/
def shown : Value → Text
  | text t => t
  | moment m => m.textWith ' '
  | v => v.inner

end Value

end ShaderInclude
