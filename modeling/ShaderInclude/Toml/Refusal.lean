/-!
# Refusals of TOML texts

A text may be refused although nothing is wrong with it as far as the format goes: its values may
be nested too deep, or a decimal integer in it may have too many digits.
-/

namespace ShaderInclude

namespace Toml

/-- Why a text is not read. -/
inductive Refusal where
  | malformed
  /-- A decimal integer has more digits than the limit. -/
  | integerTooLong (digits : Nat)
  /-- Values are nested deeper than the limit. -/
  | nestedTooDeep
deriving DecidableEq

/-- The greatest number of digits of a decimal integer. -/
def digitLimit : Nat := 4300

/-- The message of a refusal, for those that have one. -/
def Refusal.message? : Refusal → Option String
  | malformed => none
  | integerTooLong digits =>
    some ("Exceeds the limit (" ++ digitLimit.repr ++ " digits) for integer string conversion: "
      ++ "value has " ++ digits.repr
      ++ " digits; use sys.set_int_max_str_digits() to increase the limit")
  | nestedTooDeep => some "maximum recursion depth exceeded"

/-- What was read, or the refusal of a malformed text. -/
def orMalformed {α : Type} : Option α → Except Refusal α
  | some a => .ok a
  | none => .error .malformed

end Toml

end ShaderInclude
