import ShaderInclude.Settings.Value
import ShaderInclude.Toml.Lexical
import ShaderInclude.Toml.Refusal

/-!
# Numbers, dates and times of TOML

Digits may be grouped by single underscores. A number takes as much of the text as it can; what
does not belong to it is left for the caller to refuse. A decimal integer has a greatest number of
digits. A date must exist in the calendar; digits of a second beyond the sixth place are dropped.
-/

namespace ShaderInclude

namespace Toml

/-! ### Numbers -/

/-- Digits of a class and single underscores between them, without the underscores. -/
def digitRun (isDigit : Char → Bool) : Text → Text × Text
  | c :: t =>
    if isDigit c then
      let (s, rest) := digitRun isDigit t
      (c :: s, rest)
    else if c = '_' ∧ t.head?.any isDigit then digitRun isDigit t
    else ([], c :: t)
  | [] => ([], [])

/-- A run of digits that begins with one. -/
def digits? (isDigit : Char → Bool) (t : Text) : Option (Text × Text) :=
  if t.head?.any isDigit then some (digitRun isDigit t) else none

/-- The number that digits write in a base. -/
def natOf (base : Nat) (digits : Text) : Nat :=
  digits.foldl (fun n c => n * base + (Text.hexValue? c).getD 0) 0

/-- A digit of a base up to sixteen. -/
def isDigitOf (base : Nat) (c : Char) : Bool := (Text.hexValue? c).any (· < base)

/-- A whole number written in base sixteen, eight or two. -/
def based? : Read Value
  | '0' :: 'x' :: t => read 16 t
  | '0' :: 'o' :: t => read 8 t
  | '0' :: 'b' :: t => read 2 t
  | _ => none
where
  /-- The digits of a base. -/
  read (base : Nat) (t : Text) : Option (Value × Text) :=
    (digits? (isDigitOf base) t).map fun (s, rest) => (.int (natOf base s), rest)

/-- An optional sign: whether it is a minus, and the text after it. -/
def sign : Text → Bool × Text
  | '-' :: t => (true, t)
  | '+' :: t => (false, t)
  | t => (false, t)

/-- The whole part of a decimal number: zero alone, or digits that begin with another one. -/
def wholePart : Read Text
  | '0' :: t => some (['0'], t)
  | t => digits? Char.isDigit t

/-- The fraction of a decimal number, if there is one. -/
def fraction? : Read Text
  | '.' :: t => digits? Char.isDigit t
  | _ => none

/-- The exponent of a decimal number, if there is one. -/
def exponent? : Read Int
  | c :: t =>
    if c = 'e' ∨ c = 'E' then
      let (negative, t) := sign t
      (digits? Char.isDigit t).map fun (s, rest) =>
        (if negative then -(natOf 10 s : Int) else natOf 10 s, rest)
    else none
  | [] => none

/-- A decimal number as it is written. -/
structure Decimal where
  negative : Bool
  whole : Text
  fraction : Option Text
  exponent : Option Int

namespace Decimal

/-- The number as a floating point number. -/
def toBinary64 (d : Decimal) : Binary64 :=
  let places := d.fraction.getD []
  .ofDecimal d.negative (natOf 10 (d.whole ++ places)) (d.exponent.getD 0 - places.length)

/-- The value, which is an integer if there is neither fraction nor exponent. Only an integer can
have too many digits. -/
def value (d : Decimal) : Except Refusal Value :=
  if d.fraction.isSome || d.exponent.isSome then .ok (.float d.toBinary64)
  else if d.whole.length ≤ digitLimit then
    let n : Int := natOf 10 d.whole
    .ok (.int (if d.negative then -n else n))
  else .error (.integerTooLong d.whole.length)

end Decimal

/-- A decimal number. -/
def decimal? (t : Text) : Option (Decimal × Text) := do
  let (negative, t) := sign t
  let (whole, t) ← wholePart t
  let (fraction, t) := ((fraction? t).map fun (s, rest) => (some s, rest)).getD (none, t)
  let (exponent, t) := ((exponent? t).map fun (e, rest) => (some e, rest)).getD (none, t)
  return (⟨negative, whole, fraction, exponent⟩, t)

/-- An infinity or no number. -/
def special (t : Text) : Option (Value × Text) :=
  match sign t with
  | (negative, 'i' :: 'n' :: 'f' :: rest) => some (.float (.infinite negative), rest)
  | (_, 'n' :: 'a' :: 'n' :: rest) => some (.float .nan, rest)
  | _ => none

/-! ### Dates and times -/

/-- A number of exactly `n` digits. -/
def fixedDigits (n : Nat) (t : Text) : Option (Nat × Text) :=
  let s := t.take n
  if s.length = n ∧ s.all Char.isDigit then some (natOf 10 s, t.drop n) else none

/-- The number of exactly two digits, not above a bound. -/
def twoDigits (bound : Nat) (t : Text) : Option (Nat × Text) := do
  let (n, t) ← fixedDigits 2 t
  if n ≤ bound then some (n, t) else none

/-- A date. Text that only looks like one is refused. -/
def date (t : Text) : Option (Date × Text) := do
  let (year, t) ← fixedDigits 4 t
  let t ← Text.after? ['-'] t
  let (month, t) ← fixedDigits 2 t
  let t ← Text.after? ['-'] t
  let (day, t) ← fixedDigits 2 t
  let d ← Date.ofNumbers? year month day
  return (d, t)

/-- The fraction of a second, in millionths, or zero. -/
def microseconds (t : Text) : Nat × Text :=
  match t with
  | '.' :: rest =>
    let s := rest.takeWhile Char.isDigit
    if s.isEmpty then (0, t)
    else (natOf 10 (s.take 6 ++ List.replicate (6 - s.length) '0'), rest.dropWhile Char.isDigit)
  | _ => (0, t)

/-- A time of day. -/
def timeOfDay (t : Text) : Option (TimeOfDay × Text) := do
  let (hour, t) ← twoDigits 23 t
  let t ← Text.after? [':'] t
  let (minute, t) ← twoDigits 59 t
  let t ← Text.after? [':'] t
  let (second, t) ← twoDigits 59 t
  let (micro, t) := microseconds t
  return (⟨hour, minute, second, micro⟩, t)

/-- An offset from universal time, if there is one. -/
def offset? (t : Text) : Option Int × Text :=
  match t with
  | 'Z' :: rest => (some 0, rest)
  | 'z' :: rest => (some 0, rest)
  | c :: rest =>
    if c = '+' ∨ c = '-' then
      let read : Option (Int × Text) := do
        let (hour, u) ← twoDigits 23 rest
        let u ← Text.after? [':'] u
        let (minute, u) ← twoDigits 59 u
        let n : Int := hour * 60 + minute
        return (if c = '-' then -n else n, u)
      match read with
      | some (n, u) => (some n, u)
      | none => (none, t)
    else (none, t)
  | [] => (none, t)

/-- A date, or a date with a time after a `T` or a space. -/
def dateOrDateTime (t : Text) : Option (Moment × Text) := do
  let (d, t) ← date t
  match t with
  | c :: rest =>
    if c = 'T' ∨ c = 't' ∨ c = ' ' then
      match timeOfDay rest with
      | some (time, rest) =>
        let (offset, rest) := offset? rest
        return (.dateTime d time offset, rest)
      | none => return (.date d, t)
    else return (.date d, t)
  | [] => return (.date d, t)

/-- A date or a time of any kind. -/
def moment (t : Text) : Option (Moment × Text) :=
  (dateOrDateTime t).orElse fun _ => (timeOfDay t).map fun (time, rest) => (.time time, rest)

/-- A date, a time, or an integer in another base than ten. -/
def momentOrBased? (t : Text) : Option (Value × Text) :=
  ((moment t).map fun (m, rest) => (Value.moment m, rest)).orElse fun _ => based? t

/-- A number, a date or a time. -/
def number (t : Text) : Except Refusal (Value × Text) :=
  match momentOrBased? t with
  | some read => .ok read
  | none =>
    match decimal? t with
    | some (d, rest) => d.value.map (·, rest)
    | none => orMalformed (special t)

/-- A value that is neither a string nor composed of others. -/
def scalar (t : Text) : Except Refusal (Value × Text) :=
  match t with
  | 't' :: 'r' :: 'u' :: 'e' :: rest => .ok (.bool true, rest)
  | 'f' :: 'a' :: 'l' :: 's' :: 'e' :: rest => .ok (.bool false, rest)
  | _ => number t

end Toml

end ShaderInclude
