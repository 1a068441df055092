import ShaderInclude.Text.Basic

/-!
# Dates and times

The calendar values that a settings file can hold, in their written form: a date, a time of day,
or both with or without an offset from universal time. A fraction of a second is written with six
digits, and left out if it is zero.

Inside another value a moment is shown as an expression that builds it from its numbers.
-/

namespace ShaderInclude

/-- A day of the calendar. -/
structure Date where
  year : Nat
  month : Nat
  day : Nat
deriving DecidableEq

/-- A time of day. -/
structure TimeOfDay where
  hour : Nat
  minute : Nat
  second : Nat
  microsecond : Nat
deriving DecidableEq

/-- A date, a time, or both. -/
inductive Moment where
  | date (d : Date)
  | time (t : TimeOfDay)
  /-- The offset from universal time, where there is one, is in minutes. -/
  | dateTime (d : Date) (t : TimeOfDay) (offset : Option Int)
deriving DecidableEq

/-- A number with at least `width` digits. -/
def paddedDigits (width n : Nat) : Text :=
  let digits := Nat.toDigits 10 n
  List.replicate (width - digits.length) '0' ++ digits

/-- How many days a month has. -/
def Date.daysInMonth (year month : Nat) : Nat :=
  if month = 2 then
    if year % 4 = 0 ∧ (year % 100 ≠ 0 ∨ year % 400 = 0) then 29 else 28
  else if month = 4 ∨ month = 6 ∨ month = 9 ∨ month = 11 then 30
  else 31

/-- A date, if the calendar has it. -/
def Date.ofNumbers? (year month day : Nat) : Option Date :=
  if 1 ≤ year ∧ 1 ≤ month ∧ month ≤ 12 ∧ 1 ≤ day ∧ day ≤ daysInMonth year month then
    some ⟨year, month, day⟩
  else none

/-- A date in writing. -/
def Date.text (d : Date) : Text :=
  paddedDigits 4 d.year ++ '-' :: paddedDigits 2 d.month ++ '-' :: paddedDigits 2 d.day

/-- A time in writing. -/
def TimeOfDay.text (t : TimeOfDay) : Text :=
  paddedDigits 2 t.hour ++ ':' :: paddedDigits 2 t.minute ++ ':' :: paddedDigits 2 t.second ++
    (if t.microsecond = 0 then [] else '.' :: paddedDigits 6 t.microsecond)

/-- An offset from universal time in writing. -/
def offsetText (minutes : Int) : Text :=
  (if minutes < 0 then '-' else '+') ::
    paddedDigits 2 (minutes.natAbs / 60) ++ ':' :: paddedDigits 2 (minutes.natAbs % 60)

/-- A moment in writing, with the given character between date and time. -/
def Moment.textWith (between : Char) : Moment → Text
  | date d => d.text
  | time t => t.text
  | dateTime d t offset => d.text ++ between :: t.text ++ (offset.map offsetText).getD []

/-! ### As expressions -/

/-- Numbers with a comma and a space between neighbours. -/
def numberList (numbers : List Nat) : Text :=
  [',', ' '].intercalate (numbers.map (Nat.toDigits 10))

/-- The numbers of a time; seconds and their fraction are left out if nothing but zeros is. -/
def TimeOfDay.numbers (t : TimeOfDay) : List Nat :=
  [t.hour, t.minute] ++
    if t.microsecond ≠ 0 then [t.second, t.microsecond]
    else if t.second ≠ 0 then [t.second] else []

/-- An offset from universal time as an expression: days, possibly negative, and the seconds of a
day after them. -/
def offsetExpression (minutes : Int) : Text :=
  if minutes = 0 then "datetime.timezone.utc".toList
  else
    let days := if minutes < 0 then "days=-1, ".toList else []
    let seconds := (minutes * 60).emod 86400
    "datetime.timezone(datetime.timedelta(".toList ++ days ++ "seconds=".toList ++
      Nat.toDigits 10 seconds.toNat ++ [')', ')']

/-- A moment as an expression that builds it. -/
def Moment.expression : Moment → Text
  | date d => "datetime.date(".toList ++ numberList [d.year, d.month, d.day] ++ [')']
  | time t => "datetime.time(".toList ++ numberList t.numbers ++ [')']
  | dateTime d t offset =>
    "datetime.datetime(".toList ++ numberList ([d.year, d.month, d.day] ++ t.numbers) ++
      (offset.map fun n => ", tzinfo=".toList ++ offsetExpression n).getD [] ++ [')']

end ShaderInclude
