import ShaderInclude.Text.Basic

/-!
# Offsets, positions and spans

An editor names a place by line and column, the scanner by an offset. `LineIndex` holds the
offsets at which lines start; `LineIndex.position` finds the line of an offset by bisection and
measures the column from the start of that line. Lines and columns count from zero, and a line
ends with `'\n'` only.

Positions and spans have integer coordinates, since an editor may ask about any pair of numbers;
but it can be told only numbers from zero to a limit.
A span is half open in its offsets and closed in its positions: the position just after the last
character still lies on it.
-/

namespace ShaderInclude

/-- A place in a text, by line and column. -/
structure Position where
  line : Int
  column : Int
deriving DecidableEq

namespace Position

/-- The start of a text. -/
def origin : Position := ⟨0, 0⟩

/-- Positions are compared by line first, then by column. -/
protected def Before (p q : Position) : Prop :=
  p.line < q.line ∨ p.line = q.line ∧ p.column < q.column

instance : LT Position := ⟨Position.Before⟩

instance (p q : Position) : Decidable (p < q) :=
  inferInstanceAs (Decidable (p.line < q.line ∨ p.line = q.line ∧ p.column < q.column))

theorem lt_iff {p q : Position} :
    p < q ↔ p.line < q.line ∨ p.line = q.line ∧ p.column < q.column := Iff.rfl

end Position

/-- One of the two coordinates of a position. -/
inductive Coordinate where
  | line
  | column
deriving DecidableEq

/-- What an editor calls a coordinate. -/
def Coordinate.text : Coordinate → String
  | line => "line"
  | column => "character"

namespace Position

/-- The greatest line and column that an editor can be told. -/
def limit : Int := 2147483647

/-- Whether an editor can be told a coordinate. -/
def isInRange (n : Int) : Bool := 0 ≤ n && n ≤ limit

/-- The first coordinate that an editor cannot be told, with its value. -/
def outOfRange? (p : Position) : Option (Coordinate × Int) :=
  if !isInRange p.line then some (.line, p.line)
  else if !isInRange p.column then some (.column, p.column)
  else none

/-- No coordinate is out of range exactly if both are in range. -/
theorem outOfRange?_eq_none_iff {p : Position} :
    p.outOfRange? = none ↔ isInRange p.line ∧ isInRange p.column := by
  unfold outOfRange?
  cases isInRange p.line <;> cases isInRange p.column <;> simp

end Position

/-- A stretch of text, by offsets and by positions. -/
structure Span where
  start : Int
  stop : Int
  first : Position
  last : Position
deriving DecidableEq

namespace Span

/-- How many characters the span has; a reversed span has none. -/
def length (s : Span) : Nat := (s.stop - s.start).toNat

/-- Whether the character at an offset belongs to the span. -/
def covers (s : Span) (offset : Int) : Bool := s.start ≤ offset ∧ offset < s.stop

/-- Whether a position lies on the span; its two ends do. -/
def contains (s : Span) (p : Position) : Bool := !decide (p < s.first) && !decide (s.last < p)

/-- The first coordinate of its two positions that an editor cannot be told, with its value. -/
def outOfRange? (s : Span) : Option (Coordinate × Int) :=
  s.first.outOfRange?.or s.last.outOfRange?

/-- The empty span at the start of a text. -/
def atOrigin : Span := ⟨0, 0, .origin, .origin⟩

end Span

/-- The offsets at which the lines of a text start. -/
structure LineIndex where
  starts : Array Nat

namespace LineIndex

/-- The offsets after each newline, for a text that begins at `offset`. -/
def startsAfter (offset : Nat) : Text → List Nat
  | [] => []
  | c :: t => if c = '\n' then (offset + 1) :: startsAfter (offset + 1) t
      else startsAfter (offset + 1) t

/-- The index of a text. The first line starts at the beginning, further ones after each
newline. -/
def ofText (t : Text) : LineIndex := ⟨(0 :: startsAfter 0 t).toArray⟩

/-- The last line in `low..high` that starts at the offset or before it, given that line `low`
does. -/
def bisect (starts : Array Nat) (offset low high : Nat) : Nat :=
  if low < high then
    if starts.getD ((low + high + 1) / 2) 0 ≤ offset then
      bisect starts offset ((low + high + 1) / 2) high
    else bisect starts offset low ((low + high + 1) / 2 - 1)
  else low
termination_by high - low

/-- The line that holds an offset. -/
def line (index : LineIndex) (offset : Nat) : Nat :=
  bisect index.starts offset 0 (index.starts.size - 1)

/-- The position of an offset. -/
def position (index : LineIndex) (offset : Nat) : Position :=
  let line := index.line offset
  ⟨line, (offset : Int) - index.starts.getD line 0⟩

/-- The span between two offsets. -/
def span (index : LineIndex) (start stop : Nat) : Span :=
  ⟨start, stop, index.position start, index.position stop⟩

end LineIndex

end ShaderInclude
