import ShaderInclude.Text.Digit

/-!
# The lexical level of TOML

Blanks, comments, keys and strings. A reader takes the text that is left and gives what it read
together with the text after it, or nothing if the text is malformed. Line ends are newlines;
control characters other than tab are refused in comments and strings.
-/

namespace ShaderInclude

namespace Toml

/-- Reads something from the beginning of a text. -/
abbrev Read (α : Type) := Text → Option (α × Text)

/-- Space and tab. -/
def isBlank (c : Char) : Bool := c = ' ' || c = '\t'

/-- Space, tab and newline. -/
def isFiller (c : Char) : Bool := isBlank c || c = '\n'

/-- A control character. -/
def isControl (c : Char) : Bool := c.toNat < 0x20 || c.toNat = 0x7f

/-- A character that one line of a string or comment may not hold. -/
def isRefused (c : Char) : Bool := isControl c && c ≠ '\t'

/-- A character that a string over several lines may not hold. -/
def isRefusedInLines (c : Char) : Bool := isRefused c && c ≠ '\n'

/-- A character of a key without quotes. -/
def isBareKey (c : Char) : Bool := c.isAlphanum || c = '-' || c = '_'

/-- The text after its leading blanks. -/
def skipBlank (t : Text) : Text := t.dropWhile isBlank

/-- The text after a comment, if one stands at the beginning. -/
def skipComment? : Text → Option Text
  | '#' :: t =>
    if (t.takeWhile (· ≠ '\n')).any isRefused then none else some (t.dropWhile (· ≠ '\n'))
  | t => some t

/-- The text from the next newline on. -/
def restOfLines (t : Text) : Text := t.dropWhile (· ≠ '\n')

/-- What follows a comment after some filler is shorter than the whole. -/
theorem length_restOfLines_lt {t rest : Text} (h : t.dropWhile isFiller = '#' :: rest) :
    (restOfLines rest).length < t.length := by
  have h₁ : (t.dropWhile isFiller).length ≤ t.length := (List.dropWhile_sublist _).length_le
  have h₂ : (restOfLines rest).length ≤ rest.length := (List.dropWhile_sublist _).length_le
  rw [h, List.length_cons] at h₁
  omega

/-- The text after blanks, newlines and comments. -/
def skipFiller? (t : Text) : Option Text :=
  match h : t.dropWhile isFiller with
  | '#' :: rest =>
    have := length_restOfLines_lt h
    if (rest.takeWhile (· ≠ '\n')).any isRefused then none
    else skipFiller? (restOfLines rest)
  | rest => some rest
termination_by t.length

/-! ### Strings -/

/-- The character with the number that hexadecimal digits write. -/
def hexChar? (digits : Text) : Option Char := do
  let values ← digits.mapM Text.hexValue?
  let n := values.foldl (fun n d => n * 16 + d) 0
  if n < 0xd800 ∨ 0xdfff < n ∧ n < 0x110000 then some (Char.ofNat n) else none

/-- The character of a one-letter escape. -/
def escapeChar? : Char → Option Char
  | 'b' => some '\x08'
  | 't' => some '\t'
  | 'n' => some '\n'
  | 'f' => some '\x0c'
  | 'r' => some '\r'
  | '"' => some '"'
  | '\\' => some '\\'
  | _ => none

/-- What a reader of a string over several lines passes over after a backslash at a line's end:
nothing, the blanks up to the newline, or all blanks and newlines. -/
inductive Trim where
  | nothing
  | toNewline
  | filler
deriving DecidableEq

/-- The rest of a string in double quotes, of one line or of several. -/
def basicRest (lines : Bool) : Trim → Read Text
  | _, [] => none
  | .toNewline, c :: t =>
    if c = '\n' then basicRest lines .filler t
    else if isBlank c then basicRest lines .toNewline t
    else none
  | trim, c :: t =>
    if trim = .filler ∧ isFiller c then basicRest lines .filler t
    else if c = '"' then
      if lines then
        match t with
        | '"' :: '"' :: rest => some ([], rest)
        | _ => (basicRest lines .nothing t).map fun (s, rest) => ('"' :: s, rest)
      else some ([], t)
    else if c = '\\' then
      match t with
      | 'u' :: a :: b :: c :: d :: rest => do
        let x ← hexChar? [a, b, c, d]
        let (s, rest) ← basicRest lines .nothing rest
        return (x :: s, rest)
      | 'U' :: a :: b :: c :: d :: e :: f :: g :: h :: rest => do
        let x ← hexChar? [a, b, c, d, e, f, g, h]
        let (s, rest) ← basicRest lines .nothing rest
        return (x :: s, rest)
      | c :: rest =>
        if lines ∧ c = '\n' then basicRest lines .filler rest
        else if lines ∧ isBlank c then basicRest lines .toNewline rest
        else do
          let x ← escapeChar? c
          let (s, rest) ← basicRest lines .nothing rest
          return (x :: s, rest)
      | [] => none
    else if if lines then isRefusedInLines c else isRefused c then none
    else (basicRest lines .nothing t).map fun (s, rest) => (c :: s, rest)

/-- The rest of a one-line string in single quotes. -/
def literalRest (t : Text) : Option (Text × Text) :=
  match t.dropWhile (· ≠ '\'') with
  | [] => none
  | _ :: rest =>
    let s := t.takeWhile (· ≠ '\'')
    if s.any isRefused then none else some (s, rest)

/-- The rest of a string over several lines in single quotes. -/
def literalLinesRest : Read Text
  | '\'' :: '\'' :: '\'' :: rest => some ([], rest)
  | c :: t =>
    if isRefusedInLines c then none
    else (literalLinesRest t).map fun (s, rest) => (c :: s, rest)
  | [] => none

/-- Up to two more quotes belong to a string that ends with more than three. -/
def moreQuotes (quote : Char) : Text × Text → Text × Text
  | (s, a :: b :: rest) =>
    if a = quote then if b = quote then (s ++ [a, b], rest) else (s ++ [a], b :: rest)
    else (s, a :: b :: rest)
  | (s, [a]) => if a = quote then (s ++ [a], []) else (s, [a])
  | (s, []) => (s, [])

/-- A newline directly after the opening quotes does not belong to the string. -/
def dropFirstNewline : Text → Text
  | '\n' :: t => t
  | t => t

/-- A string of any of the four kinds. -/
def string : Read Text
  | '"' :: '"' :: '"' :: t =>
    (basicRest true .nothing (dropFirstNewline t)).map (moreQuotes '"')
  | '"' :: t => basicRest false .nothing t
  | '\'' :: '\'' :: '\'' :: t =>
    (literalLinesRest (dropFirstNewline t)).map (moreQuotes '\'')
  | '\'' :: t => literalRest t
  | _ => none

/-! ### Keys -/

/-- A dotted key. -/
abbrev Key := List Text

/-- One part of a key: bare, or a one-line string. -/
def keyPart : Read Text
  | '"' :: t => basicRest false .nothing t
  | '\'' :: t => literalRest t
  | t => if (t.takeWhile isBareKey).isEmpty then none
      else some (t.takeWhile isBareKey, t.dropWhile isBareKey)

/-- A dotted key of at most `n` parts, with blanks around its dots and after it. -/
def keyWithin : Nat → Read Key
  | 0, _ => none
  | n + 1, t => do
    let (part, t) ← keyPart t
    match skipBlank t with
    | '.' :: t =>
      let (parts, t) ← keyWithin n (skipBlank t)
      return (part :: parts, t)
    | t => return ([part], t)

/-- A dotted key and the blanks after it. -/
def key (t : Text) : Option (Key × Text) := keyWithin (t.length + 1) t

end Toml

end ShaderInclude
