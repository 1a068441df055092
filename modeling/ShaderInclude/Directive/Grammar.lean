import ShaderInclude.Directive.Basic

/-!
# The grammars of the two directive forms

An occurrence of a form starts with an anchor: a newline, `}`, `;`, or nothing at the start of
the text. Blanks follow, then the opening (`//` and blanks, or nothing, for a line; `/*` and
blanks for a block), `&`, blanks, `include`, at least one blank, a quote, the path, a quote, and
the closing. A line closes with blanks and `;`, or failing that with the last newline among the
blanks; a block closes with blanks, an optional `;`, blanks and `*/`.

The path is the shortest one of at least one character, without a newline, after which the form
closes; so it may hold quotes, and the two quotes need not agree.

Every function takes the text that is left and gives the text after what it has read. There is
nothing to try again except the end of the path: blanks are always taken as far as they go,
because what follows them never starts with one.
-/

namespace ShaderInclude

namespace Directive

/-- The characters after which a directive may stand. -/
def isAnchor (c : Char) : Bool := c = '\n' || c = '}' || c = ';'

/-- Either kind of quote. -/
def isQuote (c : Char) : Bool := c = '"' || c = '\''

/-- The text after its leading blanks. -/
def skipSpace (t : Text) : Text := t.dropWhile Text.isSpace

/-- The text after the opening of a form, up to its `&`. -/
def afterOpening? : Form → Text → Option Text
  | .line, t => some (skipSpace ((Text.after? ['/', '/'] t).getD t))
  | .block, t => (Text.after? ['/', '*'] t).map skipSpace

/-- The text after the `include` keyword and the opening quote. -/
def afterKeyword? (t : Text) : Option Text := do
  let t ← Text.after? ['&'] t
  match ← Text.after? ['i', 'n', 'c', 'l', 'u', 'd', 'e'] (skipSpace t) with
  | c :: t =>
    if Text.isSpace c then
      match skipSpace t with
      | q :: t => if isQuote q then some t else none
      | [] => none
    else none
  | [] => none

/-- How a directive ended: the terminator, if the form has one, and the text after it. -/
structure Closing where
  terminator : Option Char
  rest : Text

/-- The text after the last newline of a run of blanks, if the run has one. -/
def afterLastNewline? (run : Text) : Option Text :=
  if '\n' ∈ run then some (run.reverse.takeWhile (· ≠ '\n')).reverse else none

/-- What closes a form after the second quote. -/
def closing? : Form → Text → Option Closing
  | .line, t =>
    match skipSpace t with
    | ';' :: rest => some ⟨some ';', rest⟩
    | rest => (afterLastNewline? (t.takeWhile Text.isSpace)).map fun s => ⟨some '\n', s ++ rest⟩
  | .block, t =>
    let t := skipSpace t
    let t := skipSpace ((Text.after? [';'] t).getD t)
    (Text.after? ['*', '/'] t).map fun rest => ⟨none, rest⟩

/-- The closing directly after a text, if a quote and then the form's closing stand there. -/
def quoteClosing? (f : Form) : Text → Option Closing
  | q :: t => if isQuote q then closing? f t else none
  | [] => none

/-- The shortest path of at least one character after which the form closes, and the closing. -/
def path? (f : Form) : Text → Option (Text × Closing)
  | [] => none
  | c :: t =>
    if c = '\n' then none
    else match quoteClosing? f t with
      | some closing => some ([c], closing)
      | none => (path? f t).map fun (path, closing) => (c :: path, closing)

/-- One occurrence of a form. -/
structure Occurrence where
  /-- The character before the directive, absent at the start of the text. -/
  anchor : Option Char
  /-- The blanks after the anchor. -/
  indent : Text
  path : Text
  closing : Closing

/-- The occurrence after an anchor, if there is one. -/
def afterAnchor? (f : Form) (anchor : Option Char) (t : Text) : Option Occurrence := do
  let body ← afterOpening? f (skipSpace t)
  let (path, closing) ← path? f (← afterKeyword? body)
  return ⟨anchor, t.takeWhile Text.isSpace, path, closing⟩

/-- The occurrence that begins with the first character of a text, if there is one. Only at the
start of a source may the anchor be absent. -/
def occurrence? (f : Form) (atStart : Bool) : Text → Option Occurrence
  | [] => none
  | c :: t =>
    if isAnchor c then
      match afterAnchor? f (some c) t with
      | some o => some o
      | none => if atStart then afterAnchor? f none (c :: t) else none
    else if atStart then afterAnchor? f none (c :: t) else none

end Directive

end ShaderInclude
