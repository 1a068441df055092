import ShaderInclude.Toml.Scalar

/-!
# TOML documents

Values, tables and statements. Besides the table under construction a document keeps track of
which keys may no longer be opened: a key that holds an inline value is frozen together with
everything below it, and a key that has had a header of its own, or was made by dots in an
earlier section, cannot be opened by a header again.

The text is read from the front, and the first thing that is wrong with it counts: something
malformed, a key that cannot be given a value, or values beyond a limit. The number of items and
lines is bounded by the length of the text, which each of them takes from.
-/

namespace ShaderInclude

namespace Toml

/-- A table under construction. -/
abbrev Table := List (Text × Value)

/-- The value of a key. -/
def Table.get? (key : Text) : Table → Option Value
  | [] => none
  | (k, v) :: entries => if k = key then some v else Table.get? key entries

/-- Replace the value of a key, which goes to the end if it is new. -/
def Table.set (key : Text) (value : Value) : Table → Table
  | [] => [(key, value)]
  | (k, v) :: entries =>
    if k = key then (k, value) :: entries else (k, v) :: Table.set key value entries

/-- Change the table at a dotted key, creating tables on the way. With `throughLists` the last
table of a list stands for the list. There is no result where something else is in the way, or
where the change has none. -/
def Table.change (throughLists : Bool) (f : Table → Option Table) : Key → Table → Option Table
  | [], t => f t
  | k :: key, t =>
    match Table.get? k t with
    | none => (Table.change throughLists f key []).map fun inner => Table.set k (.table inner) t
    | some (.table inner) =>
      (Table.change throughLists f key inner).map fun inner => Table.set k (.table inner) t
    | some (.list items) =>
      match throughLists, items.getLast? with
      | true, some (.table inner) =>
        (Table.change throughLists f key inner).map fun inner =>
          Table.set k (.list (items.dropLast ++ [.table inner])) t
      | _, _ => none
    | some _ => none

/-- Add a key that must be new. -/
def Table.addNew (key : Text) (value : Value) (t : Table) : Option Table :=
  match Table.get? key t with
  | some _ => none
  | none => some (Table.set key value t)

/-- Add an empty table to the list of tables at a key, which is created if it is new. -/
def Table.addItem (key : Text) (t : Table) : Option Table :=
  match Table.get? key t with
  | none => some (Table.set key (.list [.table []]) t)
  | some (.list items) => some (Table.set key (.list (items ++ [.table []])) t)
  | some _ => none

/-- Whether a value is composed of others. -/
def isComposed : Value → Bool
  | .list _ | .table _ => true
  | _ => false

/-- Whether a key is one of the frozen keys or lies below one. -/
def isFrozen (frozen : List Key) (key : Key) : Bool := frozen.any (·.isPrefixOf key)

/-- Split a key into its parents and its last part. -/
def Key.split? (key : Key) : Option (Key × Text) :=
  key.getLast?.map fun stem => (key.dropLast, stem)

/-! ### Values -/

/-- Reads a value from the beginning of a text. -/
abbrev ReadValue := Text → Except Refusal (Value × Text)

/-- A key, an equals sign, and a value that `value` reads. -/
def keyValue (value : ReadValue) (t : Text) : Except Refusal ((Key × Value) × Text) := do
  let (k, t) ← orMalformed (key t)
  let t ← orMalformed (Text.after? ['='] t)
  let (v, t) ← value (skipBlank t)
  return ((k, v), t)

/-- The rest of an array after the items `items`, with at most `n` more. -/
def arrayRest (value : ReadValue) : (n : Nat) → (items : List Value) → ReadValue
  | 0, _, _ => .error .malformed
  | n + 1, items, t => do
    match ← orMalformed (skipFiller? t) with
    | ']' :: t => return (.list items, t)
    | t =>
      let (v, t) ← value t
      match ← orMalformed (skipFiller? t) with
      | ']' :: t => return (.list (items ++ [v]), t)
      | ',' :: t => arrayRest value n (items ++ [v]) t
      | _ => .error .malformed

/-- Add an entry of an inline table to those before it, unless the table has it already. -/
def addEntry (entries : Table) (frozen : List Key) (key : Key) (value : Value) : Option Table := do
  let (parents, stem) ← Key.split? key
  if isFrozen frozen key then none
  else Table.change false (Table.addNew stem value) parents entries

/-- The rest of an inline table after some entries, with at most `n` more, of which there has to
be one. -/
def inlineRest (value : ReadValue) : (n : Nat) → Table → (frozen : List Key) → ReadValue
  | 0, _, _, _ => .error .malformed
  | n + 1, entries, frozen, t => do
    let ((k, v), t) ← keyValue value t
    let entries ← orMalformed (addEntry entries frozen k v)
    match skipBlank t with
    | '}' :: t => return (.table entries, t)
    | ',' :: t =>
      inlineRest value n entries (if isComposed v then k :: frozen else frozen) (skipBlank t)
    | _ => .error .malformed

/-- A value whose nesting takes at most `n` steps: two for each array that it begins with or is
in, and three for each inline table. -/
def valueWithin : (n : Nat) → ReadValue
  | n, '[' :: rest =>
    match n with
    | n + 2 => arrayRest (valueWithin n) (rest.length + 1) [] rest
    | _ => .error .nestedTooDeep
  | n, '{' :: rest =>
    match n with
    | n + 3 =>
      match skipBlank rest with
      | '}' :: rest => .ok (.table [], rest)
      | rest => inlineRest (valueWithin n) (rest.length + 1) [] [] rest
    | _ => .error .nestedTooDeep
  | _, c :: t =>
    if c = '"' ∨ c = '\'' then
      (orMalformed (string (c :: t))).map fun (s, rest) => (.text s, rest)
    else scalar (c :: t)
  | _, [] => .error .malformed

/-- How many steps the nesting of a value may take. -/
def nestingLimit : Nat := 988

/-- A value. -/
def value : ReadValue := valueWithin nestingLimit

/-! ### Statements -/

/-- A document under construction. -/
structure Document where
  root : Table
  /-- The key of the section that statements add to. -/
  header : Key
  /-- Keys that hold inline values. -/
  frozen : List Key
  /-- Keys that no header may open again. -/
  closed : List Key
  /-- Keys made by dots in this section, to be closed at its end. -/
  pending : List Key

namespace Document

/-- The document without statements. -/
def empty : Document := ⟨[], [], [], [], []⟩

/-- A section ends. -/
def endSection (d : Document) : Document :=
  { d with closed := d.pending ++ d.closed, pending := [] }

/-- The header of a table. -/
def openTable (d : Document) (key : Key) : Option Document :=
  if d.closed.contains key ∨ isFrozen d.frozen key then none
  else do
    let root ← Table.change true some key d.root
    return { d with root, closed := key :: d.closed, header := key }

/-- The header of an item in a list of tables. What was known of keys at or below it concerned
the items before. -/
def openItem (d : Document) (key : Key) : Option Document :=
  if isFrozen d.frozen key then none
  else do
    let (parents, stem) ← Key.split? key
    let root ← Table.change true (Table.addItem stem) parents d.root
    let others := fun (keys : List Key) => keys.filter fun k => !key.isPrefixOf k
    return { d with
      root
      closed := key :: others d.closed
      frozen := others d.frozen
      header := key }

/-- The keys that the dots of a key make below the header: its proper beginnings. -/
def madeByDots (header : Key) (key : Key) : List Key :=
  (List.range key.length).filterMap fun i => if i = 0 then none else some (header ++ key.take i)

/-- Give a value to a key of the section. -/
def assign (d : Document) (key : Key) (value : Value) : Option Document := do
  let (parents, stem) ← Key.split? key
  let made := madeByDots d.header key
  if made.any d.closed.contains ∨ isFrozen d.frozen (d.header ++ parents) then none
  else
    let root ← Table.change true (Table.addNew stem value) (d.header ++ parents) d.root
    return { d with
      root
      pending := made ++ d.pending
      frozen := if isComposed value then (d.header ++ key) :: d.frozen else d.frozen }

/-- One statement, without the comment and the newline after it. The text has no blanks before
it. -/
def statement (d : Document) : Text → Except Refusal (Document × Text)
  | '[' :: '[' :: t => orMalformed do
    let (k, t) ← key (skipBlank t)
    let d ← d.endSection.openItem k
    let t ← Text.after? [']', ']'] t
    return (d, t)
  | '[' :: t => orMalformed do
    let (k, t) ← key (skipBlank t)
    let d ← d.endSection.openTable k
    let t ← Text.after? [']'] t
    return (d, t)
  | '#' :: t => .ok (d, '#' :: t)
  | t => do
    let ((k, v), t) ← keyValue value t
    let d ← orMalformed (d.assign k v)
    return (d, t)

/-- The statements of a text of at most `n` lines. -/
def statements : (n : Nat) → Document → Text → Except Refusal Document
  | 0, _, _ => .error .malformed
  | n + 1, d, t =>
    match skipBlank t with
    | [] => .ok d
    | '\n' :: t => statements n d t
    | t => do
      let (d, t) ← d.statement t
      match ← orMalformed (skipComment? (skipBlank t)) with
      | [] => .ok d
      | '\n' :: t => statements n d t
      | _ => .error .malformed

end Document

/-- A carriage return before a newline does not count. -/
def unixLines : Text → Text
  | '\r' :: '\n' :: t => '\n' :: unixLines t
  | c :: t => c :: unixLines t
  | [] => []

/-- The table that a document describes, if it is well formed and within the limits. -/
def parse (t : Text) : Except Refusal Table :=
  let t := unixLines t
  (Document.empty.statements (t.length + 1) t).map Document.root

end Toml

end ShaderInclude
