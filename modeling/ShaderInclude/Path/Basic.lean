import ShaderInclude.Text.Basic

/-!
# Lexical paths

A path is an anchor and a list of names. Reading a path drops empty segments and `.`, so a name
is never empty, never `.` and holds no slash, and this is part of the type `Name`; a `..` is kept
as a name. Two leading slashes are an anchor of their own, three or more mean the same as one.

Nothing here looks at a storage. The normal form is in `ShaderInclude.Path.Normal`.
-/

namespace ShaderInclude

/-- A segment of a path that is worth keeping: not empty, not `.`, and without a slash. -/
structure Name where
  text : Text
  ne_nil : text ≠ []
  slash_not_mem : '/' ∉ text
  ne_dot : text ≠ ['.']
deriving DecidableEq

namespace Name

/-- The segment `..`, which climbs to the parent directory. -/
def up : Name := ⟨['.', '.'], by decide, by decide, by decide⟩

/-- A text as a name, if it is one. -/
def ofText? (t : Text) : Option Name :=
  if h : t ≠ [] ∧ '/' ∉ t ∧ t ≠ ['.'] then some ⟨t, h.1, h.2.1, h.2.2⟩ else none

theorem ext {a b : Name} (h : a.text = b.text) : a = b := by
  cases a; cases b; cases h; rfl

@[simp]
theorem ofText?_text (n : Name) : ofText? n.text = some n := by
  simp [ofText?, n.ne_nil, n.slash_not_mem, n.ne_dot]

end Name

/-- Where a path starts: at the working directory, at the root, or at the root written `//`. -/
inductive Anchor where
  | relative
  | root
  | doubleRoot
deriving DecidableEq

/-- How an anchor is written in front of the names. -/
def Anchor.text : Anchor → Text
  | relative => []
  | root => ['/']
  | doubleRoot => ['/', '/']

/-- A lexical path. -/
structure Path where
  anchor : Anchor
  names : List Name
deriving DecidableEq

namespace Path

/-- The working directory, written `.`. -/
def here : Path := ⟨.relative, []⟩

instance : Inhabited Path := ⟨here⟩

/-- Whether the path starts at a root. -/
def isAnchored (p : Path) : Bool := p.anchor ≠ .relative

/-! ### Reading and writing -/

/-- The anchor that a text's leading slashes stand for. -/
def anchorOf : Text → Anchor
  | '/' :: '/' :: '/' :: _ => .root
  | '/' :: '/' :: _ => .doubleRoot
  | '/' :: _ => .root
  | _ => .relative

/-- Read a path. Every text is one. -/
def parse (t : Text) : Path := ⟨anchorOf t, (Text.splitOn '/' t).filterMap Name.ofText?⟩

/-- Names with a slash between neighbours. -/
def joinNames (names : List Name) : Text := ['/'].intercalate (names.map Name.text)

/-- Write a path: the anchor, then the names with slashes between them; the path with neither
is written `.`. -/
def render (p : Path) : Text :=
  match p.anchor, p.names with
  | .relative, [] => ['.']
  | a, names => a.text ++ joinNames names

/-- The path as a string, for messages. -/
def toString (p : Path) : String := String.ofList p.render

/-- The anchor, if there is one, and the names, as texts. -/
def parts (p : Path) : List Text :=
  if p.isAnchored then p.anchor.text :: p.names.map Name.text else p.names.map Name.text

/-! ### Joining and climbing -/

/-- The path `b` seen from `a`: below it if `b` is relative, and `b` itself otherwise. -/
def join (a b : Path) : Path := if b.isAnchored then b else ⟨a.anchor, a.names ++ b.names⟩

/-- The path without its last name; a path without names is its own parent. -/
def parent (p : Path) : Path := { p with names := p.names.dropLast }

/-- The directory that holds the path, if the path has one distinct from itself. -/
def directory? (p : Path) : Option Path := if p.names = [] then none else some p.parent

/-- Paths in the order of their written forms. -/
def sort (paths : List Path) : List Path :=
  paths.mergeSort fun a b => decide (¬ b.render < a.render)

/-! ### Laws -/

/-- A path has a directory exactly when its parent is another path. -/
theorem directory?_eq_some_iff {p d : Path} :
    p.directory? = some d ↔ d = p.parent ∧ p.parent ≠ p := by
  have h : p.parent = p ↔ p.names = [] := by
    refine ⟨fun e => ?_, fun e => by cases p; simp_all [parent]⟩
    have e' : p.names.dropLast = p.names := congrArg Path.names e
    have hl := congrArg List.length e'
    rw [List.length_dropLast] at hl
    exact List.length_eq_zero_iff.1 (by omega)
  by_cases hn : p.names = []
  · simp [directory?, h, hn]
  · simp [directory?, h, hn, eq_comm]

theorem join_of_anchored {a b : Path} (h : b.isAnchored) : a.join b = b := by simp [join, h]

/-- Joining is associative. -/
theorem join_assoc (a b c : Path) : (a.join b).join c = a.join (b.join c) := by
  cases hc : c.isAnchored
  · cases hb : b.isAnchored
    · have hbc : (⟨b.anchor, b.names ++ c.names⟩ : Path).isAnchored = false := hb
      simp [join, hc, hb, hbc]
    · have hbc : (⟨b.anchor, b.names ++ c.names⟩ : Path).isAnchored = true := hb
      simp [join, hc, hb, hbc]
  · simp [join, hc]

end Path

end ShaderInclude
