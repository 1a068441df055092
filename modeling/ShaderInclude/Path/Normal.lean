import ShaderInclude.Path.Basic

/-!
# The normal form of a path

`Path.normal` lets every `..` cancel the name before it. A `..` with nothing to cancel is dropped
below a root and kept at the start of a relative path. The walk keeps the names written so far,
last first, and the number of them that a `..` may still cancel; the names below that number are
the leading run of `..`.

The normal form is lexical: `a/../b` becomes `b` also where `a` is no directory.
-/

namespace ShaderInclude

namespace Path

/-- The state of the walk along a path. -/
structure Trail where
  /-- The names written so far, last first. -/
  written : List Name
  /-- How many of them, from the last, a `..` may cancel. -/
  depth : Nat

/-- Take one name of a path that is anchored or not. -/
def Trail.push (anchored : Bool) (t : Trail) (n : Name) : Trail :=
  if n = Name.up then
    match t.depth with
    | d + 1 => ⟨t.written.tail, d⟩
    | 0 => if anchored then t else ⟨n :: t.written, 0⟩
  else ⟨n :: t.written, t.depth + 1⟩

/-- The walk along a list of names from the start. -/
def walk (anchored : Bool) (names : List Name) : Trail :=
  names.foldl (Trail.push anchored) ⟨[], 0⟩

/-- The path with every `..` cancelled that can be. -/
def normal (p : Path) : Path :=
  { p with names := (walk p.isAnchored p.names).written.reverse }

/-- The normal form of a path given as text. -/
def canonical (t : Text) : Path := (parse t).normal

/-- Where an include path leads that is written in a module of the given directory. -/
def target (directory : Path) (written : Text) : Path := (directory.join (parse written)).normal

@[simp]
theorem normal_anchor (p : Path) : p.normal.anchor = p.anchor := rfl

end Path

end ShaderInclude
