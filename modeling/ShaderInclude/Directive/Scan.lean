import ShaderInclude.Directive.Grammar

/-!
# Scanning a source for directives

Each form is searched on its own, from left to right. An occurrence ends the search of the
characters it took, except that its terminator is looked at again, because `;` and a newline may
anchor the next directive. The directives of both forms are then merged by their starts.

What an occurrence replaces leaves out its anchor, also the blanks after the anchor if that is
`}` or `;`, and a newline that terminates it.
-/

namespace ShaderInclude

namespace Directive

/-- How many characters of the source an occurrence that begins at the head of `t` takes up. -/
def Occurrence.length (o : Occurrence) (t : Text) : Nat := t.length - o.closing.rest.length

/-- The number of characters between the beginning of an occurrence and what it replaces. -/
def Occurrence.lead (o : Occurrence) : Nat :=
  match o.anchor with
  | none => 0
  | some c => if c = '\n' then 1 else 1 + o.indent.length

/-- The number of characters at the end of an occurrence that it does not replace. -/
def Occurrence.trail (o : Occurrence) : Nat := if o.closing.terminator = some '\n' then 1 else 0

/-- The number of characters at the end of an occurrence that are searched again. -/
def Occurrence.shared (o : Occurrence) : Nat := if o.closing.terminator.isSome then 1 else 0

/-- The directive of an occurrence that begins at `offset`, where the text left is `t`. -/
def Occurrence.directive (o : Occurrence) (f : Form) (offset : Nat) (t : Text) : Directive :=
  ⟨f, o.path, offset + o.lead, offset + o.length t - o.trail⟩

/-- The directives of one form in the text left at `offset`, once `skip` characters are passed
over. -/
def scanFrom (f : Form) : (skip offset : Nat) → Text → List Directive
  | _, _, [] => []
  | skip + 1, offset, _ :: t => scanFrom f skip (offset + 1) t
  | 0, offset, c :: t =>
    match occurrence? f (offset == 0) (c :: t) with
    | none => scanFrom f 0 (offset + 1) t
    | some o =>
      o.directive f offset (c :: t) ::
        scanFrom f (o.length (c :: t) - o.shared - 1) (offset + 1) t

/-- What is passed over is not searched. -/
theorem scanFrom_eq_drop (f : Form) (skip offset : Nat) (t : Text) :
    scanFrom f skip offset t = scanFrom f 0 (offset + skip) (t.drop skip) := by
  induction t generalizing skip offset with
  | nil => cases skip <;> rfl
  | cons c t ih =>
    cases skip with
    | zero => rfl
    | succ skip =>
      rw [scanFrom, ih, List.drop_succ_cons]
      congr 1
      omega

/-- The directives of one form in a source. -/
def scanForm (f : Form) (source : Text) : List Directive := scanFrom f 0 0 source

/-- The directives of a source by their starts; of two that start together the line form comes
first. -/
def scan (source : Text) : List Directive :=
  (scanForm .line source ++ scanForm .block source).mergeSort fun a b => a.start ≤ b.start

end Directive

end ShaderInclude
