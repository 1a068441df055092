import ShaderInclude.Directive.Scan
import ShaderInclude.Path.Normal

/-!
# Modules

A module is a source with its directives. Resolving it gives it its flattened code and the set of
the paths that it includes, directly or through others; before that both are empty.
-/

namespace ShaderInclude

/-- A source and what has become of its directives. -/
structure Module where
  source : Text
  directives : List Directive
  /-- The source with every directive replaced. -/
  code : Text
  /-- The paths of all modules included, each once. -/
  dependencies : List Path
deriving DecidableEq

namespace Module

/-- A source whose directives are still to be resolved. -/
def unresolved (source : Text) : Module := ⟨source, Directive.scan source, [], []⟩

/-- Add the elements of a list to another one, as far as they are new. -/
def addAll (new old : List Path) : List Path := new.foldl (fun ps p => ps.insert p) old

/-- What the replacement of one directive makes of code and dependencies. -/
def splice (m : Module) (d : Directive) (target : Path) (included : Module) : Module :=
  { m with
    code := d.splice included.code m.code
    dependencies := (addAll included.dependencies m.dependencies).insert target }

/-- A short description of a module. -/
def summary (m : Module) : String :=
  "Module(includes=" ++ m.directives.length.repr ++ ", dependencies="
    ++ m.dependencies.length.repr ++ ")"

theorem mem_addAll {p : Path} {new old : List Path} :
    p ∈ addAll new old ↔ p ∈ new ∨ p ∈ old := by
  induction new generalizing old with
  | nil => simp [addAll]
  | cons q new ih =>
    have h : addAll (q :: new) old = addAll new (old.insert q) := rfl
    rw [h, ih, List.mem_insert_iff, List.mem_cons]
    constructor
    · rintro (h | h | h) <;> simp [h]
    · rintro ((h | h) | h) <;> simp [h]

/-- A splice adds the target and what the target depends on. -/
theorem mem_dependencies_splice {m : Module} {d : Directive} {target p : Path}
    {included : Module} :
    p ∈ (m.splice d target included).dependencies ↔
      p = target ∨ p ∈ included.dependencies ∨ p ∈ m.dependencies := by
  simp [splice, List.mem_insert_iff, mem_addAll]

end Module

end ShaderInclude
