import ShaderInclude.Fault
import ShaderInclude.Storage.FileTree

/-!
# Whether an artifact is out of date

An artifact built from a root module has to be rebuilt if it is missing, or if the root or one of
its dependencies is missing or was modified after it. The paths are looked at in order and the
first reason decides; a path that cannot be looked at for another reason than its absence is a
fault, if no reason was found before it.
-/

namespace ShaderInclude

namespace Staleness

/-- The time of modification of a path, or nothing if the path does not exist. -/
def modified? (t : FileTree) (p : Path) : Except Fault (Option Int) :=
  match t.modified p with
  | .ok time => .ok (some time)
  | .error (.system .noEntry) => .ok none
  | .error failure => .error (.access failure p)

/-- Whether one of the paths is missing or was modified after the given time. -/
def anyNewer (t : FileTree) (built : Int) : List Path → Except Fault Bool
  | [] => .ok false
  | p :: paths =>
    match modified? t p with
    | .error f => .error f
    | .ok none => .ok true
    | .ok (some time) => if built < time then .ok true else anyNewer t built paths

/-- Whether an artifact has to be rebuilt from a root and its dependencies. -/
def isOutdated (t : FileTree) (root : Path) (dependencies : List Path) (artifact : Path) :
    Except Fault Bool :=
  match modified? t artifact with
  | .error f => .error f
  | .ok none => .ok true
  | .ok (some built) => anyNewer t built (root :: dependencies)

end Staleness

end ShaderInclude
