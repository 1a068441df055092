import ShaderInclude.OrderedMap
import ShaderInclude.Storage.Access

/-!
# File trees

A file tree maps locations to files and directories. A location is the list of segments from the
root. A path is looked up segment by segment, from the root or from the working directory; `..`
leads to the parent, the root being its own, and every segment but the last has to lead to a
directory that exists.

A file has bytes, a time of modification, and possibly an error with which it refuses to be
opened; its time can be asked for all the same. A refusal is one of reading and writing alike, so
there are no files that can be read but not written, or written but not read. There are no links
either, and no devices: what is written to a file is what the file holds.
-/

namespace ShaderInclude

/-- Stored bytes. -/
abbrev Bytes := List UInt8

/-- The segments from the root. -/
abbrev Location := List Text

/-- What a location holds. A file that refuses to be opened can be neither read nor written. -/
inductive Node where
  | file (bytes : Bytes) (modified : Int) (refusal : Option SystemError)
  | directory (modified : Int)

/-- The time of modification. -/
def Node.modified : Node → Int
  | file _ modified _ => modified
  | directory modified => modified

/-- A tree of files and directories. -/
structure FileTree where
  workingDirectory : Location
  nodes : OrderedMap Location Node
  /-- The locations that were written or created, in order. -/
  touched : List Location

namespace FileTree

/-- The greatest length of a segment, in bytes of UTF-8. -/
def segmentLimit : Nat := 255

/-! ### Building a tree -/

/-- The locations above a location, from the root on. -/
def ancestors : Location → List Location
  | [] => []
  | s :: l => [] :: (ancestors l).map (s :: ·)

/-- Add a directory that may already be there. -/
def addDirectory (t : FileTree) (l : Location) : FileTree :=
  if t.nodes.has l then t else { t with nodes := t.nodes.set l (.directory 0) }

/-- Put a node at a location, with all directories above it. -/
def add (t : FileTree) (l : Location) (n : Node) : FileTree :=
  let t := (ancestors l).foldl addDirectory t
  { t with nodes := t.nodes.set l n }

/-- Remove a location and everything below it. -/
def remove (t : FileTree) (l : Location) : FileTree :=
  { t with nodes := t.nodes.filter fun l' _ => !l.isPrefixOf l' }

/-- The tree that holds the working directory only. -/
def ofWorkingDirectory (l : Location) : FileTree := add ⟨l, .empty, []⟩ l (.directory 0)

/-- The location that a key of a listing stands for: its segments as they are, from the root if
the key starts with a slash or with `../`, and from the working directory otherwise. -/
def locationOfKey (t : FileTree) (key : Text) : Location :=
  let segments := fun (k : Text) => (Text.splitOn '/' k).filter (· ≠ [])
  match key with
  | '/' :: rest => segments rest
  | '.' :: '.' :: '/' :: rest => segments rest
  | _ => t.workingDirectory ++ segments key

/-! ### Looking up -/

/-- The location of a segment below a location, whether or not it exists. -/
def below (t : FileTree) (l : Location) (segment : Text) : Except SystemError Location :=
  match t.nodes.get? l with
  | none => .error .noEntry
  | some (.file ..) => .error .notDirectory
  | some (.directory _) =>
    if segment = Name.up.text then .ok l.dropLast
    else if (Utf8.encode segment).length > segmentLimit then .error .nameTooLong
    else .ok (l ++ [segment])

/-- The location of a segment that has to exist. -/
def enter (t : FileTree) (l : Location) (segment : Text) : Except SystemError Location :=
  match t.below l segment with
  | .error e => .error e
  | .ok l' => if t.nodes.has l' then .ok l' else .error .noEntry

/-- Follow segments, each of which has to exist. -/
def follow (t : FileTree) : Location → List Text → Except SystemError Location
  | l, [] => .ok l
  | l, s :: segments =>
    match t.enter l s with
    | .error e => .error e
    | .ok l' => t.follow l' segments

/-- Where the look-up of a path starts. -/
def base (t : FileTree) (p : Path) : Location := if p.isAnchored then [] else t.workingDirectory

/-- Whether a path holds a null character. -/
def hasNull (p : Path) : Bool := p.names.any fun n => n.text.contains '\x00'

/-- The location of a path that has to exist. -/
def locate (t : FileTree) (p : Path) : Except AccessFailure Location :=
  if hasNull p then .error .nullCharacter
  else match t.follow (t.base p) (p.names.map Name.text) with
    | .error e => .error (.system e)
    | .ok l => .ok l

/-- The location of a path whose last segment need not exist. -/
def locateNew (t : FileTree) (p : Path) : Except AccessFailure Location :=
  if hasNull p then .error .nullCharacter
  else match p.names.getLast? with
    | none => .ok (t.base p)
    | some n =>
      match t.follow (t.base p) (p.names.dropLast.map Name.text) with
      | .error e => .error (.system e)
      | .ok l =>
        match t.below l n.text with
        | .error e => .error (.system e)
        | .ok l' => .ok l'

/-- The node at a path. -/
def node (t : FileTree) (p : Path) : Except AccessFailure Node :=
  match t.locate p with
  | .error e => .error e
  | .ok l =>
    match t.nodes.get? l with
    | none => .error (.system .noEntry)
    | some n => .ok n

/-- The time at which a path was modified. -/
def modified (t : FileTree) (p : Path) : Except AccessFailure Int := (t.node p).map Node.modified

/-- Whether a path leads to a file. It does not if it cannot be followed; only a segment that is
too long leaves the question open. -/
def isFile (t : FileTree) (p : Path) : Except AccessFailure Bool :=
  match t.node p with
  | .ok (.file ..) => .ok true
  | .error (.system .nameTooLong) => .error (.system .nameTooLong)
  | _ => .ok false

/-- Whether a path leads to a directory. -/
def isDirectory (t : FileTree) (p : Path) : Bool :=
  match t.node p with
  | .ok (.directory _) => true
  | _ => false

/-- The bytes of a file. -/
def read (t : FileTree) (p : Path) : Except AccessFailure Bytes :=
  match t.node p with
  | .error e => .error e
  | .ok (.directory _) => .error (.system .isDirectory)
  | .ok (.file bytes _ none) => .ok bytes
  | .ok (.file _ _ (some e)) => .error (.system e)

/-! ### Changing -/

/-- Put a node at a location and note the change. -/
def change (t : FileTree) (l : Location) (n : Node) : FileTree :=
  { t with nodes := t.nodes.set l n, touched := t.touched ++ [l] }

/-- Write the bytes of a file, which is created if it does not exist. -/
def write (t : FileTree) (p : Path) (bytes : Bytes) : Except AccessFailure FileTree :=
  match t.locateNew p with
  | .error e => .error e
  | .ok l =>
    match t.nodes.get? l with
    | some (.directory _) => .error (.system .isDirectory)
    | some (.file _ _ (some e)) => .error (.system e)
    | some (.file _ modified none) => .ok (t.change l (.file bytes modified none))
    | none => .ok (t.change l (.file bytes 0 none))

/-- Create a directory that must not exist. -/
def createDirectory (t : FileTree) (p : Path) : Except AccessFailure FileTree :=
  match t.locateNew p with
  | .error e => .error e
  | .ok l =>
    if t.nodes.has l then .error (.system .exists_)
    else .ok (t.change l (.directory 0))

/-- Create a directory unless it is there already; also, if `above?` is given, the directories
that it lies in, by that function. The tree keeps what was created before a failure, and the
failure names the path at which it arose. -/
def ensureDirectory (above? : Option (FileTree → FileTree × Option (AccessFailure × Path)))
    (p : Path) (t : FileTree) : FileTree × Option (AccessFailure × Path) :=
  match t.createDirectory p with
  | .ok t' => (t', none)
  | .error (.system .noEntry) =>
    match above? with
    | none => (t, some (.system .noEntry, p))
    | some above =>
      match above t with
      | (t', some failure) => (t', some failure)
      | (t', none) =>
        match t'.createDirectory p with
        | .ok t'' => (t'', none)
        | .error (.system .noEntry) => (t', some (.system .noEntry, p))
        | .error (.system e) =>
          if t'.isDirectory p then (t', none) else (t', some (.system e, p))
        | .error e => (t', some (e, p))
  | .error (.system e) => if t.isDirectory p then (t, none) else (t, some (.system e, p))
  | .error e => (t, some (e, p))

/-- Create the directory with the given names, last first, and those it lies in. -/
def ensureDirectoriesAt (anchor : Anchor) :
    List Name → FileTree → FileTree × Option (AccessFailure × Path)
  | [] => ensureDirectory none ⟨anchor, []⟩
  | n :: names =>
    ensureDirectory (some (ensureDirectoriesAt anchor names)) ⟨anchor, (n :: names).reverse⟩

/-- Create a directory and those it lies in, as far as they do not exist. -/
def ensureDirectories (t : FileTree) (p : Path) : FileTree × Option (AccessFailure × Path) :=
  ensureDirectoriesAt p.anchor p.names.reverse t

end FileTree

end ShaderInclude
