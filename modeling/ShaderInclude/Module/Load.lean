import ShaderInclude.Module.Resolve

/-!
# Loading root modules

A root is loaded from a source that is supplied or from the one stored at its path. A stored root
that is cached is not read again. A root's code is handed to the validator unless the path is
marked as accepted; it is then cached. Where a supplied source replaces a cached module, the
modules that include it are evicted, so that they are resolved again from the new source.
-/

namespace ShaderInclude

/-- What loading needs from outside. -/
structure Loader where
  reader : Reader
  /-- Checks the code of roots; without one everything passes. -/
  validator : Option Validator
  /-- The bound on the nesting of included modules. -/
  limit : Nat

namespace Loader

/-- The bound on the nesting of modules where nothing else is asked for. The stack holds 1000 calls.
Each module that is included takes two of them, one to resolve it and one to replace its directives,
and 16 are left for the calls around a load. -/
def defaultLimit : Nat := 492

/-- Resolve a root from its source. The mark of the path does not hold for the new module. -/
def resolveRoot (l : Loader) (p directory : Path) (source : Text) (s : CacheState) :
    Outcome Module :=
  match expandSource (resolve l.reader l.limit p []) directory source s with
  | (.error e, s) => (.error e, s)
  | (.ok m, s) => (.ok m, s.withCache (s.cache.unaccept p))

/-- The module of a root before it is checked: the supplied source resolved, the cached module,
or the stored source resolved. -/
def root (l : Loader) (p directory : Path) (supplied : Option Text) (s : CacheState) :
    Outcome Module :=
  match supplied with
  | some source => l.resolveRoot p directory source s
  | none =>
    match s.cache.get? p with
    | some m => (.ok m, s)
    | none =>
      let s := s.note (.read p)
      match l.reader p with
      | .error e => (.error (e.at p), s)
      | .ok source => l.resolveRoot p directory source s

/-- The error of a verdict, if it does not accept. -/
def errorOf? : Verdict → Option ModuleError
  | .accepted | .waived _ => none
  | .rejected message _ => some (.rejected message)
  | .toolMissing executable => some (.toolMissing executable)

/-- Check the code of a root unless its path is marked, and mark it. -/
def check (l : Loader) (p : Path) (code : Text) (s : CacheState) : Outcome Unit :=
  if p ∈ s.cache.accepted then (.ok (), s)
  else
    match l.validator with
    | none => (.ok (), s.withCache (s.cache.accept p))
    | some validator =>
      let verdict := validator code
      let s := s.note (.checked code verdict)
      match errorOf? verdict with
      | some e => (.error (.finding e), s)
      | none => (.ok (), s.withCache (s.cache.accept p))

/-- The state after the includers of a replaced path are gone. -/
def evict (p : Path) (s : CacheState) : CacheState :=
  ⟨s.cache.evictIncluders p, s.events ++ (s.cache.includers p).map fun q => .evicted q p⟩

/-- Load the root at a canonical path. -/
def loadCanonical (l : Loader) (p : Path) (supplied : Option Text) (s : CacheState) :
    Outcome Module :=
  match p.directory? with
  | none => (.error (.finding (.noDirectory p)), s)
  | some directory =>
    match l.root p directory supplied s with
    | (.error e, s) => (.error e, s)
    | (.ok m, s) =>
      match l.check p m.code s with
      | (.error e, s) => (.error e, s)
      | (.ok (), s) =>
        let s := if supplied.isSome && s.cache.has p then evict p s else s
        (.ok m, s.withCache (s.cache.store p m))

/-- Load the root at a path from a supplied source. -/
def load (l : Loader) (p : Path) (source : Text) (s : CacheState) : Outcome Module :=
  l.loadCanonical p.normal (some source) s

/-- Load the root stored at a path. -/
def loadFromPath (l : Loader) (p : Path) (s : CacheState) : Outcome Module :=
  l.loadCanonical p.normal none s

/-! ### With a cache of its own -/

/-- Load a root into an empty cache and take it out. -/
def loadAlone (l : Loader) (p : Path) (supplied : Option Text) : Outcome Module :=
  l.loadCanonical p.normal supplied .initial

end Loader

/-- Loads stored modules as the settings ask for. -/
def Settings.loader (s : Settings) (files : FileTree) (run : Text → ToolRun) : Loader :=
  ⟨files.readSource s.sourceEncoding, s.validator? run, Loader.defaultLimit⟩

end ShaderInclude
