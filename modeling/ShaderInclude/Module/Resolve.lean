import ShaderInclude.Module.Cache
import ShaderInclude.Module.Error
import ShaderInclude.Storage.Source

/-!
# Resolving included modules

`resolve` gives the module of a canonical path that is included from another one. It goes down
the include graph: an included module is resolved and cached before its includer takes it over,
so a cached module is always complete. The paths that are being resolved, from the innermost
outward, are the referrer and its ancestors; a path that is one of them closes a circle.

Directives are replaced from the last to the first, so that a replacement leaves the offsets of
the directives still to come as they are. A failure ends the whole call, and modules resolved
before it stay cached.

The recursion is bounded by a limit on the nesting. Running into it is a fault; a limit greater
than the number of readable paths is never met.
-/

namespace ShaderInclude

/-- The outcome of a call and the state after it, which also a failed call leaves behind. -/
abbrev Outcome (α : Type) := Except LoadError α × CacheState

/-- Resolves an included module. -/
abbrev Resolver := Path → CacheState → Outcome Module

/-- Replace directives, given from the last to the first, of a module in a directory. -/
def expand (resolver : Resolver) (directory : Path) :
    List Directive → Module → CacheState → Outcome Module
  | [], m, s => (.ok m, s)
  | d :: directives, m, s =>
    let target := Path.target directory d.path
    match resolver target s with
    | (.error e, s) => (.error e, s)
    | (.ok included, s) =>
      expand resolver directory directives (m.splice d target included)
        (s.note (.spliced target d.start d.stop))

/-- The resolved module of a source in a directory. -/
def expandSource (resolver : Resolver) (directory : Path) (source : Text) (s : CacheState) :
    Outcome Module :=
  let m := Module.unresolved source
  expand resolver directory m.directives.reverse { m with code := source } s

/-- The error of a source that could not be read. -/
def SourceError.at (path : Path) : SourceError → LoadError
  | failed cause => .finding (.unreadable path cause)
  | fault f => .fault f

/-- Read the module at a canonical path, resolve its directives with the given resolver, and cache
it. -/
def readAndExpand (reader : Reader) (resolver : Resolver) : Resolver := fun p s =>
  let s := (s.note (.loading p)).note (.read p)
  match reader p with
  | .error e => (.error (e.at p), s)
  | .ok source =>
    match p.directory? with
    | none => (.error (.finding (.noDirectory p)), s)
    | some directory =>
      match expandSource resolver directory source s with
      | (.error e, s) => (.error e, s)
      | (.ok m, s) => (.ok m, s.withCache (s.cache.store p m))

/-- The module of a canonical path that `referrer` includes, itself included by `ancestors`, with
at most `limit` modules nested. -/
def resolve (reader : Reader) :
    (limit : Nat) → (referrer : Path) → (ancestors : List Path) → Resolver
  | 0, _, _, _, s => (.error (.fault .nestingTooDeep), s)
  | limit + 1, referrer, ancestors, p, s =>
    if p ∈ referrer :: ancestors then (.error (.finding (.circular p referrer)), s)
    else
      match s.cache.get? p with
      | some m => (.ok m, s.note (.reused p))
      | none => readAndExpand reader (resolve reader limit p (referrer :: ancestors)) p s

end ShaderInclude
