import ShaderInclude.Module.Event
import ShaderInclude.OrderedMap

/-!
# The cache of resolved modules

A cache maps canonical paths to resolved modules, in the order in which they were resolved, and
marks those whose code has passed the validator. Here are the operations that read no source;
loading is in `ShaderInclude.Module.Load`.
-/

namespace ShaderInclude

/-- Resolved modules by their canonical paths, and the paths whose code has been accepted. -/
structure Cache where
  modules : OrderedMap Path Module
  accepted : List Path

namespace Cache

/-- The cache without modules. -/
def empty : Cache := ⟨.empty, []⟩

instance : Inhabited Cache := ⟨empty⟩

/-- The module of a canonical path, if it is cached. -/
def get? (c : Cache) (p : Path) : Option Module := c.modules.get? p

/-- Whether a canonical path is cached. -/
def has (c : Cache) (p : Path) : Bool := c.modules.has p

/-- The cached paths. -/
def paths (c : Cache) : List Path := c.modules.keys

/-- Put a module into the cache. -/
def store (c : Cache) (p : Path) (m : Module) : Cache := { c with modules := c.modules.set p m }

/-- Mark a path as accepted. -/
def accept (c : Cache) (p : Path) : Cache := { c with accepted := c.accepted.insert p }

/-- Take the mark from a path. -/
def unaccept (c : Cache) (p : Path) : Cache := { c with accepted := c.accepted.filter (· ≠ p) }

/-- The cached paths whose modules include a path. -/
def includers (c : Cache) (p : Path) : List Path :=
  (c.modules.entries.filter fun e => p ∈ e.2.dependencies).map Prod.fst

/-- Remove all modules that include a path, with their marks. -/
def evictIncluders (c : Cache) (p : Path) : Cache :=
  { modules := c.modules.filter fun _ m => p ∉ m.dependencies
    accepted := c.accepted.filter fun q => q ∉ c.includers p }

/-- Take a module out of the cache. The path is made canonical, and it loses its mark in any
case. -/
def detach (c : Cache) (p : Path) : Option Module × Cache :=
  (c.get? p.normal, { c.unaccept p.normal with modules := c.modules.erase p.normal })

/-- Drop every module. -/
def clear (_ : Cache) : Cache := empty

/-! ### Look-up after each operation -/

@[simp]
theorem get?_empty (q : Path) : empty.get? q = none := rfl

@[simp]
theorem get?_store (c : Cache) (p q : Path) (m : Module) :
    (c.store p m).get? q = if p = q then some m else c.get? q :=
  c.modules.get?_set p q m

@[simp]
theorem get?_accept (c : Cache) (p q : Path) : (c.accept p).get? q = c.get? q := rfl

@[simp]
theorem get?_unaccept (c : Cache) (p q : Path) : (c.unaccept p).get? q = c.get? q := rfl

@[simp]
theorem get?_evictIncluders (c : Cache) (p q : Path) :
    (c.evictIncluders p).get? q = (c.get? q).filter fun m => p ∉ m.dependencies :=
  c.modules.get?_filter _ q

@[simp]
theorem get?_detach (c : Cache) (p q : Path) :
    (c.detach p).2.get? q = if p.normal = q then none else c.get? q :=
  c.modules.get?_erase p.normal q

@[simp]
theorem get?_clear (c : Cache) (q : Path) : c.clear.get? q = none := rfl

theorem has_eq_true_iff {c : Cache} {p : Path} : c.has p = true ↔ ∃ m, c.get? p = some m :=
  OrderedMap.has_eq_true_iff

/-! ### The marks after each operation -/

@[simp]
theorem accepted_store (c : Cache) (p : Path) (m : Module) :
    (c.store p m).accepted = c.accepted := rfl

@[simp]
theorem mem_accepted_accept {c : Cache} {p q : Path} :
    q ∈ (c.accept p).accepted ↔ q = p ∨ q ∈ c.accepted :=
  List.mem_insert_iff

@[simp]
theorem mem_accepted_unaccept {c : Cache} {p q : Path} :
    q ∈ (c.unaccept p).accepted ↔ q ∈ c.accepted ∧ q ≠ p := by
  simp [unaccept]

@[simp]
theorem mem_accepted_detach {c : Cache} {p q : Path} :
    q ∈ (c.detach p).2.accepted ↔ q ∈ c.accepted ∧ q ≠ p.normal :=
  mem_accepted_unaccept

@[simp]
theorem accepted_clear (c : Cache) : c.clear.accepted = [] := rfl

theorem mem_includers_iff {c : Cache} {p q : Path} :
    q ∈ c.includers p ↔ ∃ m, c.get? q = some m ∧ p ∈ m.dependencies := by
  simp [includers, get?, ← OrderedMap.mem_entries_iff]

@[simp]
theorem mem_accepted_evictIncluders {c : Cache} {p q : Path} :
    q ∈ (c.evictIncluders p).accepted ↔
      q ∈ c.accepted ∧ ∀ m, c.get? q = some m → p ∉ m.dependencies := by
  simp [evictIncluders, mem_includers_iff]

end Cache

/-- A cache together with what has happened so far. -/
structure CacheState where
  cache : Cache
  events : List Event

namespace CacheState

/-- The empty cache before anything has happened. -/
def initial : CacheState := ⟨.empty, []⟩

/-- The state after an event. -/
def note (s : CacheState) (e : Event) : CacheState := { s with events := s.events ++ [e] }

/-- The state with another cache. -/
def withCache (s : CacheState) (c : Cache) : CacheState := { s with cache := c }

@[simp]
theorem cache_note (s : CacheState) (e : Event) : (s.note e).cache = s.cache := rfl

@[simp]
theorem events_note (s : CacheState) (e : Event) : (s.note e).events = s.events ++ [e] := rfl

@[simp]
theorem cache_withCache (s : CacheState) (c : Cache) : (s.withCache c).cache = c := rfl

@[simp]
theorem events_withCache (s : CacheState) (c : Cache) : (s.withCache c).events = s.events := rfl

end CacheState

end ShaderInclude
