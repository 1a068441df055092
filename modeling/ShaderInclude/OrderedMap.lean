/-!
# Maps that remember the order of insertion

A map is a list of keys with values in which every key stands once. Setting a key that is present
replaces its value in place, a new key goes to the end, and erasing a key removes it. Look-up is
the view by which the operations are described below.
-/

namespace ShaderInclude

/-- Keys with values, in the order in which the keys were first set. -/
structure OrderedMap (κ α : Type) where
  entries : List (κ × α)
  /-- Every key stands once. -/
  nodup : (entries.map Prod.fst).Nodup

namespace OrderedMap

variable {κ α : Type} [DecidableEq κ]

/-- The map without keys. -/
def empty : OrderedMap κ α := ⟨[], List.nodup_nil⟩

instance : Inhabited (OrderedMap κ α) := ⟨empty⟩

/-- The keys, in order. -/
def keys (m : OrderedMap κ α) : List κ := m.entries.map Prod.fst

/-- The value of the first entry with the key. -/
def find (k : κ) : List (κ × α) → Option α
  | [] => none
  | (k', a) :: entries => if k' = k then some a else find k entries

/-- The value of a key, if it is present. -/
def get? (m : OrderedMap κ α) (k : κ) : Option α := find k m.entries

/-- Whether a key is present. -/
def has (m : OrderedMap κ α) (k : κ) : Bool := (m.get? k).isSome

/-- Set a key in a list of entries. -/
def put (k : κ) (a : α) : List (κ × α) → List (κ × α)
  | [] => [(k, a)]
  | (k', a') :: entries => if k' = k then (k, a) :: entries else (k', a') :: put k a entries

theorem mem_keys_put {k k' : κ} {a : α} {entries : List (κ × α)} :
    k' ∈ (put k a entries).map Prod.fst ↔ k' = k ∨ k' ∈ entries.map Prod.fst := by
  induction entries with
  | nil => simp [put]
  | cons e entries ih =>
    obtain ⟨k₀, a₀⟩ := e
    by_cases h₀ : k₀ = k
    · simp [put, h₀]
    · simp only [put, h₀, if_false, List.map_cons, List.mem_cons, ih]
      exact or_left_comm

theorem nodup_put (k : κ) (a : α) {entries : List (κ × α)}
    (h : (entries.map Prod.fst).Nodup) : ((put k a entries).map Prod.fst).Nodup := by
  induction entries with
  | nil => simp [put]
  | cons e entries ih =>
    obtain ⟨k₀, a₀⟩ := e
    obtain ⟨hk₀, hrest⟩ := List.nodup_cons.mp h
    by_cases h₀ : k₀ = k
    · subst h₀
      simpa [put] using h
    · simp only [put, h₀, if_false, List.map_cons, List.nodup_cons, mem_keys_put]
      exact ⟨by simpa using hk₀, ih hrest⟩

omit [DecidableEq κ] in
theorem nodup_filter (m : OrderedMap κ α) (keep : κ × α → Bool) :
    ((m.entries.filter keep).map Prod.fst).Nodup :=
  m.nodup.sublist (List.filter_sublist.map Prod.fst)

/-- Set the value of a key. -/
def set (m : OrderedMap κ α) (k : κ) (a : α) : OrderedMap κ α :=
  ⟨put k a m.entries, nodup_put k a m.nodup⟩

/-- Remove a key. -/
def erase (m : OrderedMap κ α) (k : κ) : OrderedMap κ α :=
  ⟨m.entries.filter fun e => e.1 ≠ k, m.nodup_filter _⟩

/-- Keep the entries that pass a test. -/
def filter (m : OrderedMap κ α) (keep : κ → α → Bool) : OrderedMap κ α :=
  ⟨m.entries.filter fun e => keep e.1 e.2, m.nodup_filter _⟩

/-- The map of a list of settings, made one after the other. -/
def ofList (entries : List (κ × α)) : OrderedMap κ α :=
  entries.foldl (fun m e => m.set e.1 e.2) empty

/-! ### Look-up after each operation -/

@[simp]
theorem get?_empty (k : κ) : (empty : OrderedMap κ α).get? k = none := rfl

theorem find_put (k k' : κ) (a : α) (entries : List (κ × α)) :
    find k' (put k a entries) = if k = k' then some a else find k' entries := by
  induction entries with
  | nil => simp [put, find]
  | cons e entries ih =>
    obtain ⟨k₀, a₀⟩ := e
    by_cases h₀ : k₀ = k
    · subst h₀
      by_cases h : k₀ = k' <;> simp [put, find, h]
    · by_cases h : k = k'
      · subst h
        simp [put, find, h₀, ih]
      · by_cases h' : k₀ = k'
        · subst h'
          simp [put, find, h₀, h]
        · simp [put, find, h₀, h, h', ih]

/-- Setting a key changes the value of that key only. -/
@[simp]
theorem get?_set (m : OrderedMap κ α) (k k' : κ) (a : α) :
    (m.set k a).get? k' = if k = k' then some a else m.get? k' :=
  find_put k k' a m.entries

theorem get?_set_self (m : OrderedMap κ α) (k : κ) (a : α) : (m.set k a).get? k = some a := by
  rw [get?_set, if_pos rfl]

theorem get?_set_of_ne (m : OrderedMap κ α) {k k' : κ} (a : α) (h : k' ≠ k) :
    (m.set k a).get? k' = m.get? k' := by
  rw [get?_set, if_neg h.symm]

theorem find_filter_ne (k k' : κ) (entries : List (κ × α)) :
    find k' (entries.filter fun e => e.1 ≠ k) = if k = k' then none else find k' entries := by
  induction entries with
  | nil => simp [find]
  | cons e entries ih =>
    obtain ⟨k₀, a₀⟩ := e
    by_cases h₀ : k₀ = k
    · subst h₀
      by_cases h : k₀ = k'
      · simpa [h] using ih
      · simpa [h, find] using ih
    · by_cases h : k = k'
      · subst h
        simpa [h₀, find] using ih
      · by_cases h' : k₀ = k' <;> simp_all [find]

/-- Erasing a key removes the value of that key only. -/
@[simp]
theorem get?_erase (m : OrderedMap κ α) (k k' : κ) :
    (m.erase k).get? k' = if k = k' then none else m.get? k' :=
  find_filter_ne k k' m.entries

theorem get?_erase_self (m : OrderedMap κ α) (k : κ) : (m.erase k).get? k = none := by
  rw [get?_erase, if_pos rfl]

theorem get?_erase_of_ne (m : OrderedMap κ α) {k k' : κ} (h : k' ≠ k) :
    (m.erase k).get? k' = m.get? k' := by
  rw [get?_erase, if_neg h.symm]

theorem mem_keys_of_find {k : κ} {a : α} {entries : List (κ × α)}
    (h : find k entries = some a) : k ∈ entries.map Prod.fst := by
  induction entries with
  | nil => cases h
  | cons e entries ih =>
    by_cases hk : e.1 = k
    · exact List.mem_map.mpr ⟨e, List.mem_cons_self, hk⟩
    · rw [find, if_neg hk] at h
      exact List.mem_cons_of_mem _ (ih h)

/-- Keeping the entries that pass a test keeps the values that pass it. -/
@[simp]
theorem get?_filter (m : OrderedMap κ α) (keep : κ → α → Bool) (k : κ) :
    (m.filter keep).get? k = (m.get? k).filter (keep k) := by
  have key : ∀ entries : List (κ × α), (entries.map Prod.fst).Nodup →
      find k (entries.filter fun e => keep e.1 e.2) = (find k entries).filter (keep k) := by
    intro entries h
    induction entries with
    | nil => rfl
    | cons e entries ih =>
      obtain ⟨k₀, a₀⟩ := e
      obtain ⟨hk₀, hrest⟩ := List.nodup_cons.mp h
      by_cases hk : k₀ = k
      · subst hk
        by_cases hkeep : keep k₀ a₀
        · simp [find, hkeep, Option.filter]
        · -- no later entry has the key, so nothing takes the place of the one that goes
          have hnone : find k₀ (entries.filter fun e => keep e.1 e.2) = none := by
            rw [Option.eq_none_iff_forall_ne_some]
            intro a ha
            exact hk₀ ((List.filter_sublist.map Prod.fst).subset (mem_keys_of_find ha))
          simp [find, hkeep, hnone, Option.filter]
      · by_cases hkeep : keep k₀ a₀ <;> simp [find, hkeep, hk, ih hrest]
  exact key m.entries m.nodup

theorem mem_entries_iff {m : OrderedMap κ α} {k : κ} {a : α} :
    (k, a) ∈ m.entries ↔ m.get? k = some a := by
  have key : ∀ entries : List (κ × α), (entries.map Prod.fst).Nodup →
      ((k, a) ∈ entries ↔ find k entries = some a) := by
    intro entries h
    induction entries with
    | nil => simp [find]
    | cons e entries ih =>
      obtain ⟨k₀, a₀⟩ := e
      obtain ⟨hk₀, hrest⟩ := List.nodup_cons.mp h
      by_cases hk : k₀ = k
      · subst hk
        have hmem : (k₀, a) ∉ entries := fun hmem =>
          hk₀ (List.mem_map.mpr ⟨(k₀, a), hmem, rfl⟩)
        simp [find, hmem, eq_comm]
      · simp [find, hk, ih hrest, Ne.symm hk]
  exact key m.entries m.nodup

theorem mem_keys_iff {m : OrderedMap κ α} {k : κ} : k ∈ m.keys ↔ ∃ a, m.get? k = some a := by
  simp [keys, ← mem_entries_iff]

theorem has_eq_true_iff {m : OrderedMap κ α} {k : κ} : m.has k = true ↔ ∃ a, m.get? k = some a := by
  simp [has, Option.isSome_iff_exists]

end OrderedMap

end ShaderInclude
