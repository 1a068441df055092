import ShaderInclude.Proofs.Resolution.Call

/-!
# The marks of accepted roots

A mark at a path stands for something that is known of the module cached there. `Cache.Marks` is
that every marked path is cached with a module of which some property holds. Every call keeps this,
whatever the property is (`Call.marks`), if it holds of the root that the call itself approves: a
root that is resolved anew loses its mark first, a module that is evicted or taken out loses it too,
and a mark is only set on a module that is cached right after.

`Cache.Checked` is the plainest such property, that the validator accepts the code. A call keeps it
as long as the validator stays the same (`Call.checked`).
-/

namespace ShaderInclude

/-- Every marked path is cached with a module of the property. -/
def Cache.Marks (c : Cache) (P : Path → Module → Prop) : Prop :=
  ∀ q ∈ c.accepted, ∃ m, c.get? q = some m ∧ P q m

/-- Every marked path is cached, with code that the validator accepts. -/
def Cache.Checked (c : Cache) (l : Loader) : Prop :=
  ∀ q ∈ c.accepted, ∃ m, c.get? q = some m ∧ l.refusal? m.code = none

/-- The code is not refused, and if there is a validator, it was asked. -/
def Loader.Approves (l : Loader) (code : Text) (s : CacheState) : Prop :=
  l.refusal? code = none ∧
    ∀ validator, l.validator = some validator → .checked code (validator code) ∈ s.events

variable {P P' : Path → Module → Prop} {l : Loader} {c : Cache} {p directory : Path}
  {supplied : Option Text} {s s' : CacheState} {r : Except LoadError Module} {m : Module}

theorem Cache.Marks.mono (hc : c.Marks P) (h : ∀ q m, P q m → P' q m) : c.Marks P' := by
  intro q hq
  obtain ⟨m, hm, hP⟩ := hc q hq
  exact ⟨m, hm, h q m hP⟩

theorem Derives.marks {reader : Reader} {limit : Nat} {referrer : Path} {ancestors : List Path}
    {task : Task} (h : Derives reader limit referrer ancestors task s r s')
    (hs : s.cache.Marks P) : s'.cache.Marks P := by
  intro q hq
  rw [h.accepted_eq] at hq
  obtain ⟨m, hm, hP⟩ := hs q hq
  exact ⟨m, h.retains hm, hP⟩

theorem Rooted.marks (h : Rooted l p directory supplied s r s') (hs : s.cache.Marks P) :
    s'.cache.Marks P := by
  cases h with
  | cached | unread => exact hs
  | failed hsource hbody => exact hbody.marks (hsource.cache_eq ▸ hs)
  | resolved hsource hbody =>
    have hs' := hbody.marks (hsource.cache_eq ▸ hs)
    exact fun q hq => hs' q (Cache.mem_accepted_unaccept.mp hq).1

theorem Rooted.checked (h : Rooted l p directory supplied s r s') (hs : s.cache.Checked l) :
    s'.cache.Checked l :=
  h.marks hs

/-- A root that is still marked when its module is there is the cached one. -/
theorem Rooted.get?_of_mem_accepted (h : Rooted l p directory supplied s (.ok m) s')
    (hmark : p ∈ s'.cache.accepted) : s'.cache.get? p = some m := by
  cases h with
  | cached _ hcached => exact hcached
  | resolved => exact absurd rfl (Cache.mem_accepted_unaccept.mp hmark).2

/-- A commit keeps the marks of the other paths and may mark the new module. -/
private theorem marks_committed (hm : P p m)
    (hs : ∀ q ∈ s.cache.accepted, q ≠ p → ∃ m, s.cache.get? q = some m ∧ P q m) :
    (Loader.committed p supplied m s).cache.Marks P := by
  intro q hq
  by_cases hqp : q = p
  · exact ⟨m, by simp [Loader.committed, hqp], hqp ▸ hm⟩
  -- an evicted includer has lost its mark together with its module
  unfold Loader.committed at hq ⊢
  split at hq
  case isTrue hreplaced =>
    simp only [CacheState.cache_withCache, Cache.accepted_store, Loader.evict,
      Cache.mem_accepted_evictIncluders] at hq
    obtain ⟨m', hm', hP⟩ := hs q hq.1 hqp
    refine ⟨m', ?_, hP⟩
    simp [hreplaced, Loader.evict, Ne.symm hqp, hm', hq.2 m' hm']
  case isFalse hreplaced =>
    obtain ⟨m', hm', hP⟩ := hs q hq hqp
    refine ⟨m', ?_, hP⟩
    simp [hreplaced, Ne.symm hqp, hm']

/-- **The loading of a root keeps what the marks stand for**, if it holds of a module that it hands
out with its approval. It then holds of every module that it hands out. -/
theorem Loads.marks (h : Loads l p supplied s r s') (hs : s.cache.Marks P)
    (hnew : ∀ m, r = .ok m → l.Approves m.code s' → P p m) :
    s'.cache.Marks P ∧ ∀ m, r = .ok m → P p m := by
  cases h with
  | noDirectory => exact ⟨hs, nofun⟩
  | unrooted _ hroot => exact ⟨hroot.marks hs, nofun⟩
  | refused _ hroot =>
    rw [Loader.cache_checked]
    exact ⟨hroot.marks hs, nofun⟩
  | @marked _ m _ _ hroot hmark =>
    have hs₁ := hroot.marks hs
    obtain ⟨m', hm', hP⟩ := hs₁ p hmark
    obtain rfl : m' = m := Option.some.inj (hm'.symm.trans (hroot.get?_of_mem_accepted hmark))
    refine ⟨marks_committed hP fun q hq _ => hs₁ q hq, fun m hm => ?_⟩
    cases hm
    exact hP
  | @passed _ m s₁ _ hroot _ hrefusal =>
    have hs₁ := hroot.marks hs
    have hP : P p m := by
      refine hnew m rfl ⟨hrefusal, fun validator hvalidator => ?_⟩
      rw [Loader.checked_mem_committed]
      simp [Loader.checked, hvalidator]
    refine ⟨marks_committed hP fun q hq hqp => ?_, fun m hm => ?_⟩
    · exact hs₁ q ((Cache.mem_accepted_accept.mp hq).resolve_left hqp)
    · cases hm
      exact hP

/-- A call that takes modules out takes out their marks. -/
private theorem marks_dropped {call : Call} (hroot : call.root? = none) (hc : c.Marks P) :
    (call.after l c).cache.Marks P := by
  cases call with
  | load | loadFromPath => cases hroot
  | detach p =>
    intro q hq
    obtain ⟨hq, hne⟩ := Cache.mem_accepted_detach.mp hq
    obtain ⟨m, hm, hP⟩ := hc q hq
    exact ⟨m, by simp [Call.after, Ne.symm hne, hm], hP⟩
  | clear => exact nofun

/-- **Every call of a cache keeps what the marks stand for**, if it holds of a root that the call
hands out with its approval. It then holds of every root that the call hands out. -/
theorem Call.marks (call : Call) (hc : c.Marks P)
    (hnew : ∀ p supplied m, call.root? = some (p, supplied) →
      call.handedOut? l c = some (p, m) → l.Approves m.code (call.after l c) → P p m) :
    (call.after l c).cache.Marks P ∧
      ∀ p supplied m, call.root? = some (p, supplied) → call.handedOut? l c = some (p, m) →
        P p m := by
  cases hroot : call.root? with
  | none => exact ⟨marks_dropped hroot hc, nofun⟩
  | some root =>
    obtain ⟨p, supplied⟩ := root
    obtain ⟨r, hloads, hhanded⟩ := Call.exists_loads l c hroot
    obtain ⟨hmarks, hm⟩ := hloads.marks hc fun m hr =>
      hnew p supplied m hroot (by rw [hhanded, hr]; rfl)
    refine ⟨hmarks, fun p' supplied' m hroot' hhanded' => ?_⟩
    rw [hhanded] at hhanded'
    cases r with
    | error => cases hhanded'
    | ok =>
      cases hhanded'
      exact hm m rfl

/-- Every call of a cache keeps the meaning of the marks. -/
theorem Call.checked (call : Call) (hc : c.Checked l) : (call.after l c).cache.Checked l :=
  (call.marks hc fun _ _ _ _ _ happroved => happroved.1).1

end ShaderInclude
