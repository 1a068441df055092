import ShaderInclude.Proofs.Resolution.IncludeTree
import ShaderInclude.Proofs.Resolution.Marks

/-!
# Nothing unvalidated is handed out

Along a run whose calls have one validator in common, every root that is handed out is vouched for:
some call, this one or an earlier one, has handed out the same module at the same path after the
verdict of the validator let its code pass (`Vouched`). The marks of a cache carry this from call to
call, since the module cached at a marked path is one that is vouched for (`cacheAfter_vouched`).

`handedOut_validated` collects what follows for the next call of a run. What the validator is given
is always the code of a root with all its includes in place, and nothing is read or resolved after
that (`Call.ChecksRoot`); a root that is marked is handed out without any step at all.
-/

namespace ShaderInclude

variable {l : Loader} {c : Cache} {p directory : Path} {supplied : Option Text} {s s' : CacheState}
  {r : Except LoadError Module} {m : Module} {validator : Validator}

/-! ### Verdicts -/

/-- The source passes: it is accepted, or it is let through for want of a tool. -/
def Verdict.Passes (verdict : Verdict) : Prop :=
  verdict = .accepted ∨ ∃ executable, verdict = .waived executable

/-- No error is made of a verdict exactly if the source passes. -/
theorem Loader.errorOf?_eq_none_iff {verdict : Verdict} :
    errorOf? verdict = none ↔ verdict.Passes := by
  cases verdict <;> simp [errorOf?, Verdict.Passes]

/-! ### The check of a call -/

/-- **The check of a call.** The call has resolved its root, with no check until then, to a module
that has an include tree. It hands the code of this module to the validator, and after that it does
nothing but evict modules that include the root. -/
def Call.ChecksRoot (l : Loader) (c : Cache) (call : Call) (validator : Validator)
    (provided : Path → Text → Prop) : Prop :=
  ∃ p supplied directory m s₁ evictions,
    call.root? = some (p, supplied) ∧ p.directory? = some directory ∧
    l.root p directory supplied ⟨c, []⟩ = (.ok m, s₁) ∧ m.Explained provided p ∧
    (∀ code verdict, .checked code verdict ∉ s₁.events) ∧
    (call.after l c).events = s₁.events ++ .checked m.code (validator m.code) :: evictions ∧
    ∀ e ∈ evictions, ∃ q, e = .evicted q p

theorem Loader.events_checked (h : l.validator = some validator) (code : Text) (s : CacheState) :
    (l.checked code s).events = s.events ++ [.checked code (validator code)] := by
  simp [checked, h]

/-- A load checks nothing, or the code of its root once this is resolved. -/
theorem Loads.exists_check (h : Loads l p supplied ⟨c, []⟩ r s')
    (hvalidator : l.validator = some validator) :
    (∀ code verdict, .checked code verdict ∉ s'.events) ∨
      ∃ directory m s₁ evictions, p.directory? = some directory ∧
        Rooted l p directory supplied ⟨c, []⟩ (.ok m) s₁ ∧
        s'.events = s₁.events ++ .checked m.code (validator m.code) :: evictions ∧
        ∀ e ∈ evictions, ∃ q, e = .evicted q p := by
  have hroot : ∀ {directory r₁ s₁}, Rooted l p directory supplied ⟨c, []⟩ r₁ s₁ →
      ∀ code verdict, .checked code verdict ∉ s₁.events :=
    fun hroot code verdict he => List.not_mem_nil (hroot.mem_events_of_checked he)
  cases h with
  | noDirectory => exact .inl fun _ _ => List.not_mem_nil
  | unrooted _ h => exact .inl (hroot h)
  | refused hdir h =>
    exact .inr ⟨_, _, _, [], hdir, h, Loader.events_checked hvalidator _ _, nofun⟩
  | marked _ h =>
    exact .inl fun code verdict he => hroot h code verdict (Loader.checked_mem_committed.mp he)
  | @passed _ m s₁ hdir h =>
    obtain ⟨evictions, hevents, hevicted⟩ := Loader.events_committed p supplied m
      ((l.checked m.code s₁).withCache (s₁.cache.accept p))
    refine .inr ⟨_, m, s₁, evictions, hdir, h, ?_, hevicted⟩
    rw [hevents, CacheState.events_withCache, Loader.events_checked hvalidator, List.append_assoc]
    rfl

/-- **A call checks nothing, or the complete code of its root.** -/
theorem Call.checks (call : Call) (hvalidator : l.validator = some validator)
    {provided : Path → Text → Prop} (hc : c.Explained provided)
    (hcall : ∀ q source, call.Provides l c q source → provided q source) :
    (∀ code verdict, .checked code verdict ∉ (call.after l c).events) ∨
      call.ChecksRoot l c validator provided := by
  cases hroot : call.root? with
  | none =>
    cases call with
    | load | loadFromPath => cases hroot
    | detach | clear => exact .inl fun _ _ => List.not_mem_nil
  | some root =>
    obtain ⟨p, supplied⟩ := root
    obtain ⟨r, hloads, -⟩ := Call.exists_loads l c hroot
    refine (hloads.exists_check hvalidator).imp_right ?_
    rintro ⟨directory, m, s₁, evictions, hdir, hrooted, hevents, hevicted⟩
    have hread : ∀ q source, .read q ∈ s₁.events → l.reader q = .ok source → provided q source := by
      intro q source hq hsource
      exact hcall q source (.inr ⟨by rw [hevents]; exact List.mem_append_left _ hq, hsource⟩)
    obtain ⟨-, hm⟩ := hrooted.explained (isCanonical_of_root? hroot) hdir
      (fun source h => hcall p source (.inl (h ▸ hroot))) hread hc
    exact ⟨p, supplied, directory, m, s₁, evictions, hroot, hdir, hrooted.root_eq, hm m rfl,
      fun _ _ he => List.not_mem_nil (hrooted.mem_events_of_checked he), hevents, hevicted⟩

/-! ### What the marks stand for -/

/-- **The module is vouched for**: a call of the run has handed it out as the root at its path, and
in that call its code was handed to the validator and passed. -/
def Vouched (validator : Validator) (uses : List (Loader × Call)) (p : Path) (m : Module) : Prop :=
  ∃ before l call supplied, before ++ [(l, call)] <+: uses ∧ call.root? = some (p, supplied) ∧
    call.handedOut? l (cacheAfter before) = some (p, m) ∧
    .checked m.code (validator m.code) ∈ (call.after l (cacheAfter before)).events ∧
    (validator m.code).Passes

theorem Vouched.mono {uses uses' : List (Loader × Call)} (h : Vouched validator uses p m)
    (huses : uses <+: uses') : Vouched validator uses' p m := by
  obtain ⟨before, l, call, supplied, hbefore, h⟩ := h
  exact ⟨before, l, call, supplied, hbefore.trans huses, h⟩

/-- What is vouched for has a directory. -/
theorem Vouched.exists_directory {uses : List (Loader × Call)} (h : Vouched validator uses p m) :
    ∃ directory, p.directory? = some directory := by
  obtain ⟨before, l, call, supplied, -, hroot, hhanded, -⟩ := h
  obtain ⟨r, hloads, hr⟩ := Call.exists_loads l (cacheAfter before) hroot
  rw [hhanded] at hr
  generalize call.after l (cacheAfter before) = s' at hloads
  cases r with
  | error => cases hr
  | ok m' =>
    cases hloads with
    | marked hdir | passed hdir => exact ⟨_, hdir⟩

/-- One more call keeps that all marked modules are vouched for, and vouches for the root that it
hands out. -/
theorem Call.vouched (call : Call) (hvalidator : l.validator = some validator)
    {uses : List (Loader × Call)} (huses : (cacheAfter uses).Marks (Vouched validator uses)) :
    (cacheAfter (uses ++ [(l, call)])).Marks (Vouched validator (uses ++ [(l, call)])) ∧
      ∀ p supplied m, call.root? = some (p, supplied) →
        call.handedOut? l (cacheAfter uses) = some (p, m) →
        Vouched validator (uses ++ [(l, call)]) p m := by
  rw [cacheAfter_concat]
  have hmono := huses.mono fun q m h => h.mono (List.prefix_append uses [(l, call)])
  refine call.marks hmono fun p supplied m hroot hhanded happroved => ?_
  obtain ⟨hrefusal, hchecked⟩ := happroved
  refine ⟨uses, l, call, supplied, List.prefix_rfl, hroot, hhanded, hchecked _ hvalidator, ?_⟩
  rw [← Loader.errorOf?_eq_none_iff]
  simpa [Loader.refusal?, hvalidator] using hrefusal

/-- **Every marked module is vouched for**, after any calls with one validator. -/
theorem cacheAfter_vouched {uses : List (Loader × Call)}
    (huses : ∀ u ∈ uses, u.1.validator = some validator) :
    (cacheAfter uses).Marks (Vouched validator uses) := by
  induction uses using List.reverseRecOn with
  | nil => exact nofun
  | append_singleton uses u ih =>
    have hmarks := ih fun u' h => huses u' (List.mem_append_left _ h)
    exact (u.2.vouched (huses u (by simp)) hmarks).1

/-- A root that is cached and marked is handed out without any step. -/
theorem Loader.loadCanonical_of_marked (hdir : p.directory? = some directory)
    (hcached : c.get? p = some m) (hmark : p ∈ c.accepted) :
    (l.loadCanonical p none ⟨c, []⟩).1 = .ok m ∧
      (l.loadCanonical p none ⟨c, []⟩).2.events = [] := by
  have hloads : Loads l p none ⟨c, []⟩ (.ok m) (committed p none m ⟨c, []⟩) :=
    .marked hdir (.cached rfl hcached) hmark
  rw [hloads.loadCanonical_eq]
  exact ⟨rfl, rfl⟩

/-- **Nothing unvalidated is handed out.** In a run whose calls have one validator in common,
whatever their readers:
* every root that a call hands out is vouched for, by the call itself or by an earlier one;
* every marked path is cached, with code that the validator accepts or lets through for want of a
  tool;
* a call checks nothing, or once, the complete code of its root;
* loading a stored root that is marked hands out the cached module, reads nothing and checks
  nothing. -/
theorem handedOut_validated (validator : Validator) (uses : List (Loader × Call)) (l : Loader)
    (call : Call) (huses : ∀ u ∈ uses, u.1.validator = some validator)
    (hvalidator : l.validator = some validator) :
    let c := cacheAfter uses
    let provided := Provided (uses ++ [(l, call)])
    (∀ p supplied m, call.root? = some (p, supplied) → call.handedOut? l c = some (p, m) →
        Vouched validator (uses ++ [(l, call)]) p m) ∧
      (∀ p ∈ c.accepted, ∃ m, c.get? p = some m ∧ (validator m.code).Passes) ∧
      ((∀ code verdict, .checked code verdict ∉ (call.after l c).events) ∨
        call.ChecksRoot l c validator provided) ∧
      ∀ p, p.normal ∈ c.accepted → ∃ m, c.get? p.normal = some m ∧
        (l.loadFromPath p ⟨c, []⟩).1 = .ok m ∧ (l.loadFromPath p ⟨c, []⟩).2.events = [] := by
  intro c provided
  have hmarks := cacheAfter_vouched huses
  have hprefix : uses <+: uses ++ [(l, call)] := List.prefix_append uses [(l, call)]
  refine ⟨(call.vouched hvalidator hmarks).2, fun p hp => ?_, ?_, fun p hp => ?_⟩
  · obtain ⟨m, hm, before, l', call', supplied, -, -, -, -, hpasses⟩ := hmarks p hp
    exact ⟨m, hm, hpasses⟩
  · refine call.checks hvalidator ((cacheAfter_explained uses).mono fun q source =>
      Provided.mono hprefix) fun q source h => ⟨uses, l, call, List.prefix_rfl, h⟩
  · obtain ⟨m, hm, hvouched⟩ := hmarks p.normal hp
    obtain ⟨directory, hdir⟩ := hvouched.exists_directory
    exact ⟨m, hm, Loader.loadCanonical_of_marked hdir hm hp⟩

/-- A module that was cached as an include of another root is checked when it is loaded as a root
itself, and the other root is handed out without any step. -/
theorem handedOut_validated_included :
    let a := Path.parse "a".toList
    let b := Path.parse "b".toList
    let validator := Validator.refusing (some "bad".toList)
    let l : Loader := ⟨.ofTable (.ofList [(a, "& include 'b';".toList), (b, "B".toList)]),
      some validator, Loader.defaultLimit⟩
    let c := cacheAfter [(l, .loadFromPath a)]
    c.accepted = [a] ∧
      Vouched validator [(l, .loadFromPath a), (l, .loadFromPath b)] b (.raw "B".toList) ∧
      (l.loadFromPath a ⟨c, []⟩).2.events = [] := by
  intro a b validator l c
  have hmark : c.accepted = [a] := by decide +kernel
  obtain ⟨hvouched, -, -, hskips⟩ := handedOut_validated validator [(l, .loadFromPath a)] l
    (.loadFromPath b) (by simp [l]) rfl
  have hb : Vouched validator [(l, .loadFromPath a), (l, .loadFromPath b)] b (.raw "B".toList) :=
    hvouched b none _ (by decide +kernel) (by decide +kernel)
  obtain ⟨m, -, -, hnothing⟩ := hskips a (by decide +kernel)
  exact ⟨hmark, hb, hnothing⟩

end ShaderInclude
