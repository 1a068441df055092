import ShaderInclude.Proofs.Directive.Overlap
import ShaderInclude.Proofs.Resolution.Failure
import ShaderInclude.Proofs.Resolution.IncludeTree

/-!
# Replacing directives is substitution

Directives are replaced one by one, from the last to the first, in a code that changes its length
each time, and at offsets of the source. `Directive.weave` lays out what is meant by that: from left
to right, the gaps between the directives and what stands in the place of each of them.

Main statements: if the directives of a source are disjoint, replacing them gives this layout
(`Directive.foldr_splice_eq`), so the code of a resolved source is the concatenation of the text
between its directives and of the codes of the modules that are cached at their targets
(`expandSource_eq_substitute`).
-/

namespace ShaderInclude

/-- The text between two offsets. -/
def Text.between (t : Text) (start stop : Nat) : Text := (t.drop start).take (stop - start)

theorem Text.take_append_between {t : Text} {start stop : Nat} (h : start ≤ stop) :
    t.take start ++ t.between start stop = t.take stop := by
  rw [between, ← List.take_add, Nat.add_sub_cancel' h]

theorem Text.between_length (t : Text) (start : Nat) : t.between start t.length = t.drop start :=
  List.take_of_length_le (by rw [List.length_drop])

namespace Directive

/-! ### Left to right -/

/-- Directives with what stands in their place, and the gaps between two offsets around them, from
the first one to the last. -/
def weave {α : Type} (gap : Nat → Nat → α) (stop : Nat) :
    (start : Nat) → List (Directive × α) → List α
  | start, [] => [gap start stop]
  | start, (d, a) :: rest => gap start d.start :: a :: weave gap stop d.stop rest

theorem map_weave {α β : Type} (g : α → β) (gap : Nat → Nat → α) (stop start : Nat)
    (pairs : List (Directive × α)) :
    (weave gap stop start pairs).map g =
      weave (fun i j => g (gap i j)) stop start (pairs.map (Prod.map id g)) := by
  induction pairs generalizing start with
  | nil => rfl
  | cons x pairs ih =>
    obtain ⟨d, a⟩ := x
    rw [weave, List.map_cons, List.map_cons, ih]
    rfl

/-- A source with texts in place of its directives. -/
def substitute (text : Directive → Text) (source : Text) : Text :=
  (weave source.between source.length 0 ((scan source).map fun d => (d, text d))).flatten

/-- Directives that follow one another between two offsets. -/
inductive Consecutive (stop : Nat) : (start : Nat) → List Directive → Prop
  | nil {start : Nat} : Consecutive stop start []
  | cons {start : Nat} {d : Directive} {ds : List Directive} (hstart : start ≤ d.start)
      (hlt : d.start < d.stop) (hstop : d.stop ≤ stop) (hrest : Consecutive stop d.stop ds) :
    Consecutive stop start (d :: ds)

theorem Consecutive.of_pairwise {stop start : Nat} {ds : List Directive}
    (hfollow : ds.Pairwise fun d e => d.stop ≤ e.start)
    (hbounds : ∀ d ∈ ds, d.start < d.stop ∧ d.stop ≤ stop) (hstart : ∀ d ∈ ds, start ≤ d.start) :
    Consecutive stop start ds := by
  induction ds generalizing start with
  | nil => exact .nil
  | cons d ds ih =>
    obtain ⟨hfirst, hfollow⟩ := List.pairwise_cons.mp hfollow
    obtain ⟨⟨hlt, hle⟩, hbounds⟩ := List.forall_mem_cons.mp hbounds
    exact .cons (hstart d List.mem_cons_self) hlt hle (ih hfollow hbounds hfirst)

theorem Consecutive.le_start {stop start : Nat} {ds : List Directive}
    (h : Consecutive stop start ds) {d : Directive} (hd : d ∈ ds) : start ≤ d.start := by
  induction h with
  | nil => cases hd
  | cons hstart hlt _ _ ih =>
    obtain rfl | hd := List.mem_cons.mp hd
    · exact hstart
    · exact hstart.trans (hlt.le.trans (ih hd))

/-- Disjoint directives of a scan follow one another in the source. -/
theorem consecutive_scan {source : Text} (h : (scan source).Pairwise Disjoint) :
    Consecutive source.length 0 (scan source) :=
  .of_pairwise (pairwise_stop_le_scan h) (fun _ => bounds_of_mem_scan) fun d _ => d.start.zero_le

/-- A gap lies outside of all directives. -/
theorem mem_weave {α : Type} {gap : Nat → Nat → α} {stop start : Nat}
    {pairs : List (Directive × α)} (h : Consecutive stop start (pairs.map Prod.fst)) {a : α}
    (ha : a ∈ weave gap stop start pairs) :
    a ∈ pairs.map Prod.snd ∨ ∃ i j, a = gap i j ∧ start ≤ i ∧
      ∀ d ∈ pairs.map Prod.fst, d.stop ≤ i ∨ j ≤ d.start := by
  induction pairs generalizing start with
  | nil =>
    obtain rfl := List.mem_singleton.mp ha
    exact .inr ⟨start, stop, rfl, le_rfl, nofun⟩
  | cons x pairs ih =>
    obtain ⟨d, b⟩ := x
    obtain _ | ⟨hstart, hlt, hstop, hrest⟩ := h
    rw [weave, List.mem_cons, List.mem_cons] at ha
    obtain rfl | rfl | ha := ha
    -- the gap before `d`, what stands in place of `d`, and what comes behind it
    · refine .inr ⟨start, d.start, rfl, le_rfl, List.forall_mem_cons.mpr ⟨.inr le_rfl, ?_⟩⟩
      exact fun e he => .inr (hlt.le.trans (hrest.le_start he))
    · exact .inl List.mem_cons_self
    · refine (ih hrest ha).imp (List.mem_cons_of_mem b) ?_
      rintro ⟨i, j, rfl, hi, hgap⟩
      exact ⟨i, j, rfl, hstart.trans (hlt.le.trans hi), List.forall_mem_cons.mpr ⟨.inl hi, hgap⟩⟩

/-- **Replacing from the last to the first is replacing from left to right**, for directives that
follow one another in a source: what is replaced later leaves the source before it as it is. -/
theorem foldr_splice_eq {source : Text} (start : Nat) (pairs : List (Directive × Text))
    (h : Consecutive source.length start (pairs.map Prod.fst)) :
    pairs.foldr (fun x code => x.1.splice x.2 code) source =
      source.take start ++ (weave source.between source.length start pairs).flatten := by
  induction pairs generalizing start with
  | nil =>
    rw [weave, List.flatten_singleton, Text.between_length, List.take_append_drop]
    rfl
  | cons x pairs ih =>
    obtain ⟨d, text⟩ := x
    obtain _ | ⟨hstart, hlt, hstop, hrest⟩ := h
    -- the rest was replaced in a code that is still the source up to the end of `d`
    have hlength : (source.take d.stop).length = d.stop := by
      rw [List.length_take, Nat.min_eq_left hstop]
    have hbefore : source.take start ++ source.between start d.start = source.take d.start :=
      Text.take_append_between hstart
    rw [List.foldr_cons, ih d.stop hrest, splice, Text.splice,
      List.take_append_of_le_length (hlength.symm ▸ hlt.le),
      List.drop_append_of_le_length hlength.ge, List.drop_of_length_le hlength.le, List.take_take,
      Nat.min_eq_left hlt.le, weave, List.flatten_cons, List.flatten_cons,
      ← List.append_assoc (source.take start), hbefore, List.nil_append, List.append_assoc]

/-- A source with texts in place of its directives is what replacing these gives, if they are
disjoint. -/
theorem substitute_eq_foldr {source : Text} (h : (scan source).Pairwise Disjoint)
    (text : Directive → Text) :
    substitute text source = (scan source).foldr (fun d code => d.splice (text d) code) source := by
  let pairs : List (Directive × Text) := (scan source).map fun d => (d, text d)
  have hpairs : pairs.map Prod.fst = scan source := by
    rw [List.map_map]
    exact List.map_id _
  have hfold := foldr_splice_eq 0 pairs (hpairs ▸ consecutive_scan h)
  rw [List.foldr_map] at hfold
  exact hfold.symm

end Directive

/-! ### Resolved sources -/

section Resolved

variable {reader : Reader} {limit : Nat} {referrer directory : Path} {ancestors : List Path}
  {s s' : CacheState} {c : Cache} {source : Text} {ds : List Directive} {m m' : Module}
  {assigned : Path → Module}

/-- What is assembled has the codes of cached modules in place of its directives. -/
theorem Cache.code_of_assemble (hm : c.assemble directory ds m = some m')
    (h : ∀ d ∈ ds, c.get? (.target directory d.path) = some (assigned (.target directory d.path))) :
    m'.code = ds.foldl (fun code d => d.splice (assigned (.target directory d.path)).code code)
      m.code := by
  induction ds generalizing m with
  | nil =>
    cases hm
    rfl
  | cons d ds ih =>
    obtain ⟨included, htarget, hrest⟩ := Option.bind_eq_some_iff.mp hm
    obtain ⟨hd, hds⟩ := List.forall_mem_cons.mp h
    obtain rfl : included = assigned (.target directory d.path) :=
      Option.some.inj (htarget.symm.trans hd)
    rw [ih hrest hds]
    rfl

/-- In a source that was resolved the directives were replaced, from the last to the first, by the
codes of the modules that are then cached at its targets. -/
theorem Derives.code_eq_foldr
    (h : Derives reader limit referrer ancestors (.ofSource directory source) s (.ok m) s')
    (hassigned : ∀ d ∈ Directive.scan source,
      s'.cache.get? (.target directory d.path) = some (assigned (.target directory d.path))) :
    m.code = (Directive.scan source).foldr
      (fun d code => d.splice (assigned (.target directory d.path)).code code) source := by
  have hm := (h.sound (c := s.cache) fun q m' hq hnew => nomatch hq.symm.trans hnew).2 m rfl
  rw [Cache.code_of_assemble hm fun d hd => hassigned d (List.mem_reverse.mp hd),
    List.foldl_reverse]
  rfl

/-- A source that was resolved has the codes of the modules that are then cached at its targets. -/
theorem Derives.code_eq_substitute
    (h : Derives reader limit referrer ancestors (.ofSource directory source) s (.ok m) s')
    (hdisjoint : (Directive.scan source).Pairwise Directive.Disjoint)
    (hassigned : ∀ d ∈ Directive.scan source,
      s'.cache.get? (.target directory d.path) = some (assigned (.target directory d.path))) :
    m.code = Directive.substitute (fun d => (assigned (.target directory d.path)).code) source := by
  rw [Directive.substitute_eq_foldr hdisjoint]
  exact h.code_eq_foldr hassigned

/-- All targets of a source that was resolved are cached. -/
theorem Derives.exists_assigned
    (h : Derives reader limit referrer ancestors (.ofSource directory source) s (.ok m) s') :
    ∃ assigned : Path → Module, ∀ d ∈ Directive.scan source,
      s'.cache.get? (.target directory d.path) = some (assigned (.target directory d.path)) := by
  refine ⟨fun q => (s'.cache.get? q).getD (.raw []), fun d hd => ?_⟩
  have htarget : Path.target directory d.path ∈ (Task.ofSource directory source).targets :=
    List.mem_map.mpr ⟨d, List.mem_reverse.mpr hd, rfl⟩
  obtain ⟨-, included, hcached⟩ := h.get?_of_mem_targets rfl htarget
  simp only [hcached, Option.getD_some]

/-- Directives with cached targets are replaced, and the cache stays as it is. -/
theorem exists_expand_of_cached (reader : Reader) (m : Module) (hlimit : 0 < limit)
    (h : ∀ d ∈ ds, .target directory d.path ∉ referrer :: ancestors ∧
      s.cache.get? (.target directory d.path) = some (assigned (.target directory d.path))) :
    ∃ m' s', expand (resolve reader limit referrer ancestors) directory ds m s = (.ok m', s') ∧
      s'.cache = s.cache := by
  obtain ⟨limit, rfl⟩ := Nat.exists_eq_succ_of_ne_zero hlimit.ne'
  induction ds generalizing m s with
  | nil => exact ⟨m, s, rfl, rfl⟩
  | cons d ds ih =>
    obtain ⟨⟨htrace, hcached⟩, hds⟩ := List.forall_mem_cons.mp h
    have hreused : resolve reader (limit + 1) referrer ancestors (.target directory d.path) s =
        (.ok (assigned (.target directory d.path)), s.note (.reused (.target directory d.path))) :=
      (Derives.reused htrace hcached).run_eq
    obtain ⟨m', s', hrest, hcache⟩ := ih _ (s := (s.note _).note _) hds
    refine ⟨m', s', ?_, hcache⟩
    rw [expand]
    simp only [hreused]
    exact hrest

end Resolved

/-- **Replacing the directives of a source is simultaneous substitution.** Let the directives of a
source be disjoint. Whenever the source is resolved, in whatever state and below whatever modules,
the targets of its directives are cached afterwards, and its code is the concatenation, in the order
of the source, of the text between the directives and of the codes of their targets. Whatever
modules are cached at the targets, the source is resolved with their codes, if none of the targets
is being resolved. A source with no directive is its own code. -/
theorem expandSource_eq_substitute (reader : Reader) (limit : Nat) (referrer : Path)
    (ancestors : List Path) (directory : Path) (source : Text) (s : CacheState)
    (hdisjoint : (Directive.scan source).Pairwise Directive.Disjoint) :
    let expanded := expandSource (resolve reader limit referrer ancestors) directory source s
    let target := fun d : Directive => Path.target directory d.path
    (∀ m s', expanded = (.ok m, s') → ∃ assigned : Path → Module,
      (∀ d ∈ Directive.scan source, s'.cache.get? (target d) = some (assigned (target d))) ∧
      m.code = Directive.substitute (fun d => (assigned (target d)).code) source) ∧
    (∀ assigned : Path → Module, 0 < limit →
      (∀ d ∈ Directive.scan source, target d ∉ referrer :: ancestors ∧
        s.cache.get? (target d) = some (assigned (target d))) →
      ∃ m s', expanded = (.ok m, s') ∧
        m.code = Directive.substitute (fun d => (assigned (target d)).code) source) ∧
    (Directive.scan source = [] → ∃ m, expanded = (.ok m, s) ∧ m.code = source) := by
  intro expanded target
  have hderives : ∀ {m s'}, expanded = (.ok m, s') →
      Derives reader limit referrer ancestors (.ofSource directory source) s (.ok m) s' :=
    fun h => derives_iff_run.mpr h
  refine ⟨fun m s' hexpanded => ?_, fun assigned hlimit h => ?_, fun hnone => ?_⟩
  · obtain ⟨assigned, hassigned⟩ := (hderives hexpanded).exists_assigned
    exact ⟨assigned, hassigned, (hderives hexpanded).code_eq_substitute hdisjoint hassigned⟩
  · have hreverse : ∀ d ∈ (Directive.scan source).reverse, target d ∉ referrer :: ancestors ∧
        s.cache.get? (target d) = some (assigned (target d)) :=
      fun d hd => h d (List.mem_reverse.mp hd)
    obtain ⟨m, s', hexpanded, hcache⟩ :=
      exists_expand_of_cached reader (Module.raw source) hlimit hreverse
    refine ⟨m, s', hexpanded, (hderives hexpanded).code_eq_substitute hdisjoint fun d hd => ?_⟩
    rw [hcache]
    exact (h d hd).2
  · refine ⟨.raw source, ?_, rfl⟩
    have hrun : expanded = (Task.ofSource directory source).run reader limit referrer ancestors s :=
      rfl
    rw [hrun, Task.ofSource, hnone]
    rfl

/-- A source that includes one module twice, once in each form, with nothing behind the second
time. -/
theorem expandSource_eq_substitute_twice :
    let source := "& include 'b';\n\x7d/* & include 'b' */".toList
    let reader : Reader := .ofTable (.ofList [(.parse "b".toList, "B".toList)])
    let p := Path.parse "a".toList
    let expanded := expandSource (resolve reader 1 p []) p.parent source ⟨.empty, []⟩
    (Directive.scan source).Pairwise Directive.Disjoint ∧ ∃ m s', expanded = (.ok m, s') ∧
      m.code = "B\n\x7dB".toList ∧ ∃ assigned : Path → Module,
        m.code = Directive.substitute
          (fun d => (assigned (Path.target p.parent d.path)).code) source := by
  intro source reader p expanded
  have hline : Directive.scanForm .line source = [⟨.line, ['b'], 0, 14⟩] := by decide +kernel
  have hblock : Directive.scanForm .block source = [⟨.block, ['b'], 16, 35⟩] := by decide +kernel
  have hscan : Directive.scan source = [⟨.line, ['b'], 0, 14⟩, ⟨.block, ['b'], 16, 35⟩] := by
    rw [Directive.scan_eq_append (by rw [hline, hblock]; decide), hline, hblock]
    rfl
  have hdisjoint : (Directive.scan source).Pairwise Directive.Disjoint := by
    rw [hscan]
    decide
  have hcode : expanded.1.map Module.code = .ok "B\n\x7dB".toList := by
    simp only [expanded, expandSource, Module.unresolved, hscan]
    decide +kernel
  rcases hexpanded : expanded with ⟨_ | m, s'⟩
  · rw [hexpanded] at hcode
    cases hcode
  · rw [hexpanded] at hcode
    obtain ⟨hresolved, -⟩ :=
      expandSource_eq_substitute reader 1 p [] p.parent source ⟨.empty, []⟩ hdisjoint
    obtain ⟨assigned, -, hm⟩ := hresolved m s' hexpanded
    exact ⟨hdisjoint, m, s', rfl, Except.ok.inj hcode, assigned, hm⟩

end ShaderInclude
