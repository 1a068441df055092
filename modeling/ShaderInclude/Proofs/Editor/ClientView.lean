import ShaderInclude.Proofs.Editor.Agreement

/-!
# What the editor sees

The editor sees of a session what is published: for every address the diagnostics that were
published last. `Session.Mirrored` says that this is what the session has stored, that every open
document was published, and that the session has recorded dependencies of the open documents and of
no others.

`Session.exists_treatment` says what the handling of a notice does to an address, in whatever way it
ends. Where it ends well, all that has changed is published. Where it ends with a fault, nothing is,
and what was done before the fault stays. The main statement is `Session.mirrored_iff`: the view of
the editor mirrors the session throughout a run if and only if no notice that ends with a fault
conceals something. `Session.not_mirrored_of_endless_chain` is a notice that does.
-/

namespace ShaderInclude

namespace Editor

variable {w : Surroundings} {s s' : Session} {uri u : Address} {p : Path} {text : Text}
  {a : Activity} {result : Work} {n : Notice} {published : List Publication}

/-! ### The treatment of an address -/

/-- **What becomes of an address** while a notice is handled:
* its document is diagnosed,
* its document was closed, and everything recorded for it is gone,
* nothing, or
* its document was opened or closed, and the work ended with a fault before anything was
  recorded. -/
inductive Treatment (s : Session) (result : Work) (u : Address) : Prop
  | diagnosed (hrenewed : u ∈ result.2.renewed) (hdiagnosed : result.2.session.Diagnosed u)
  | cleared (hrenewed : u ∈ result.2.renewed) (hpath : ∃ p, Uri.toPath u = .ok p)
      (hclosed : result.2.session.documents.has u = false)
      (hdiagnostics : result.2.session.diagnosticsOf u = [])
      (hdependencies : result.2.session.dependencies.has u = false)
  | kept (hrenewed : u ∉ result.2.renewed) (hstored : s.StoredAlike result.2.session u)
      (hopen : result.2.session.documents.has u = s.documents.has u)
  | abandoned (hfault : ∃ f, result.1 = some f) (hstored : s.StoredAlike result.2.session u)
      (hopen : result.2.session.documents.has u = true ∨ ∃ f, Uri.toPath u = .error f)

/-- A document whose text was set and which is then refreshed. -/
private theorem treatment_of_refresh (hrenewed : a.renewed = [])
    (hstored : ∀ u, s.StoredAlike a.session u)
    (hothers : ∀ u, u ≠ uri → a.session.documents.get? u = s.documents.get? u)
    (htext : a.session.documents.get? uri = some text) (hpath : Uri.toPath uri = .ok p)
    (u : Address) : Treatment s (a.refresh w uri p text) u := by
  obtain ⟨hrenews, hdone⟩ := Activity.renews_refresh w htext hpath
  have hdocuments := hrenews.eases.documents
  obtain ⟨hmem, hsame⟩ | ⟨hmem, hdiagnosed⟩ := hrenews.stored_or_diagnosed u
  · have hstored := (hstored u).trans hsame
    have hnew : u ∉ (a.refresh w uri p text).2.renewed := by
      rw [hmem, hrenewed]
      exact List.not_mem_nil
    by_cases hu : u = uri
    · subst hu
      refine .abandoned ?_ hstored (.inl ?_)
      · cases hfault : (a.refresh w u p text).1 with
        | none => exact absurd (hdone hfault) hnew
        | some f => exact ⟨f, rfl⟩
      · rw [hdocuments]
        exact OrderedMap.has_eq_true_iff.mpr ⟨text, htext⟩
    · refine .kept hnew hstored ?_
      rw [hdocuments]
      exact congrArg Option.isSome (hothers u hu)
  · exact .diagnosed hmem hdiagnosed

/-- A document that has no path. -/
private theorem treatment_of_astray {f : Fault} {documents : OrderedMap Address Text}
    (hpath : Uri.toPath uri = .error f)
    (hothers : ∀ u, u ≠ uri → documents.get? u = s.documents.get? u) (u : Address) :
    Treatment s (some f, (Activity.ofSession s).edit fun s => { s with documents }) u := by
  by_cases hu : u = uri
  · exact .abandoned ⟨f, rfl⟩ ⟨rfl, rfl⟩ (.inr ⟨f, hu ▸ hpath⟩)
  · exact .kept List.not_mem_nil ⟨rfl, rfl⟩ (congrArg Option.isSome (hothers u hu))

private theorem treatment_of_nothing (s : Session) (u : Address) :
    Treatment s (none, .ofSession s) u :=
  .kept List.not_mem_nil (.refl s u) rfl

/-- A document that was closed, and whose path is then refreshed. -/
private theorem treatment_of_close (hrenewed : a.renewed = [uri])
    (hsession : a.session = ((s.removeDocument uri).removeBuffer p).forget uri)
    (hpath : Uri.toPath uri = .ok p) (u : Address) :
    Treatment s (a.refreshDependents w p) u := by
  have hrenews := Activity.renews_refreshDependents w p a
  have hdocuments : (a.refreshDependents w p).2.session.documents.has u =
      (s.documents.erase uri).has u := by
    rw [hrenews.eases.documents, hsession]
    rfl
  obtain ⟨hmem, hsame⟩ | ⟨hmem, hdiagnosed⟩ := hrenews.stored_or_diagnosed u
  · rw [hrenewed, List.mem_singleton] at hmem
    rw [hsession] at hsame
    by_cases hu : u = uri
    · subst hu
      refine .cleared (hmem.mpr rfl) ⟨p, hpath⟩ ?_ ?_ ?_
      · rw [hdocuments]
        simp [OrderedMap.has]
      · rw [hsame.diagnosticsOf_eq]
        simp [Session.forget, Session.diagnosticsOf]
      · rw [hsame.has_dependencies_eq]
        simp [Session.forget, OrderedMap.has]
    · have hstored : s.StoredAlike (((s.removeDocument uri).removeBuffer p).forget uri) u :=
        have hedit := Session.editedAt_close s uri p
        ⟨hedit.diagnostics u hu, hedit.dependencies u hu⟩
      refine .kept (mt hmem.mp hu) (hstored.trans hsame) ?_
      rw [hdocuments]
      exact congrArg Option.isSome (OrderedMap.get?_erase_of_ne _ hu)
  · exact .diagnosed hmem hdiagnosed

/-- **Every address is treated in one of these ways**, whatever the notice is and however its
handling ends. -/
theorem Session.exists_treatment (w : Surroundings) (s : Session) (n : Notice) :
    ∃ result : Work, s.serve w n.request = (result.response, result.2.session) ∧
      ∀ u, Treatment s result u := by
  cases n with
  | opened uri text =>
    refine ⟨_, rfl, ?_⟩
    unfold Activity.opened
    split
    case h_1 f hpath =>
      exact treatment_of_astray hpath fun _ hu => OrderedMap.get?_set_of_ne _ _ hu
    case h_2 p hpath =>
      exact treatment_of_refresh rfl (fun _ => ⟨rfl, rfl⟩)
        (fun _ hu => OrderedMap.get?_set_of_ne _ _ hu) (OrderedMap.get?_set_self _ _ _) hpath
  | changed uri texts =>
    simp only [Notice.request, serve]
    split
    case h_1 => exact ⟨_, rfl, treatment_of_nothing s⟩
    case h_2 text _ =>
      refine ⟨_, rfl, ?_⟩
      unfold Activity.changed
      split
      case h_1 f hpath =>
        exact treatment_of_astray hpath fun _ hu => OrderedMap.get?_set_of_ne _ _ hu
      case h_2 p hpath =>
        have hdocuments : ((s.setDocument uri text).addBuffer p uri).documents =
            s.documents.set uri text := by
          unfold addBuffer
          split <;> rfl
        refine treatment_of_refresh rfl (fun u => ?_) (fun u hu => ?_) ?_ hpath
        · show s.StoredAlike ((s.setDocument uri text).addBuffer p uri) u
          unfold addBuffer
          split <;> exact ⟨rfl, rfl⟩
        · refine (congrArg (OrderedMap.get? · u) hdocuments).trans ?_
          exact OrderedMap.get?_set_of_ne _ _ hu
        · refine (congrArg (OrderedMap.get? · uri) hdocuments).trans ?_
          exact OrderedMap.get?_set_self _ _ _
  | saved uri =>
    refine ⟨_, rfl, ?_⟩
    unfold Activity.saved
    split
    case h_1 => exact treatment_of_nothing s
    case h_2 text htext =>
      split
      case h_1 f hpath => exact fun u => .kept List.not_mem_nil (.refl s u) rfl
      case h_2 p hpath =>
        exact treatment_of_refresh rfl (fun u => .refl s u) (fun _ _ => rfl) htext hpath
  | closed uri =>
    refine ⟨_, rfl, ?_⟩
    unfold Activity.closed
    split
    case isTrue =>
      simp only
      split
      case h_1 f hpath =>
        exact treatment_of_astray hpath fun _ hu => OrderedMap.get?_erase_of_ne _ hu
      case h_2 p hpath => exact treatment_of_close rfl rfl hpath
    case isFalse => exact treatment_of_nothing s

/-! ### What a session stores -/

namespace Session

/-- **What a session keeps in any case**: nothing is recorded for addresses without a path and for
documents that are not open, and there is one diagnostic of a document at most. -/
structure Tidy (s : Session) : Prop where
  unaddressed : ∀ u f, Uri.toPath u = .error f →
    s.diagnostics.get? u = none ∧ s.dependencies.get? u = none
  closed : ∀ u, s.documents.has u = false →
    s.diagnosticsOf u = [] ∧ s.dependencies.has u = false
  short : ∀ u, (s.diagnosticsOf u).length ≤ 1

theorem tidy_ofSettings (root : Option Path) (settings : Settings) :
    (ofSettings root settings).Tidy :=
  ⟨fun _ _ _ => ⟨rfl, rfl⟩, fun _ _ => ⟨rfl, rfl⟩, fun _ => Nat.zero_le 1⟩

/-- A notice leaves the session tidy, in whatever way it ends. -/
theorem Tidy.of_treatment (hs : s.Tidy) (h : ∀ u, Treatment s result u) :
    result.2.session.Tidy := by
  refine ⟨fun u f hu => ?_, fun u hclosed => ?_, fun u => ?_⟩
  · cases h u with
    | diagnosed _ hdiagnosed =>
      obtain ⟨p, hp⟩ := hdiagnosed.path
      exact nomatch hp.symm.trans hu
    | cleared _ hpath =>
      obtain ⟨p, hp⟩ := hpath
      exact nomatch hp.symm.trans hu
    | kept _ hstored | abandoned _ hstored =>
      rw [hstored.diagnostics, hstored.dependencies]
      exact hs.unaddressed u f hu
  · cases h u with
    | diagnosed _ hdiagnosed => exact nomatch hclosed.symm.trans hdiagnosed.isOpen
    | cleared _ _ _ hdiagnostics hdependencies => exact ⟨hdiagnostics, hdependencies⟩
    | kept _ hstored hopen =>
      rw [hstored.diagnosticsOf_eq, hstored.has_dependencies_eq]
      exact hs.closed u (hopen.symm.trans hclosed)
    | abandoned _ hstored hopen =>
      rw [hstored.diagnosticsOf_eq, hstored.has_dependencies_eq]
      obtain hopen | ⟨f, hpath⟩ := hopen
      · exact nomatch hclosed.symm.trans hopen
      · obtain ⟨hdiagnostics, hdependencies⟩ := hs.unaddressed u f hpath
        exact ⟨congrArg (·.getD []) hdiagnostics, congrArg Option.isSome hdependencies⟩
  · cases h u with
    | diagnosed _ hdiagnosed => exact hdiagnosed.diagnostics
    | cleared _ _ _ hdiagnostics => simp [hdiagnostics]
    | kept _ hstored | abandoned _ hstored =>
      rw [hstored.diagnosticsOf_eq]
      exact hs.short u

/-! ### What is published -/

/-- The diagnostics of an address that were published last; none if it was never published. -/
def shown (published : List Publication) (u : Address) : List Diagnostic :=
  published.foldl (fun last e => if e.uri = u then e.diagnostics else last) []

/-- What an activity publishes takes the place of what was shown before. -/
theorem shown_append_publications (published : List Publication) (a : Activity) (u : Address) :
    shown (published ++ a.publications) u =
      if u ∈ a.renewed then a.session.diagnosticsOf u else shown published u := by
  rw [shown, List.foldl_append, ← shown, Activity.publications, List.foldl_map]
  generalize a.renewed = renewed
  induction renewed using List.reverseRecOn with
  | nil => rfl
  | append_singleton renewed v ih =>
    rw [List.foldl_append, List.foldl_cons, List.foldl_nil, ih]
    by_cases hv : v = u
    · simp [hv]
    · simp [hv, Ne.symm hv]

/-- **The view of the editor mirrors the session**: the last publication of every address is what is
stored, every open document was published, a document that is not open has no diagnostics, one
diagnostic was published at a time at most, and dependencies are recorded of the open documents and
of no others. -/
structure Mirrored (s : Session) (published : List Publication) : Prop where
  shown_eq : ∀ u, shown published u = s.diagnosticsOf u
  isPublished : ∀ u, s.documents.has u = true → ∃ e ∈ published, e.uri = u
  closed : ∀ u, s.documents.has u = false → s.diagnosticsOf u = []
  short : ∀ e ∈ published, e.diagnostics.length ≤ 1
  recorded : ∀ u, s.dependencies.has u = s.documents.has u

/-- **A notice conceals something from the editor**: it ends with a fault, so that nothing is
published, and it has changed what is stored, or it has opened a document that was never published
or of which no dependencies are recorded. -/
def Conceals (w : Surroundings) (s : Session) (published : List Publication) (n : Notice) : Prop :=
  (∃ f, (s.serve w n.request).1.reply = .error f) ∧
    ∃ u, (s.told w n).diagnosticsOf u ≠ s.diagnosticsOf u ∨
      s.documents.has u = false ∧ (s.told w n).documents.has u = true ∧
        ((∀ e ∈ published, e.uri ≠ u) ∨ (s.told w n).dependencies.has u = false)

/-- A notice that ends well keeps the view. -/
theorem Mirrored.of_treatment (hs : s.Mirrored published) (htidy : s.Tidy)
    (h : ∀ u, Treatment s result u) (hwell : result.1 = none) :
    result.2.session.Mirrored (published ++ result.2.publications) := by
  have htidy' := htidy.of_treatment h
  have hnofault : ¬ ∃ f, result.1 = some f := by simp [hwell]
  refine ⟨fun u => ?_, fun u hopen => ?_, fun u hclosed => (htidy'.closed u hclosed).1,
    fun e he => ?_, fun u => ?_⟩
  · rw [shown_append_publications]
    cases h u with
    | diagnosed hrenewed | cleared hrenewed => rw [if_pos hrenewed]
    | kept hrenewed hstored => rw [if_neg hrenewed, hs.shown_eq, hstored.diagnosticsOf_eq]
    | abandoned hfault => exact absurd hfault hnofault
  · have hrenewed : u ∈ result.2.renewed →
        ∃ e ∈ published ++ result.2.publications, e.uri = u := fun hu =>
      ⟨_, List.mem_append_right _ (List.mem_map_of_mem hu), rfl⟩
    cases h u with
    | diagnosed hu | cleared hu => exact hrenewed hu
    | kept _ _ hsame =>
      obtain ⟨e, he, heu⟩ := hs.isPublished u (hsame.symm.trans hopen)
      exact ⟨e, List.mem_append_left _ he, heu⟩
    | abandoned hfault => exact absurd hfault hnofault
  · obtain he | he := List.mem_append.mp he
    · exact hs.short e he
    · obtain ⟨u, -, rfl⟩ := List.mem_map.mp he
      exact htidy'.short u
  · cases h u with
    | diagnosed _ hdiagnosed => rw [hdiagnosed.dependencies, hdiagnosed.isOpen]
    | cleared _ _ hclosed _ hdependencies => rw [hdependencies, hclosed]
    | kept _ hstored hopen => rw [hstored.has_dependencies_eq, hopen, hs.recorded]
    | abandoned hfault => exact absurd hfault hnofault

/-- **A notice that ends with a fault** keeps the view if and only if it conceals nothing. -/
theorem Mirrored.iff_not_conceals (hs : s.Mirrored published) (htidy : s.Tidy)
    (h : ∀ u, Treatment s result u) (htold : s.told w n = result.2.session) {f : Fault}
    (hreply : (s.serve w n.request).1.reply = .error f) :
    (s.told w n).Mirrored published ↔ ¬ s.Conceals w published n := by
  have htidy' := htidy.of_treatment h
  rw [← htold] at htidy'
  constructor
  · rintro hs' ⟨-, u, hchanged | ⟨-, hopen, hnew | hunrecorded⟩⟩
    · exact hchanged ((hs'.shown_eq u).symm.trans (hs.shown_eq u))
    · obtain ⟨e, he, heu⟩ := hs'.isPublished u hopen
      exact hnew e he heu
    · exact nomatch hunrecorded.symm.trans ((hs'.recorded u).trans hopen)
  · intro hn
    have hkept : ∀ u, (s.told w n).diagnosticsOf u = s.diagnosticsOf u := fun u =>
      Classical.byContradiction fun hu => hn ⟨⟨f, hreply⟩, u, .inl hu⟩
    -- what the notice has opened was published before, and its dependencies are recorded
    have hopened : ∀ u, s.documents.has u = false → (s.told w n).documents.has u = true →
        (∃ e ∈ published, e.uri = u) ∧ (s.told w n).dependencies.has u = true := by
      intro u hclosed hopen
      refine ⟨Classical.byContradiction fun hu => ?_, eq_true_of_ne_false fun hu => ?_⟩
      · exact hn ⟨⟨f, hreply⟩, u, .inr ⟨hclosed, hopen, .inl fun e he heu => hu ⟨e, he, heu⟩⟩⟩
      · exact hn ⟨⟨f, hreply⟩, u, .inr ⟨hclosed, hopen, .inr hu⟩⟩
    refine ⟨fun u => (hs.shown_eq u).trans (hkept u).symm, fun u hopen => ?_,
      fun u hclosed => (htidy'.closed u hclosed).1, hs.short, fun u => ?_⟩
    · cases hold : s.documents.has u with
      | true => exact hs.isPublished u hold
      | false => exact (hopened u hold hopen).1
    · cases hopen : (s.told w n).documents.has u with
      | false => exact (htidy'.closed u hopen).2
      | true =>
        cases hold : s.documents.has u with
        | false => exact (hopened u hold hopen).2
        | true =>
          rw [htold] at hopen ⊢
          cases h u with
          | diagnosed _ hdiagnosed => exact hdiagnosed.dependencies
          | cleared _ _ hclosed => exact nomatch hclosed.symm.trans hopen
          | kept _ hstored | abandoned _ hstored =>
            rw [hstored.has_dependencies_eq, hs.recorded, hold]

/-! ### Along the notices of an editor -/

/-- All that is published while notices are told in a row, each with its surroundings. -/
def publishedIn (s : Session) : List (Surroundings × Notice) → List Publication
  | [] => []
  | (w, n) :: notices => (s.serve w n.request).1.published ++ (s.told w n).publishedIn notices

theorem publishedIn_concat (s : Session) (notices : List (Surroundings × Notice))
    (e : Surroundings × Notice) :
    s.publishedIn (notices ++ [e]) =
      s.publishedIn notices ++ ((s.toldIn notices).serve e.1 e.2.request).1.published := by
  induction notices generalizing s with
  | nil => simp [publishedIn, toldIn]
  | cons e' notices ih =>
    rw [List.cons_append, publishedIn, ih, publishedIn, List.append_assoc]
    rfl

/-- A session is tidy after any notices, in whatever surroundings they are told and however they
end. -/
theorem tidy_toldIn (root : Option Path) (settings : Settings)
    (notices : List (Surroundings × Notice)) :
    ((ofSettings root settings).toldIn notices).Tidy := by
  induction notices using List.reverseRecOn with
  | nil => exact tidy_ofSettings root settings
  | append_singleton notices e ih =>
    obtain ⟨result, hserve, htreatment⟩ :=
      exists_treatment e.1 ((ofSettings root settings).toldIn notices) e.2
    rw [toldIn_concat, told, hserve]
    exact ih.of_treatment htreatment

/-- One more notice keeps the view if and only if it conceals nothing. -/
theorem Mirrored.told_iff (hs : s.Mirrored published) (htidy : s.Tidy) (w : Surroundings)
    (n : Notice) :
    (s.told w n).Mirrored (published ++ (s.serve w n.request).1.published) ↔
      ¬ s.Conceals w published n := by
  obtain ⟨result, hserve, htreatment⟩ := exists_treatment w s n
  have htold : s.told w n = result.2.session := congrArg Prod.snd hserve
  match result, hserve, htreatment, htold with
  | (none, a), hserve, htreatment, htold =>
    have hwell : ¬ s.Conceals w published n := by
      rintro ⟨⟨f, hf⟩, -⟩
      rw [hserve] at hf
      cases hf
    rw [htold, hserve]
    exact iff_of_true (hs.of_treatment htidy htreatment rfl) hwell
  | (some f, a), hserve, htreatment, htold =>
    have hreply : (s.serve w n.request).1.reply = .error f := by
      rw [hserve]
      rfl
    have hnone : (s.serve w n.request).1.published = [] := by
      rw [hserve]
      rfl
    rw [hnone, List.append_nil]
    exact hs.iff_not_conceals htidy htreatment htold hreply

/-- **When the view of the editor mirrors the session.** From a fresh session, in whatever
surroundings the notices are told, the view mirrors the session throughout a run if and only if no
notice of the run conceals something. In particular it does so if no notice ends with a fault. -/
theorem mirrored_iff (root : Option Path) (settings : Settings)
    (notices : List (Surroundings × Notice)) :
    (∀ before, before <+: notices →
        ((ofSettings root settings).toldIn before).Mirrored
          ((ofSettings root settings).publishedIn before)) ↔
      ∀ before w n, before ++ [(w, n)] <+: notices →
        ¬ ((ofSettings root settings).toldIn before).Conceals w
          ((ofSettings root settings).publishedIn before) n := by
  constructor
  · intro h before w n hbefore
    have hs := h before ((List.prefix_append _ _).trans hbefore)
    have hs' := h _ hbefore
    rw [toldIn_concat, publishedIn_concat] at hs'
    exact (hs.told_iff (tidy_toldIn root settings before) w n).mp hs'
  intro h before
  induction before using List.reverseRecOn with
  | nil =>
    intro _
    exact ⟨fun _ => rfl, fun _ => nofun, fun _ _ => rfl, nofun, fun _ => rfl⟩
  | append_singleton before e ih =>
    intro hbefore
    have hs := ih ((List.prefix_append before [e]).trans hbefore)
    rw [toldIn_concat, publishedIn_concat]
    exact (hs.told_iff (tidy_toldIn root settings before) e.1 e.2).mpr
      (h before e.1 e.2 hbefore)

/-- **The view is left behind** when a document is opened that includes itself from above the root:
its diagnosis ends with a fault, and although it is open from then on, nothing was published for
it. -/
theorem not_mirrored_of_endless_chain :
    ({ validate := .bool false } : Settings).sourceEncoding = .ok .utf8 ∧
      ¬ ((ofSettings none { validate := .bool false }).toldIn
          [(loopingFile, .opened loopAddress loopSource)]).Mirrored
        ((ofSettings none { validate := .bool false }).publishedIn
          [(loopingFile, .opened loopAddress loopSource)]) := by
  refine ⟨by decide +kernel, fun hs => ?_⟩
  have htold : (ofSettings none { validate := .bool false }).toldIn
      [(loopingFile, .opened loopAddress loopSource)] = withLoop := by
    rw [toldIn, List.foldl_cons, List.foldl_nil, told, Notice.request, serve_openLoop]
  have hpublished : (ofSettings none { validate := .bool false }).publishedIn
      [(loopingFile, .opened loopAddress loopSource)] = [] := by
    rw [publishedIn, publishedIn, Notice.request, serve_openLoop]
    rfl
  rw [htold, hpublished] at hs
  obtain ⟨e, he, -⟩ := hs.isPublished loopAddress (by decide +kernel)
  exact List.not_mem_nil he

end Session

end Editor

end ShaderInclude
