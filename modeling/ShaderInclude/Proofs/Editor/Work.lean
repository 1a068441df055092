import ShaderInclude.Proofs.Editor.Notice

/-!
# Work, however it ends

A piece of work may end early with a fault, and what was done before stays. However it ends, it has
recorded diagnoses of open documents, one after the other, and done nothing else: this is
`Activity.Renews`, and all pieces of work are of this kind (`Activity.renews_refresh`,
`Activity.renews_refreshDependents`). So what is recorded for an address is as it was, or the
address is that of an open document which the work has diagnosed
(`Activity.Renews.stored_or_diagnosed`).
-/

namespace ShaderInclude

namespace Editor

variable {w : Surroundings} {s s' : Session} {uri u : Address} {p : Path} {text : Text}
  {d : Diagnosis} {a a' a'' : Activity}

/-- **The document is diagnosed**: it is open, and there is a path, a list of dependencies and no
more than one diagnostic for it. -/
structure Session.Diagnosed (s : Session) (u : Address) : Prop where
  isOpen : s.documents.has u = true
  path : ∃ p, Uri.toPath u = .ok p
  dependencies : s.dependencies.has u = true
  diagnostics : (s.diagnosticsOf u).length ≤ 1

/-- What is recorded for the address is the same in both sessions. -/
structure Session.StoredAlike (s s' : Session) (u : Address) : Prop where
  diagnostics : s'.diagnostics.get? u = s.diagnostics.get? u
  dependencies : s'.dependencies.get? u = s.dependencies.get? u

theorem Session.StoredAlike.refl (s : Session) (u : Address) : s.StoredAlike s u := ⟨rfl, rfl⟩

theorem Session.StoredAlike.trans {s'' : Session} (h : s.StoredAlike s' u)
    (h' : s'.StoredAlike s'' u) : s.StoredAlike s'' u :=
  ⟨h'.diagnostics.trans h.diagnostics, h'.dependencies.trans h.dependencies⟩

theorem Session.StoredAlike.has_dependencies_eq (h : s.StoredAlike s' u) :
    s'.dependencies.has u = s.dependencies.has u :=
  congrArg Option.isSome h.dependencies

theorem Session.StoredAlike.diagnosticsOf_eq (h : s.StoredAlike s' u) :
    s'.diagnosticsOf u = s.diagnosticsOf u :=
  congrArg (·.getD []) h.diagnostics

theorem Session.Diagnosed.of_storedAlike (h : s.Diagnosed u)
    (hdocuments : s'.documents = s.documents) (hstored : s.StoredAlike s' u) : s'.Diagnosed u where
  isOpen := hdocuments ▸ h.isOpen
  path := h.path
  dependencies := hstored.has_dependencies_eq ▸ h.dependencies
  diagnostics := hstored.diagnosticsOf_eq ▸ h.diagnostics

/-- A diagnosis has one diagnostic at most. -/
theorem Session.length_diagnostics_le_one (hp : p.IsCanonical)
    (hd : s.diagnosis w p text = .ok d) : d.diagnostics.length ≤ 1 := by
  obtain ⟨r, state, -, houtcome⟩ := s.exists_loads w hp text
  rw [hd] at houtcome
  obtain ⟨-, ⟨m, -, hclean, -⟩ | ⟨e, -, -, hfound⟩⟩ := diagnosis_cases houtcome
  · simp [hclean]
  · simp [hfound]

namespace Activity

/-- **Diagnoses that are recorded one after the other**, each of a document that is open. -/
inductive Renews (w : Surroundings) (a : Activity) : Activity → Prop
  | refl : Renews w a a
  | record {a' : Activity} {uri : Address} {p : Path} {text : Text} {d : Diagnosis}
      (h : Renews w a a') (htext : a'.session.documents.get? uri = some text)
      (hpath : Uri.toPath uri = .ok p) (hd : a'.session.diagnosis w p text = .ok d) :
    Renews w a (a'.record uri d)

namespace Renews

theorem trans (h : Renews w a a') (h' : Renews w a' a'') : Renews w a a'' := by
  induction h' with
  | refl => exact h
  | record _ htext hpath hd ih => exact .record ih htext hpath hd

/-- Whatever was recorded, the view of the documents is the same, except that the session may have
stopped checking. -/
theorem eases (h : Renews w a a') : Session.Eases w a.session a'.session := by
  induction h with
  | refl => exact .refl w a.session
  | record _ _ hpath hd ih =>
    exact ih.trans (eases_record (Uri.isCanonical_of_toPath hpath) hd _)

theorem renewed_subset (h : Renews w a a') : a.renewed ⊆ a'.renewed := by
  induction h with
  | refl => exact List.Subset.refl _
  | record _ _ _ _ ih => exact List.Subset.trans ih (List.subset_append_left _ _)

/-- **What is recorded for an address** is as it was, or the work has renewed it, and the document
is diagnosed. -/
theorem stored_or_diagnosed (h : Renews w a a') (u : Address) :
    (u ∈ a'.renewed ↔ u ∈ a.renewed) ∧ a.session.StoredAlike a'.session u ∨
      u ∈ a'.renewed ∧ a'.session.Diagnosed u := by
  induction h with
  | refl => exact .inl ⟨Iff.rfl, .refl _ _⟩
  | @record a' uri p text d _ htext hpath hd ih =>
    by_cases hu : uri = u
    · subst hu
      refine .inr ⟨List.mem_append_right _ List.mem_cons_self,
        OrderedMap.has_eq_true_iff.mpr ⟨text, htext⟩, ⟨p, hpath⟩, ?_, ?_⟩
      · refine OrderedMap.has_eq_true_iff.mpr ⟨d.dependencies, ?_⟩
        rw [dependencies_record, if_pos rfl]
      · rw [diagnosticsOf_record, if_pos rfl]
        exact Session.length_diagnostics_le_one (Uri.isCanonical_of_toPath hpath) hd
    · obtain ⟨hdiagnostics, hdependencies⟩ := stored_record a' hu d
      have hstored : a'.session.StoredAlike (a'.record uri d).session u :=
        ⟨hdiagnostics, hdependencies⟩
      have hrenewed : u ∈ (a'.record uri d).renewed ↔ u ∈ a'.renewed := by
        simp [Activity.record, Ne.symm hu]
      obtain ⟨hmem, hsame⟩ | ⟨hmem, hdiagnosed⟩ := ih
      · exact .inl ⟨hrenewed.trans hmem, hsame.trans hstored⟩
      · exact .inr ⟨hrenewed.mpr hmem, hdiagnosed.of_storedAlike rfl hstored⟩

end Renews

/-! ### All work is of this kind -/

theorem renews_diagnose (w : Surroundings) (htext : a.session.documents.get? uri = some text)
    (hpath : Uri.toPath uri = .ok p) : Renews w a (a.diagnose w uri p text).2 := by
  unfold diagnose
  split
  case h_1 => exact .refl
  case h_2 d hd => exact .record .refl htext hpath hd

theorem renews_diagnoseAt (w : Surroundings) (htext : a.session.documents.get? uri = some text) :
    Renews w a (a.diagnoseAt w uri text).2 := by
  unfold diagnoseAt
  split
  case h_1 => exact .refl
  case h_2 p hpath => exact renews_diagnose w htext hpath

theorem renews_diagnoseDependents (w : Surroundings) (p : Path)
    (entries : List (Address × List Path)) (a : Activity) :
    Renews w a (diagnoseDependents w p entries a).2 := by
  induction entries generalizing a with
  | nil => exact .refl
  | cons entry entries ih =>
    obtain ⟨uri, dependencies⟩ := entry
    rw [diagnoseDependents]
    split
    case h_1 => exact ih a
    case h_2 text htext =>
      obtain ⟨-, htext⟩ := Option.ite_none_right_eq_some.mp htext
      have hfirst := renews_diagnoseAt w htext
      split
      case h_1 hres =>
        rw [hres] at hfirst
        exact hfirst
      case h_2 hres =>
        rw [hres] at hfirst
        exact hfirst.trans (ih _)

theorem renews_refreshDependents (w : Surroundings) (p : Path) (a : Activity) :
    Renews w a (a.refreshDependents w p).2 :=
  renews_diagnoseDependents w p a.session.dependencies.entries a

/-- **A refresh records diagnoses**, whether or not it ends well. If it does, that of its own
document is among them. -/
theorem renews_refresh (w : Surroundings) (htext : a.session.documents.get? uri = some text)
    (hpath : Uri.toPath uri = .ok p) :
    Renews w a (a.refresh w uri p text).2 ∧
      ((a.refresh w uri p text).1 = none → uri ∈ (a.refresh w uri p text).2.renewed) := by
  have hfirst := renews_diagnose w htext hpath
  unfold refresh
  split
  case h_1 hres =>
    rw [hres] at hfirst
    exact ⟨hfirst, nofun⟩
  case h_2 hres =>
    rw [hres] at hfirst
    have hrest := renews_refreshDependents w p
    refine ⟨hfirst.trans (hrest _), fun _ => ?_⟩
    obtain ⟨d, -, rfl⟩ := eq_record_of_diagnose hres
    exact (hrest _).renewed_subset (List.mem_append_right _ List.mem_cons_self)

end Activity

end Editor

end ShaderInclude
