import ShaderInclude.Directive.Scan

/-!
# A directive that stands alone

`Directive.lone` writes a source that is nothing but one directive. `Directive.scan_lone` says that
a scan of it gives this directive and no other, for every path without quotes and anchors.
-/

namespace ShaderInclude

namespace Directive

/-- The source that consists of one directive of the line form. -/
def lone (path : Text) : Text := "& include \"".toList ++ (path ++ ['"', ';'])

variable {path : Text}

/-- A character of a path that ends no directive and begins none. -/
def IsPlain (c : Char) : Prop := isQuote c = false ∧ isAnchor c = false

theorem IsPlain.ne_newline {c : Char} (h : IsPlain c) : c ≠ '\n' := by
  rintro rfl
  exact absurd h.2 (by decide)

/-- The path of a lone directive goes up to the closing quote. -/
private theorem path?_lone (hne : path ≠ []) (hplain : ∀ c ∈ path, IsPlain c) :
    path? .line (path ++ ['"', ';']) = some (path, ⟨some ';', []⟩) := by
  induction path with
  | nil => exact absurd rfl hne
  | cons c path ih =>
    obtain ⟨hc, hplain⟩ := List.forall_mem_cons.mp hplain
    rw [List.cons_append, path?, if_neg hc.ne_newline]
    cases path with
    | nil => rfl
    | cons c' path =>
      have hquote : quoteClosing? .line (c' :: path ++ ['"', ';']) = none := by
        simp [quoteClosing?, (hplain c' List.mem_cons_self).1]
      rw [hquote, ih (List.cons_ne_nil c' path) hplain]
      rfl

private theorem occurrence?_lone (hne : path ≠ []) (hplain : ∀ c ∈ path, IsPlain c) :
    occurrence? .line true (lone path) = some ⟨none, [], path, ⟨some ';', []⟩⟩ := by
  have hkeyword : afterKeyword? (lone path) = some (path ++ ['"', ';']) := rfl
  have hopening : afterOpening? .line (skipSpace (lone path)) = some (lone path) := rfl
  have hstart : occurrence? .line true (lone path) = afterAnchor? .line none (lone path) := rfl
  rw [hstart, afterAnchor?, hopening]
  simp only [Option.bind_eq_bind, Option.bind_some, hkeyword, path?_lone hne hplain]
  rfl

/-- Where no anchor stands, no directive begins after the start of a source. -/
private theorem scanFrom_plain (f : Form) {t : Text} {offset : Nat}
    (ht : ∀ c ∈ t, isAnchor c = false) :
    scanFrom f 0 (offset + 1) (t ++ [';']) = [] := by
  induction t generalizing offset with
  | nil => cases f <;> rfl
  | cons c t ih =>
    obtain ⟨hc, ht⟩ := List.forall_mem_cons.mp ht
    rw [List.cons_append, scanFrom]
    simp [occurrence?, hc, ih ht]

/-- Between its first and its last character a lone directive has no anchor. -/
private theorem exists_inner (hplain : ∀ c ∈ path, IsPlain c) :
    ∃ inner, lone path = '&' :: (inner ++ [';']) ∧ ∀ c ∈ inner, isAnchor c = false := by
  refine ⟨" include \"".toList ++ (path ++ ['"']), ?_, fun c hc => ?_⟩
  · rw [List.append_assoc, List.append_assoc]
    rfl
  have hhead : (" include \"".toList).all (fun c => !isAnchor c) = true := by decide +kernel
  simp only [List.mem_append, List.mem_singleton] at hc
  rcases hc with hc | hc | rfl
  · simpa using List.all_eq_true.mp hhead c hc
  · exact (hplain c hc).2
  · rfl

private theorem scanForm_line_lone (hne : path ≠ []) (hplain : ∀ c ∈ path, IsPlain c) :
    scanForm .line (lone path) = [⟨.line, path, 0, (lone path).length⟩] := by
  obtain ⟨inner, hinner, -⟩ := exists_inner hplain
  have hoccurrence := occurrence?_lone hne hplain
  rw [hinner] at hoccurrence ⊢
  rw [scanForm, scanFrom]
  simp only [beq_self_eq_true, hoccurrence, Occurrence.length, Occurrence.shared,
    Option.isSome_some, if_true, List.length_nil, Nat.sub_zero]
  -- the search goes on at the final semicolon, where nothing follows
  have hskip : ('&' :: (inner ++ [';'])).length - 1 - 1 = inner.length := by simp
  have hend : scanFrom .line 0 (0 + 1 + inner.length) [';'] = [] := by
    rw [Nat.zero_add, Nat.add_comm]
    exact scanFrom_plain .line (t := []) (by simp)
  rw [hskip, scanFrom_eq_drop, List.drop_left, hend]
  simp [Occurrence.directive, Occurrence.lead, Occurrence.trail, Occurrence.length]

private theorem scanForm_block_lone (hplain : ∀ c ∈ path, IsPlain c) :
    scanForm .block (lone path) = [] := by
  obtain ⟨inner, hinner, hanchor⟩ := exists_inner hplain
  have hoccurrence : occurrence? .block true ('&' :: (inner ++ [';'])) = none := rfl
  rw [hinner, scanForm, scanFrom]
  simp only [beq_self_eq_true, hoccurrence]
  exact scanFrom_plain .block hanchor

/-- **A lone directive is all that a scan finds**, and it takes up the whole source. -/
theorem scan_lone (hne : path ≠ []) (hplain : ∀ c ∈ path, IsPlain c) :
    scan (lone path) = [⟨.line, path, 0, (lone path).length⟩] := by
  rw [scan, scanForm_line_lone hne hplain, scanForm_block_lone hplain, List.append_nil,
    List.mergeSort_singleton]

end Directive

end ShaderInclude
