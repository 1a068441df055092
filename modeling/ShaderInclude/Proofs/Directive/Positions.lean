import Mathlib.Data.List.DropRight
import Mathlib.Data.List.GetD
import Mathlib.Logic.Relation
import ShaderInclude.Proofs.Directive.Search
import ShaderInclude.Proofs.Text.Position

/-!
# Lines and columns

The line of an offset is the number of newlines before it, and the column is the number of
characters between the last of them and the offset. The bisection that finds them ends after
finitely many rounds, with both bounds at the line (`LineIndex.reaches_line`), and the line is the
one that has as many starts before it as there are newlines (`LineIndex.line_ofText`).

Main statement: `LineIndex.position_counts_newlines`. Offsets and positions correspond, in the same
order, and so a directive contains the positions of the offsets from its start to its stop.
-/

namespace ShaderInclude

namespace LineIndex

variable {starts : Array Nat} {offset low high : Nat}

/-! ### The rounds of the bisection -/

/-- A round of the bisection, which brings its two bounds together. If the line in the middle starts
at the offset or before it, it is the new lower bound. Otherwise the line before it is the new upper
one. -/
inductive Narrows (starts : Array Nat) (offset : Nat) : Nat × Nat → Nat × Nat → Prop
  | up {low high : Nat} (hlt : low < high)
      (hmid : starts.getD ((low + high + 1) / 2) 0 ≤ offset) :
      Narrows starts offset (low, high) ((low + high + 1) / 2, high)
  | down {low high : Nat} (hlt : low < high)
      (hmid : offset < starts.getD ((low + high + 1) / 2) 0) :
      Narrows starts offset (low, high) (low, (low + high + 1) / 2 - 1)

/-- **No bisection is endless**, whatever the index. -/
theorem wellFounded_narrows (starts : Array Nat) (offset : Nat) :
    WellFounded fun narrowed bounds => Narrows starts offset bounds narrowed := by
  -- the bounds come closer
  refine Subrelation.wf ?_ (measure fun bounds : Nat × Nat => bounds.2 - bounds.1).wf
  rintro narrowed bounds h
  change narrowed.2 - narrowed.1 < bounds.2 - bounds.1
  cases h with
  | up hlt => simp only; omega
  | down hlt => simp only; omega

/-- The rounds of a bisection lead to both bounds at what it finds. -/
theorem reaches_bisect (starts : Array Nat) (offset : Nat) (hle : low ≤ high) :
    Relation.ReflTransGen (Narrows starts offset) (low, high)
      (bisect starts offset low high, bisect starts offset low high) := by
  induction low, high using bisect.induct starts offset with
  | case1 low high hlt hmid ih =>
    rw [bisect, if_pos hlt, if_pos hmid]
    exact .head (.up hlt hmid) (ih (by omega))
  | case2 low high hlt hmid ih =>
    rw [bisect, if_pos hlt, if_neg hmid]
    exact .head (.down hlt (not_le.mp hmid)) (ih (by omega))
  | case3 low high hlt =>
    obtain rfl : low = high := by omega
    rw [bisect, if_neg hlt]

theorem reaches_line (index : LineIndex) (o : Nat) :
    Relation.ReflTransGen (Narrows index.starts o) (0, index.starts.size - 1)
      (index.line o, index.line o) :=
  reaches_bisect index.starts o (Nat.zero_le _)

/-! ### What the starts count -/

theorem startsAfter_append (offset : Nat) (t u : Text) :
    startsAfter offset (t ++ u) = startsAfter offset t ++ startsAfter (offset + t.length) u := by
  induction t generalizing offset with
  | nil => rfl
  | cons c t ih =>
    have hoffset : offset + 1 + t.length = offset + (c :: t).length := by
      rw [List.length_cons]
      omega
    rw [List.cons_append, startsAfter, startsAfter, ih, hoffset]
    split <;> rfl

/-- There is a start behind each newline. -/
theorem length_startsAfter (offset : Nat) (t : Text) :
    (startsAfter offset t).length = t.count '\n' := by
  induction t generalizing offset with
  | nil => rfl
  | cons c t ih =>
    rw [startsAfter]
    split
    case isTrue hc => rw [hc, List.length_cons, ih, List.count_cons_self]
    case isFalse hc => rw [ih, List.count_cons_of_ne hc]

/-- As many starts behind the first as there are newlines, there is one that is as far from the end
as the last newline. -/
theorem getD_startsAfter (offset : Nat) (t : Text) :
    (offset :: startsAfter offset t).getD (t.count '\n') 0 + (t.rtakeWhile (· ≠ '\n')).length =
      offset + t.length := by
  induction t using List.reverseRecOn with
  | nil => rfl
  | append_singleton t c ih =>
    have hlength : (offset :: startsAfter offset t).length = t.count '\n' + 1 := by
      rw [List.length_cons, length_startsAfter]
    rw [startsAfter_append, ← List.cons_append, List.length_append, List.length_singleton]
    by_cases hc : c = '\n'
    · subst hc
      rw [List.count_append, List.count_singleton_self, List.getD_append_right _ _ _ _ hlength.le,
        hlength, Nat.sub_self, List.rtakeWhile_concat_neg _ _ _ (by simp)]
      rfl
    · have hsame : startsAfter (offset + t.length) [c] = [] := by rw [startsAfter, if_neg hc]; rfl
      rw [hsame, List.append_nil, List.count_append, List.count_singleton, beq_eq_false_iff_ne.mpr hc,
        List.rtakeWhile_concat_pos _ _ _ (by simpa using hc), List.length_append]
      simpa [← Nat.add_assoc] using ih

variable {t : Text} {o : Nat}

/-- The starts of a text, cut at an offset: those of the text before it, and then later ones. -/
theorem getD_starts_ofText (h : o ≤ t.length) (i : Nat) : (ofText t).starts.getD i 0 =
    ((0 :: startsAfter 0 (t.take o)) ++ startsAfter o (t.drop o)).getD i 0 := by
  have hcut : startsAfter 0 t = startsAfter 0 (t.take o) ++ startsAfter o (t.drop o) := by
    conv_lhs => rw [← List.take_append_drop o t]
    rw [startsAfter_append, Nat.zero_add, List.length_take_of_le h]
  rw [ofText, hcut, List.cons_append]
  simp [Array.getD_eq_getD_getElem?, List.getD_eq_getElem?_getD]

theorem size_starts_ofText (t : Text) : (ofText t).starts.size = t.count '\n' + 1 := by
  simp [ofText, length_startsAfter]

/-- **The line of an offset is the number of newlines before it**, and this line starts behind the
last of them. -/
theorem line_ofText (h : o ≤ t.length) :
    (ofText t).line o = (t.take o).count '\n' ∧
      (ofText t).starts.getD ((ofText t).line o) 0 +
        ((t.take o).rtakeWhile (· ≠ '\n')).length = o := by
  obtain ⟨hsize, hbefore, hlater⟩ := (ascending_ofText t).line_spec o
  have hcount : (0 :: startsAfter 0 (t.take o)).length = (t.take o).count '\n' + 1 := by
    rw [List.length_cons, length_startsAfter]
  have htotal : (t.take o).count '\n' + (t.drop o).count '\n' = t.count '\n' := by
    rw [← List.count_append, List.take_append_drop]
  rw [size_starts_ofText] at hsize hlater
  -- where the line starts that the newlines count
  have hstart : (ofText t).starts.getD ((t.take o).count '\n') 0 +
      ((t.take o).rtakeWhile (· ≠ '\n')).length = o := by
    rw [getD_starts_ofText h, List.getD_append _ _ _ _ (by omega), getD_startsAfter,
      List.length_take_of_le h, Nat.zero_add]
  have hline : (ofText t).line o = (t.take o).count '\n' := by
    rcases Nat.lt_trichotomy ((ofText t).line o) ((t.take o).count '\n') with hlt | heq | hgt
    · have hafter := hlater _ hlt (by omega)
      omega
    · exact heq
    · -- every line after that one starts after the offset
      have hrest : (ofText t).line o - ((t.take o).count '\n' + 1) <
          (startsAfter o (t.drop o)).length := by
        rw [length_startsAfter]
        omega
      rw [getD_starts_ofText h, List.getD_append_right _ _ _ _ (by omega), hcount,
        List.getD_eq_getElem _ _ hrest] at hbefore
      have hafter := (List.pairwise_cons.mp (startsAfter_pairwise o (t.drop o))).1 _
        (List.getElem_mem hrest)
      omega
  exact ⟨hline, hline ▸ hstart⟩

/-- The position of an offset is the number of newlines before it, and the number of characters
behind the last of them. -/
theorem position_ofText (h : o ≤ t.length) : (ofText t).position o =
    ⟨(t.take o).count '\n', ((t.take o).rtakeWhile (· ≠ '\n')).length⟩ := by
  obtain ⟨hline, hstart⟩ := line_ofText h
  simp only [position, hline] at hstart ⊢
  congr 1
  omega

/-- **Positions count newlines.** The bisection that finds the line of an offset ends: no sequence of
its rounds is endless, whatever the index, and those on the index of a text lead to both bounds at
the line. For an offset of the text the line is the number of newlines before it, and the column is
its distance from the character behind the last of them, or from the start of the text if there is
none. Of two offsets the greater one has the later position, and so a directive contains the position
of an offset exactly if the offset is between the start of the directive and its stop, both
included. -/
theorem position_counts_newlines :
    (∀ (starts : Array Nat) (o : Nat),
      WellFounded fun narrowed bounds => Narrows starts o bounds narrowed) ∧
    ∀ t : Text,
      (∀ o ≤ t.length,
        Relation.ReflTransGen (Narrows (ofText t).starts o) (0, (ofText t).starts.size - 1)
          ((ofText t).line o, (ofText t).line o) ∧
        (ofText t).position o =
          ⟨(t.take o).count '\n', ((t.take o).rtakeWhile (· ≠ '\n')).length⟩) ∧
      (∀ o o', (ofText t).position o < (ofText t).position o' ↔ o < o') ∧
      ∀ d ∈ Directive.scan t, ∀ o,
        (d.span (ofText t)).contains ((ofText t).position o) = true ↔ d.start ≤ o ∧ o ≤ d.stop := by
  refine ⟨wellFounded_narrows, fun t => ⟨fun o ho => ⟨reaches_line (ofText t) o, position_ofText ho⟩,
    fun o o' => (ascending_ofText t).position_lt_iff,
    fun d _ o => (ascending_ofText t).contains_span_iff⟩⟩

/-- Between two newlines, and at the two ends of a directive that stands behind them. -/
theorem position_counts_newlines_between :
    let t := "a\n\nb;& include 'c';".toList
    let d : Directive := ⟨.line, ['c'], 5, 19⟩
    2 ≤ t.length ∧ (ofText t).position 2 = ⟨1, 0⟩ ∧ d ∈ Directive.scan t ∧
      (d.span (ofText t)).contains ((ofText t).position 4) ≠ true ∧
      (d.span (ofText t)).contains ((ofText t).position 5) = true ∧
      (d.span (ofText t)).contains ((ofText t).position 19) = true := by
  intro t d
  have hlength : 2 ≤ t.length := by decide
  have hd : d ∈ Directive.scan t := Directive.mem_scan.mpr ⟨.line, by decide +kernel⟩
  obtain ⟨-, h⟩ := position_counts_newlines
  obtain ⟨hposition, -, hcontains⟩ := h t
  have hcounted : (⟨(t.take 2).count '\n', ((t.take 2).rtakeWhile (· ≠ '\n')).length⟩ : Position) =
      ⟨1, 0⟩ := by
    decide +kernel
  refine ⟨hlength, (hposition 2 hlength).2.trans hcounted, hd, fun h => ?_, ?_, ?_⟩
  · exact absurd ((hcontains d hd 4).mp h) (by decide)
  · exact (hcontains d hd 5).mpr ⟨by decide, by decide⟩
  · exact (hcontains d hd 19).mpr ⟨by decide, by decide⟩

end LineIndex

end ShaderInclude
