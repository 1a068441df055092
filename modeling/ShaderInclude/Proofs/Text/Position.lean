import Mathlib.Data.Nat.Basic
import Mathlib.Order.Basic
import ShaderInclude.Text.Position

/-!
# Offsets and their positions

The position of an offset is found by a bisection, which keeps a line that starts at the offset or
before it and a line behind which none does (`LineIndex.bisect_spec`). In the index of a text lines
start one behind the other (`LineIndex.Ascending`), so a greater offset has a later position
(`LineIndex.Ascending.position_lt_iff`). A span therefore contains the position of an offset if and
only if the offset is between the two ends of the span, both included
(`LineIndex.Ascending.contains_span_iff`).
-/

namespace ShaderInclude

namespace Position

theorem lt_irrefl (p : Position) : ¬p < p := by
  rw [lt_iff]
  omega

theorem lt_asymm {p q : Position} (h : p < q) : ¬q < p := by
  rw [lt_iff] at h ⊢
  omega

end Position

namespace LineIndex

variable {starts : Array Nat} {offset o o' low high i j : Nat} {index : LineIndex} {t : Text}

/-- **What bisection finds**, where starts do not fall up to `high`: the last of them, between the
two bounds, that is at the offset or before it. -/
theorem bisect_spec (hsorted : ∀ i j, i ≤ j → j ≤ high → starts.getD i 0 ≤ starts.getD j 0)
    (hle : low ≤ high) (hlow : starts.getD low 0 ≤ offset) :
    bisect starts offset low high ≤ high ∧
      starts.getD (bisect starts offset low high) 0 ≤ offset ∧
      ∀ i, bisect starts offset low high < i → i ≤ high → offset < starts.getD i 0 := by
  induction low, high using bisect.induct starts offset with
  | case1 low high hlt hmid ih =>
    rw [bisect, if_pos hlt, if_pos hmid]
    exact ih hsorted (by omega) hmid
  | case2 low high hlt hmid ih =>
    rw [bisect, if_pos hlt, if_neg hmid]
    obtain ⟨hle', hfound, hlater⟩ :=
      ih (fun i j hij hj => hsorted i j hij (by omega)) (by omega) hlow
    refine ⟨by omega, hfound, fun i hi hhigh => ?_⟩
    -- what is behind the middle is not before it
    by_cases hbefore : i ≤ (low + high + 1) / 2 - 1
    · exact hlater i hi hbefore
    · exact (not_le.mp hmid).trans_le (hsorted _ _ (by omega) hhigh)
  | case3 low high hlt =>
    rw [bisect, if_neg hlt]
    exact ⟨hle, hlow, fun i hi hhigh => by omega⟩

/-- **Lines start one behind the other**, and the first one at the beginning. -/
structure Ascending (index : LineIndex) : Prop where
  size_pos : 0 < index.starts.size
  first : index.starts.getD 0 0 = 0
  ascends : ∀ i j, i < j → j < index.starts.size → index.starts.getD i 0 < index.starts.getD j 0

/-- The starts behind an offset are behind it, each one behind those before it. -/
theorem startsAfter_pairwise (offset : Nat) (t : Text) :
    (offset :: startsAfter offset t).Pairwise (· < ·) := by
  induction t generalizing offset with
  | nil => exact List.pairwise_singleton _ _
  | cons c t ih =>
    have hrest := ih (offset + 1)
    obtain ⟨hlater, hpairwise⟩ := List.pairwise_cons.mp hrest
    rw [startsAfter]
    split
    · refine List.pairwise_cons.mpr ⟨fun n hn => ?_, hrest⟩
      rcases List.mem_cons.mp hn with rfl | hn
      · exact Nat.lt_succ_self offset
      · exact (Nat.lt_succ_self offset).trans (hlater n hn)
    · exact List.pairwise_cons.mpr
        ⟨fun n hn => (Nat.lt_succ_self offset).trans (hlater n hn), hpairwise⟩

theorem ascending_ofText (t : Text) : (ofText t).Ascending where
  size_pos := by simp [ofText]
  first := rfl
  ascends i j hij hj := by
    have hpairwise := List.pairwise_iff_getElem.mp (startsAfter_pairwise 0 t)
    have hj : j < (startsAfter 0 t).length + 1 := by simpa [ofText] using hj
    have hlt := hpairwise i j (hij.trans hj) hj hij
    simpa [ofText, Array.getD, hj, hij.trans hj] using hlt

namespace Ascending

/-- The line of an offset is the last one that starts at the offset or before it. -/
theorem line_spec (h : index.Ascending) (o : Nat) :
    index.line o < index.starts.size ∧ index.starts.getD (index.line o) 0 ≤ o ∧
      ∀ i, index.line o < i → i < index.starts.size → o < index.starts.getD i 0 := by
  have hsorted : ∀ i j, i ≤ j → j ≤ index.starts.size - 1 →
      index.starts.getD i 0 ≤ index.starts.getD j 0 := by
    intro i j hij hj
    rcases hij.eq_or_lt with rfl | hij
    · exact le_rfl
    by_cases hsize : j < index.starts.size
    · exact (h.ascends i j hij hsize).le
    · have hj : j = 0 := by omega
      omega
  have hfirst : index.starts.getD 0 0 ≤ o := h.first.trans_le o.zero_le
  obtain ⟨hle, hfound, hlater⟩ := bisect_spec hsorted (Nat.zero_le _) hfirst
  exact ⟨hle.trans_lt (Nat.pred_lt h.size_pos.ne'), hfound,
    fun i hi hsize => hlater i hi (by omega)⟩

/-- A greater offset is on no earlier line. -/
theorem line_mono (h : index.Ascending) (hle : o ≤ o') : index.line o ≤ index.line o' := by
  by_contra hlt
  obtain ⟨hsize, hstart, -⟩ := h.line_spec o
  obtain ⟨-, -, hlater⟩ := h.line_spec o'
  exact absurd (hlater _ (not_le.mp hlt) hsize) (not_lt.mpr (hstart.trans hle))

theorem position_lt_position (h : index.Ascending) (hlt : o < o') :
    index.position o < index.position o' := by
  rw [Position.lt_iff]
  rcases (h.line_mono hlt.le).lt_or_eq with hline | hline
  · exact .inl (Int.ofNat_lt.mpr hline)
  · refine .inr ⟨congrArg Int.ofNat hline, ?_⟩
    simp only [position, hline]
    omega

/-- **Positions stand as their offsets do.** -/
theorem position_lt_iff (h : index.Ascending) :
    index.position o < index.position o' ↔ o < o' := by
  refine ⟨fun hlt => ?_, h.position_lt_position⟩
  rcases Nat.lt_trichotomy o o' with hoo | rfl | hoo
  · exact hoo
  · exact absurd hlt (Position.lt_irrefl _)
  · exact absurd hlt (Position.lt_asymm (h.position_lt_position hoo))

/-- **A span contains the positions of the offsets between its ends**, both included. -/
theorem contains_span_iff (h : index.Ascending) {start stop : Nat} :
    (index.span start stop).contains (index.position o) = true ↔ start ≤ o ∧ o ≤ stop := by
  simp [Span.contains, span, h.position_lt_iff]

end Ascending

end LineIndex

end ShaderInclude
