import Mathlib.Data.List.GetD
import Mathlib.Data.List.Sort

/-! The last samples of a stream, and nearest-rank percentiles. -/
namespace Library
variable {α : Type}

def lastOf (window : Nat) (samples : List α) : List α := samples.drop (samples.length - window)

theorem lastOf_concat (window : Nat) (samples : List α) (sample : α) :
    lastOf window (lastOf window samples ++ [sample]) = lastOf window (samples ++ [sample]) := by
  by_cases hfull : samples.length ≤ window
  · rw [lastOf.eq_1 window samples, Nat.sub_eq_zero_of_le hfull, List.drop_zero]
  · obtain ⟨excess, hexcess⟩ := Nat.exists_eq_add_of_lt (not_le.mp hfull)
    have hkept : samples.length - window ≤ samples.length := Nat.sub_le ..
    simp only [lastOf]
    rw [← List.drop_append_of_le_length hkept, List.drop_drop, List.length_drop, List.length_append,
      List.length_singleton]
    congr 1
    omega

theorem lastOf_ne_nil {window : Nat} {samples : List α} (hwindow : 0 < window) (h : samples ≠ []) :
    lastOf window samples ≠ [] := by
  have hpos := List.length_pos_iff.mpr h
  rw [lastOf, Ne, List.drop_eq_nil_iff]
  omega

variable [LinearOrder α]

/-- At least `percentile` percent of the samples are at most the value, and fewer are below it. -/
structure NearestRank (percentile : Nat) (samples : List α) (value : α) : Prop where
  sampled : value ∈ samples
  reached : samples.length * percentile ≤ 100 * samples.countP (· ≤ value)
  least : 100 * samples.countP (· < value) < samples.length * percentile

theorem lt_countP_le_getElem {l : List α} (h : l.SortedLE) {i : Nat} (hi : i < l.length) : i < l.countP (· ≤ l[i]) := by
  have hall : (l.take (i + 1)).countP (· ≤ l[i]) = (l.take (i + 1)).length := by
    rw [List.countP_eq_length]
    intro a ha
    obtain ⟨j, hj, rfl⟩ := List.getElem_of_mem ha
    rw [List.length_take] at hj
    rw [List.getElem_take, decide_eq_true_eq]
    exact h.getElem_le_getElem_of_le (by omega)
  have hle := (List.take_sublist (i + 1) l).countP_le (p := (· ≤ l[i]))
  rw [hall, List.length_take] at hle
  omega

theorem countP_lt_getElem_le {l : List α} (h : l.SortedLE) {i : Nat} (hi : i < l.length) : l.countP (· < l[i]) ≤ i := by
  have hnone : (l.drop i).countP (· < l[i]) = 0 := by
    rw [List.countP_eq_zero]
    intro a ha
    obtain ⟨j, hj, rfl⟩ := List.getElem_of_mem ha
    rw [List.length_drop] at hj
    rw [List.getElem_drop, decide_eq_true_eq, not_lt]
    exact h.getElem_le_getElem_of_le (Nat.le_add_right i j)
  calc
    l.countP (· < l[i]) = (l.take i).countP (· < l[i]) + (l.drop i).countP (· < l[i]) := by
      rw [← List.countP_append, List.take_append_drop]
    _ ≤ i := by
      rw [hnone]
      exact List.countP_le_length.trans (List.length_take_le ..)

theorem nearestRank_sorted {samples : List α} {percentile : Nat} (hne : samples ≠ []) (hlow : 1 ≤ percentile)
    (hhigh : percentile ≤ 100) (default : α) :
    NearestRank percentile samples ((samples.insertionSort (· ≤ ·)).getD
      (min ((samples.length * percentile + 99) / 100 - 1) (samples.length - 1)) default) := by
  have hpos := List.length_pos_iff.mpr hne
  have hsome : 1 ≤ samples.length * percentile := Nat.mul_pos hpos hlow
  have hmost : samples.length * percentile ≤ samples.length * 100 := Nat.mul_le_mul_left _ hhigh
  have hperm := List.perm_insertionSort (· ≤ ·) samples
  have hsorted := (List.pairwise_insertionSort (· ≤ ·) samples).sortedLE
  generalize hindex : min ((samples.length * percentile + 99) / 100 - 1) (samples.length - 1) = i
  have hi : i < (samples.insertionSort (· ≤ ·)).length := by
    rw [hperm.length_eq]
    omega
  rw [List.getD_eq_getElem _ _ hi]
  have hreached := lt_countP_le_getElem hsorted hi
  have hleast := countP_lt_getElem_le hsorted hi
  rw [hperm.countP_eq] at hreached hleast
  exact ⟨hperm.mem_iff.mp (List.getElem_mem hi), by omega, by omega⟩

end Library
