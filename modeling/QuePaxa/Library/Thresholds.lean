import Mathlib.Data.Finset.Card

/-! Sets that reach a threshold in each of two finite sets. An element of the intersection
counts for both thresholds, so the smallest such set uses as many of these as it can. -/
namespace Library
variable {α : Type*} [DecidableEq α]

/-- The size of a smallest set that has `a` elements of the one set and `b` of the other, when
`shared` elements are common to both. -/
def twoThresholds (shared a b : Nat) : Nat := a + b - min (min shared a) b

theorem twoThresholds_le {A B S : Finset α} {a b : Nat} (ha : a ≤ (A ∩ S).card) (hb : b ≤ (B ∩ S).card) :
    twoThresholds (A ∩ B).card a b ≤ S.card := by
  have hunion : ((A ∩ S) ∪ (B ∩ S)).card ≤ S.card :=
    Finset.card_le_card (Finset.union_subset Finset.inter_subset_right Finset.inter_subset_right)
  have hboth : (A ∩ S) ∩ (B ∩ S) ⊆ A ∩ B :=
    Finset.inter_subset_inter Finset.inter_subset_left Finset.inter_subset_left
  have hshared : ((A ∩ S) ∩ (B ∩ S)).card ≤ (A ∩ B).card := Finset.card_le_card hboth
  have hleft : ((A ∩ S) ∩ (B ∩ S)).card ≤ (A ∩ S).card := Finset.card_le_card Finset.inter_subset_left
  have hright : ((A ∩ S) ∩ (B ∩ S)).card ≤ (B ∩ S).card := Finset.card_le_card Finset.inter_subset_right
  have hsum := Finset.card_union_add_card_inter (A ∩ S) (B ∩ S)
  unfold twoThresholds
  omega

/-- The bound is attained: extend a common part of the largest useful size on either side. -/
theorem exists_twoThresholds {A B : Finset α} {a b : Nat} (ha : a ≤ A.card) (hb : b ≤ B.card) :
    ∃ S ⊆ A ∪ B, S.card = twoThresholds (A ∩ B).card a b ∧ a ≤ (A ∩ S).card ∧ b ≤ (B ∩ S).card := by
  have hcommon : min (min (A ∩ B).card a) b ≤ (A ∩ B).card := (min_le_left _ _).trans (min_le_left _ _)
  obtain ⟨K, hK, hKcard⟩ := Finset.exists_subset_card_eq hcommon
  have hKa : K.card ≤ a := hKcard ▸ (min_le_left _ _).trans (min_le_right _ _)
  have hKb : K.card ≤ b := hKcard ▸ min_le_right _ _
  obtain ⟨X, hKX, hXA, hX⟩ := Finset.exists_subsuperset_card_eq (hK.trans Finset.inter_subset_left) hKa ha
  obtain ⟨Y, hKY, hYB, hY⟩ := Finset.exists_subsuperset_card_eq (hK.trans Finset.inter_subset_right) hKb hb
  have hA : a ≤ (A ∩ (X ∪ Y)).card :=
    hX ▸ Finset.card_le_card (Finset.subset_inter hXA Finset.subset_union_left)
  have hB : b ≤ (B ∩ (X ∪ Y)).card :=
    hY ▸ Finset.card_le_card (Finset.subset_inter hYB Finset.subset_union_right)
  have hleast := twoThresholds_le hA hB
  have hshared : K.card ≤ (X ∩ Y).card := Finset.card_le_card (Finset.subset_inter hKX hKY)
  have hsum := Finset.card_union_add_card_inter X Y
  refine ⟨X ∪ Y, Finset.union_subset_union hXA hYB, le_antisymm ?_ hleast, hA, hB⟩
  unfold twoThresholds
  omega

end Library
