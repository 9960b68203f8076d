import Mathlib.Algebra.BigOperators.Group.List.Basic
import Mathlib.Algebra.Order.Field.Basic
import Mathlib.Algebra.Order.Field.Rat
import Mathlib.Data.List.Sort
import Mathlib.Data.Prod.Lex
import Mathlib.Order.WithBot
import QuePaxa.Library.OrderedMap

/-! Averages of samples that are counted and summed up by group, and compared without division. -/
namespace Library

/-- The average of the samples; no samples at all are beyond every average. -/
def mean (samples : List Nat) : WithTop ℚ :=
  if samples = [] then ⊤ else ((samples.sum : ℚ) / samples.length : ℚ)

def average : Option (Nat × Nat) → WithTop ℚ
  | some (count, total) => ((total : ℚ) / count : ℚ)
  | none => ⊤

theorem average_samples (samples : List Nat) :
    average (if samples = [] then none else some (samples.length, samples.sum)) = mean samples := by
  by_cases h : samples = []
  · rw [if_pos h, mean, if_pos h]
    rfl
  · rw [if_neg h, mean, if_neg h]
    rfl

/-- Fractions are compared by cross multiplication. -/
theorem compare_cross {a b c d : Nat} (hb : 0 < b) (hd : 0 < d) :
    compare (a * d) (c * b) = compare (((a : ℚ) / b : ℚ) : WithTop ℚ) (((c : ℚ) / d : ℚ) : WithTop ℚ) := by
  have hb' : (0 : ℚ) < b := Nat.cast_pos.mpr hb
  have hd' : (0 : ℚ) < d := Nat.cast_pos.mpr hd
  rcases lt_trichotomy (a * d) (c * b) with h | h | h
  · rw [compare_lt_iff_lt.mpr h, eq_comm, compare_lt_iff_lt, WithTop.coe_lt_coe, div_lt_div_iff₀ hb' hd']
    exact_mod_cast h
  · rw [compare_eq_iff_eq.mpr h, eq_comm, compare_eq_iff_eq, WithTop.coe_inj, div_eq_div_iff hb'.ne' hd'.ne']
    exact_mod_cast h
  · rw [compare_gt_iff_gt.mpr h, eq_comm, compare_gt_iff_gt, WithTop.coe_lt_coe, div_lt_div_iff₀ hd' hb']
    exact_mod_cast h

section
variable {α : Type}

theorem pairwise_insertionSort_cmp (cmp : α → α → Ordering) [Std.TransCmp cmp] (l : List α) :
    (l.insertionSort fun left right => cmp left right ≠ .gt).Pairwise fun left right => cmp left right ≠ .gt := by
  have htotal : Std.Total fun left right => cmp left right ≠ .gt := by
    constructor
    intro left right
    have hswap : cmp right left = (cmp left right).swap := Std.OrientedCmp.eq_swap
    rw [hswap]
    cases cmp left right <;> decide
  have htrans : IsTrans α fun left right => cmp left right ≠ .gt := by
    constructor
    intro a b c hab hbc
    exact Ordering.isLE_iff_ne_gt.mp (Std.TransCmp.isLE_trans (Ordering.isLE_iff_ne_gt.mpr hab)
      (Ordering.isLE_iff_ne_gt.mpr hbc))
  exact List.pairwise_insertionSort _ l

end

section
variable {κ β : Type} [LinearOrder κ]

/-- Counting and summing up by key gives each key what its items amount to. -/
theorem get_foldl_totals (key : β → κ) (f g : β → Nat) (items : List β) (k : κ) :
    (items.foldl (fun (totals : OrderedMap κ (Nat × Nat)) item =>
      let total := (totals.get (key item)).getD (0, 0)
      totals.insert (key item) (total.1 + f item, total.2 + g item)) ∅).get k =
    if items.filter (key · = k) = [] then none
    else some (((items.filter (key · = k)).map f).sum, ((items.filter (key · = k)).map g).sum) := by
  induction items using List.reverseRecOn with
  | nil => rfl
  | append_singleton items item ih =>
    rw [List.foldl_append, List.foldl_cons, List.foldl_nil, OrderedMap.get_insert]
    by_cases hk : key item = k
    · subst hk
      rw [if_pos rfl, ih]
      simp only [List.filter_append, List.filter_cons, decide_true, if_true, List.filter_nil, List.map_append,
        List.sum_append,
        List.map_cons, List.map_nil, List.sum_singleton, List.append_eq_nil_iff, List.cons_ne_nil, and_false, if_false]
      by_cases hnil : items.filter (key · = key item) = []
      · simp only [hnil, if_true, Option.getD_none, List.map_nil, List.sum_nil]
      · simp only [hnil, if_false, Option.getD_some]
    · rw [if_neg (Ne.symm hk), ih]
      simp only [List.filter_append, List.filter_cons, hk, decide_false, Bool.false_eq_true, if_false, List.filter_nil,
        List.append_nil]

/-- Summed up key by key, the items with one of the keys are counted once each. -/
theorem sum_map_fibres (key : β → κ) (f : β → Nat) {keys : List κ} (h : keys.Nodup) (items : List β) :
    (keys.map fun k => ((items.filter (key · = k)).map f).sum).sum = ((items.filter (key · ∈ keys)).map f).sum := by
  induction keys with
  | nil => simp only [List.map_nil, List.sum_nil, List.not_mem_nil, decide_false, List.filter_false]
  | cons k keys ih =>
    obtain ⟨hk, hkeys⟩ := List.nodup_cons.mp h
    rw [List.map_cons, List.sum_cons, ih hkeys]
    clear ih
    -- No item has both the first key and one of the others.
    induction items with
    | nil => rfl
    | cons item items ih =>
      by_cases hitem : key item = k
      · simp only [List.filter_cons, List.mem_cons, hitem, hk, decide_true, decide_false, true_or, Bool.false_eq_true,
          if_true, if_false, List.map_cons, List.sum_cons]
        simp only [List.mem_cons] at ih
        omega
      · by_cases hother : key item ∈ keys
        · simp only [List.filter_cons, List.mem_cons, hitem, hother, decide_true, decide_false, or_true,
            Bool.false_eq_true,
            if_true, if_false, List.map_cons, List.sum_cons]
          simp only [List.mem_cons] at ih
          omega
        · simp only [List.filter_cons, List.mem_cons, hitem, hother, decide_false, or_false, Bool.false_eq_true,
            if_false]
          simpa only [List.mem_cons] using ih

end
end Library
