import Mathlib.Order.Interval.Finset.Nat
import Mathlib.Data.List.Range
import QuePaxa.Library.Journal

/-! Numbered deliveries over restarts. A journal tells where a lifetime starts, which states
were stored, and which number was delivered; a stored state marks the numbers delivered so
far. Deliveries are in order when each is of the next number and every stored state marks
exactly the numbers below it. -/
namespace Library
variable {ε σ : Type}

structure Delivery (ε σ : Type) where
  starts : ε → Bool
  stored : ε → Option σ
  number : ε → Option Nat
  marks : σ → Finset Nat

namespace Delivery
variable {R : Delivery ε σ} {t p : List ε} {e : ε}

def now (R : Delivery ε σ) (t : List ε) : List Nat := (since R.starts t).filterMap R.number

def loaded (R : Delivery ε σ) (t : List ε) : Finset Nat := ((latest R.stored (upToLast R.starts t)).map R.marks).getD ∅

def next (R : Delivery ε σ) (t : List ε) : Nat := (R.loaded t).card + 1 + (R.now t).length

def Marks (s : Finset Nat) (n : Nat) : Prop := ∀ k, k ∈ s ↔ 1 ≤ k ∧ k < n

def Orderly (R : Delivery ε σ) (t : List ε) : Prop :=
  ∀ p e, p ++ [e] <+: t → (∀ k, R.number e = some k → k = R.next p) ∧ ∀ s, R.stored e = some s →
    Marks (R.marks s) (R.next p)

/-- The deliveries of the present lifetime are consecutive, and start with the first number
that the loaded state does not mark. -/
def Resumes (R : Delivery ε σ) (t : List ε) : Prop :=
  ∃ first, 1 ≤ first ∧ first ∉ R.loaded t ∧ (∀ k, 1 ≤ k → k < first → k ∈ R.loaded t) ∧
    R.now t = List.range' first (R.now t).length

theorem Marks.card {s : Finset Nat} {n : Nat} (h : Marks s n) (hn : 1 ≤ n) : s.card + 1 = n := by
  have hs : s = Finset.Ico 1 n := by
    ext k
    rw [h k, Finset.mem_Ico]
  rw [hs, Nat.card_Ico]
  exact Nat.sub_add_cancel hn

theorem marks_empty : Marks ∅ 1 := by
  intro k
  simp only [Finset.notMem_empty, false_iff]
  omega

theorem Marks.insert {s : Finset Nat} {n : Nat} (h : Marks s n) (hn : 1 ≤ n) : Marks (insert n s) (n + 1) := by
  intro k
  rw [Finset.mem_insert, h k]
  omega

theorem one_le_next : 1 ≤ R.next t := by
  rw [next]
  omega

theorem now_concat_start (h : R.starts e = true) : R.now (t ++ [e]) = [] := by
  simp only [now, since_concat, h, if_true, List.filterMap_nil]

theorem now_concat (h : R.starts e = false) : R.now (t ++ [e]) = R.now t ++ (R.number e).toList := by
  simp only [now, since_concat, h, Bool.false_eq_true, if_false, List.filterMap_append]
  cases hn : R.number e <;> simp [hn]

theorem loaded_concat (h : R.starts e = false) : R.loaded (t ++ [e]) = R.loaded t := by
  simp only [loaded, upToLast_concat, h, Bool.false_eq_true, if_false]

theorem next_concat_silent (h : R.starts e = false) (hn : R.number e = none) : R.next (t ++ [e]) = R.next t := by
  simp only [next, now_concat h, loaded_concat h, hn, Option.toList_none, List.append_nil]

theorem next_concat_number {k : Nat} (h : R.starts e = false) (hn : R.number e = some k) :
    R.next (t ++ [e]) = R.next t + 1 := by
  simp only [next, now_concat h, loaded_concat h, hn, Option.toList_some, List.length_append, List.length_singleton]
  omega

theorem loaded_concat_start (h : R.starts e = true) (hs : R.stored e = none) :
    R.loaded (t ++ [e]) = ((latest R.stored t).map R.marks).getD ∅ := by
  simp only [loaded, upToLast_concat, h, if_true, latest_concat, hs, Option.none_or]

theorem orderly_nil : R.Orderly [] := by
  intro p e hp
  exact absurd (List.prefix_nil.mp hp) (List.append_ne_nil_of_right_ne_nil _ (List.cons_ne_nil e []))

theorem orderly_concat : R.Orderly (t ++ [e]) ↔
    R.Orderly t ∧ (∀ k, R.number e = some k → k = R.next t) ∧ ∀ s, R.stored e = some s → Marks (R.marks s)
      (R.next t) := by
  constructor
  · intro h
    exact ⟨fun p d hp => h p d (hp.trans (List.prefix_append t [e])), h t e (List.prefix_refl _)⟩
  · intro h p d hp
    rcases concat_prefix_concat.mp hp with ⟨rfl, rfl⟩ | hp
    · exact h.2
    · exact h.1 p d hp

theorem Orderly.earlier (h : R.Orderly t) (hp : p <+: t) : R.Orderly p := fun q e hq => h q e (hq.trans hp)

theorem Orderly.silent (h : R.Orderly t) (hn : R.number e = none) (hs : R.stored e = none) : R.Orderly (t ++ [e]) := by
  refine orderly_concat.mpr ⟨h, ?_, ?_⟩
  · intro k hk
    rw [hn] at hk
    cases hk
  · intro s hk
    rw [hs] at hk
    cases hk

theorem Orderly.latest {s : σ} (h : R.Orderly t) (hs : Library.latest R.stored t = some s) :
    ∃ p e, p ++ [e] <+: t ∧ R.stored e = some s ∧ Marks (R.marks s) (R.next p) := by
  induction t using List.reverseRecOn with
  | nil => cases hs
  | append_singleton t e ih =>
    obtain ⟨hold, _, hstored⟩ := orderly_concat.mp h
    rw [latest_concat] at hs
    cases he : R.stored e with
    | some s' =>
      rw [he] at hs
      cases hs
      exact ⟨t, e, List.prefix_refl _, he, hstored s he⟩
    | none =>
      rw [he] at hs
      obtain ⟨p, e', hp, he', hmarks⟩ := ih hold hs
      exact ⟨p, e', hp.trans (List.prefix_append t [e]), he', hmarks⟩

theorem Orderly.marks_loaded (h : R.Orderly t) : Marks (((Library.latest R.stored t).map R.marks).getD ∅)
    ((((Library.latest R.stored t).map R.marks).getD ∅).card + 1) := by
  cases hs : Library.latest R.stored t with
  | none => exact marks_empty
  | some s =>
    obtain ⟨p, e, _, _, hmarks⟩ := h.latest hs
    have hmarks' : Marks (((some s).map R.marks).getD ∅) (R.next p) := hmarks
    rw [hmarks'.card one_le_next]
    exact hmarks'

/-- A start goes on where the stored state leaves off. -/
theorem Orderly.marks_start (h : R.Orderly t) (he : R.starts e = true) (hs : R.stored e = none) :
    Marks (((Library.latest R.stored t).map R.marks).getD ∅) (R.next (t ++ [e])) := by
  have hnext : R.next (t ++ [e]) = (((Library.latest R.stored t).map R.marks).getD ∅).card + 1 := by
    rw [next, loaded_concat_start he hs, now_concat_start he]
    rfl
  rw [hnext]
  exact h.marks_loaded

theorem Orderly.consecutive (h : R.Orderly t) : R.now t = List.range' ((R.loaded t).card + 1) (R.now t).length := by
  induction t using List.reverseRecOn with
  | nil => rfl
  | append_singleton t e ih =>
    obtain ⟨hold, hnumber, _⟩ := orderly_concat.mp h
    cases he : R.starts e with
    | true =>
      rw [now_concat_start he]
      rfl
    | false =>
      have hnow := ih hold
      rw [now_concat he, loaded_concat he]
      cases hn : R.number e with
      | none =>
        rw [Option.toList_none, List.append_nil]
        exact hnow
      | some k =>
        rw [Option.toList_some, List.length_append, List.length_singleton, List.range'_concat, Nat.one_mul, ← hnow,
          hnumber k hn]
        rfl

variable (hstart : ∀ e, R.starts e = true → R.stored e = none)
include hstart

theorem Orderly.loaded_marks (h : R.Orderly t) : Marks (R.loaded t) ((R.loaded t).card + 1) := by
  induction t using List.reverseRecOn with
  | nil => exact marks_empty
  | append_singleton t e ih =>
    obtain ⟨hold, _, _⟩ := orderly_concat.mp h
    cases he : R.starts e with
    | true =>
      rw [loaded_concat_start he (hstart e he)]
      exact hold.marks_loaded
    | false =>
      rw [loaded_concat he]
      exact ih hold

theorem Orderly.resumes (h : R.Orderly t) : R.Resumes t := by
  have hmarks := h.loaded_marks hstart
  refine ⟨(R.loaded t).card + 1, Nat.le_add_left 1 _, ?_, ?_, h.consecutive⟩
  · intro hmem
    exact absurd ((hmarks _).mp hmem).2 (lt_irrefl _)
  · intro k hk hlt
    exact (hmarks k).mpr ⟨hk, hlt⟩

/-- Every number below the next one was delivered at some time. -/
theorem Orderly.delivered (h : R.Orderly t) {k : Nat} (hk : 1 ≤ k) (hlt : k < R.next t) :
    ∃ e ∈ t, R.number e = some k := by
  induction hlen : t.length using Nat.strong_induction_on generalizing t with
  | _ n ih =>
    by_cases hnow : k ∈ R.now t
    · obtain ⟨e, he, hnumber⟩ := List.mem_filterMap.mp hnow
      exact ⟨e, mem_of_mem_since he, hnumber⟩
    -- otherwise it is marked in the state loaded last, which was stored earlier
    rw [h.consecutive, List.mem_range'_1] at hnow
    have hold : k ∈ R.loaded t := (h.loaded_marks hstart k).mpr ⟨hk, by rw [next] at hlt; omega⟩
    rw [loaded] at hold
    have hbefore : upToLast R.starts t <+: t := upToLast_prefix
    cases hs : Library.latest R.stored (upToLast R.starts t) with
    | none =>
      rw [hs] at hold
      exact absurd hold (Finset.notMem_empty k)
    | some s =>
      rw [hs] at hold
      obtain ⟨p, e, hp, _, hmarks⟩ := (h.earlier hbefore).latest hs
      have hp' : p ++ [e] <+: t := hp.trans hbefore
      have hpt : p <+: t := (List.prefix_append p [e]).trans hp'
      have hshort : p.length < n := by
        have := hp'.length_le
        rw [List.length_append, List.length_singleton] at this
        omega
      obtain ⟨d, hd, hnumber⟩ := ih p.length hshort (h.earlier hpt) ((hmarks k).mp hold).2 rfl
      exact ⟨d, hpt.subset hd, hnumber⟩

end Delivery
end Library
