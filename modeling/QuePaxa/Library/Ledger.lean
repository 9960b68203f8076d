import Mathlib.Data.Finset.Basic
import QuePaxa.Library.Journal

/-! Numbered work that is marked in stored states, and given up behind a floor. A state may
mark a number only once the journal says that it was done; a floor that rises only over done
numbers then never hides unfinished work, and no more does an export. -/
namespace Library
variable {ε σ : Type}

/-- How a journal and the states are read. A state tells which numbers are marked, which of
them it still holds, how far it gave them up, and how far the work may have come. -/
structure Ledger (ε σ : Type) where
  did : ε → Option Nat
  stored : ε → Option σ
  exported : ε → Option Nat
  marks : σ → Finset Nat
  held : σ → Nat → Prop
  floor : σ → Nat
  reach : σ → Nat

namespace Ledger
variable {R : Ledger ε σ} {t t₀ p : List ε} {e : ε} {s s₀ s' : σ} {m n k : Nat}

def Done (R : Ledger ε σ) (t : List ε) (k : Nat) : Prop := ∃ e ∈ t, R.did e = some k

def DoneBetween (R : Ledger ε σ) (t : List ε) (m n : Nat) : Prop := ∀ k, m < k → k ≤ n → R.Done t k

def Backed (R : Ledger ε σ) (s : σ) (t : List ε) : Prop := ∀ k ∈ R.marks s, R.Done t k

def Sound (R : Ledger ε σ) (t : List ε) : Prop := ∀ p e, p ++ [e] <+: t → ∀ s, R.stored e = some s → R.Backed s p

theorem Done.later (h : R.Done p k) (hp : p <+: t) : R.Done t k := by
  obtain ⟨e, he, hk⟩ := h
  exact ⟨e, hp.subset he, hk⟩

theorem done_concat (h : R.did e = some k) : R.Done (t ++ [e]) k :=
  ⟨e, List.mem_append_right t (List.mem_singleton_self e), h⟩

theorem DoneBetween.later (h : R.DoneBetween p m n) (hp : p <+: t) : R.DoneBetween t m n :=
  fun k hm hn => (h k hm hn).later hp

theorem Backed.later (h : R.Backed s p) (hp : p <+: t) : R.Backed s t := fun k hk => (h k hk).later hp

theorem sound_nil : R.Sound [] := by
  intro p e hp
  exact absurd (List.prefix_nil.mp hp) (List.append_ne_nil_of_right_ne_nil p (List.cons_ne_nil e []))

theorem Sound.earlier (h : R.Sound t) (hp : p <+: t) : R.Sound p := fun q e hq => h q e (hq.trans hp)

theorem Sound.concat (h : R.Sound t) (hs : ∀ s, R.stored e = some s → R.Backed s t) : R.Sound (t ++ [e]) := by
  intro p d hp
  rcases concat_prefix_concat.mp hp with ⟨rfl, rfl⟩ | hp
  · exact hs
  · exact h p d hp

theorem Sound.silent (h : R.Sound t) (hs : R.stored e = none) : R.Sound (t ++ [e]) := by
  apply h.concat
  intro s hs'
  rw [hs] at hs'
  cases hs'

theorem Sound.latest (h : R.Sound t) (hs : latest R.stored t = some s) : R.Backed s t := by
  induction t using List.reverseRecOn with
  | nil => cases hs
  | append_singleton t e ih =>
    rw [latest_concat] at hs
    cases he : R.stored e with
    | some s' =>
      rw [he] at hs
      cases hs
      exact (h t e (List.prefix_refl _) s he).later (List.prefix_append t [e])
    | none =>
      rw [he] at hs
      exact (ih (h.earlier (List.prefix_append t [e])) hs).later (List.prefix_append t [e])

structure Balanced (R : Ledger ε σ) (s : σ) (t : List ε) : Prop where
  sound : R.Sound t
  backed : R.Backed s t

def Covers (R : Ledger ε σ) (s : σ) (t : List ε) (n : Nat) : Prop := n ≤ R.reach s ∧ R.DoneBetween t (R.floor s) n

/-- The books were in order at `s₀` and `t₀`, and nothing was given up since then that was not done. -/
structure Since (R : Ledger ε σ) (s₀ : σ) (t₀ : List ε) (s : σ) (t : List ε) : Prop extends R.Balanced s t where
  reached : R.reach s₀ ≤ R.reach s
  floor : R.floor s₀ ≤ R.floor s
  raised : R.DoneBetween t (R.floor s₀) (R.floor s)
  kept : ∀ k, R.held s₀ k → R.held s k ∨ k ≤ R.floor s
  journal : Extends (fun e => ∀ n, R.exported e = some n → R.Covers s₀ t₀ n) t₀ t

theorem Balanced.here (h : R.Balanced s t) : R.Since s t s t :=
  ⟨h, le_refl _, le_refl _, fun _ hm hn => absurd hm (not_lt.mpr hn), fun _ hk => .inl hk, .refl t⟩

namespace Since

theorem later (h : R.Since s₀ t₀ s t) : t₀ <+: t := by
  obtain ⟨new, rfl, _⟩ := h.journal
  exact List.prefix_append t₀ new

theorem covers (h : R.Since s₀ t₀ s t) (hn : R.Covers s₀ t₀ n) : R.Covers s t n :=
  ⟨hn.1.trans h.reached, fun k hm hk => (hn.2 k (h.floor.trans_lt hm) hk).later h.later⟩

/-- Whatever is not held any more was done. -/
theorem done_of_dropped (h : R.Since s₀ t₀ s t) (hheld : R.held s₀ k) (hdropped : ¬R.held s k)
    (hfloor : R.floor s₀ < k) : R.Done t k :=
  h.raised k hfloor ((h.kept k hheld).resolve_left hdropped)

/-- A new entry that stores the present state, or none, and exports what was done at `s₀`, or nothing. -/
theorem concat (h : R.Since s₀ t₀ s t) (hs : ∀ s', R.stored e = some s' → s' = s)
    (hx : ∀ n, R.exported e = some n → R.Covers s₀ t₀ n) : R.Since s₀ t₀ s (t ++ [e]) where
  sound := h.sound.concat fun s' hs' => hs s' hs' ▸ h.backed
  backed := h.backed.later (List.prefix_append t [e])
  reached := h.reached
  floor := h.floor
  raised := h.raised.later (List.prefix_append t [e])
  kept := h.kept
  journal := h.journal.concat hx

theorem silent (h : R.Since s₀ t₀ s t) (hs : R.stored e = none) (hx : R.exported e = none) :
    R.Since s₀ t₀ s (t ++ [e]) := by
  apply h.concat
  · intro s' hs'
    rw [hs] at hs'
    cases hs'
  · intro n hn
    rw [hx] at hn
    cases hn

theorem change (h : R.Since s₀ t₀ s t) (hmarks : ∀ k ∈ R.marks s', k ∈ R.marks s) (hreach : R.reach s ≤ R.reach s')
    (hfloor : R.floor s ≤ R.floor s') (hraised : R.DoneBetween t (R.floor s) (R.floor s'))
    (hheld : ∀ k, R.held s k → R.held s' k ∨ k ≤ R.floor s') : R.Since s₀ t₀ s' t where
  sound := h.sound
  backed := fun k hk => h.backed k (hmarks k hk)
  reached := h.reached.trans hreach
  floor := h.floor.trans hfloor
  raised := by
    intro k hm hn
    by_cases hk : k ≤ R.floor s
    · exact h.raised k hm hk
    · exact hraised k (not_le.mp hk) hn
  kept := by
    intro k hk
    rcases h.kept k hk with hk | hk
    · exact hheld k hk
    · exact .inr (hk.trans hfloor)
  journal := h.journal

theorem grow (h : R.Since s₀ t₀ s t) (hmarks : R.marks s' = R.marks s) (hreach : R.reach s ≤ R.reach s')
    (hfloor : R.floor s' = R.floor s) (hheld : ∀ k, R.held s k → R.held s' k) : R.Since s₀ t₀ s' t := by
  refine h.change (fun k hk => hmarks ▸ hk) hreach hfloor.ge ?_ fun k hk => .inl (hheld k hk)
  rw [hfloor]
  exact fun k hm hn => absurd hm (not_lt.mpr hn)

theorem mark (h : R.Since s₀ t₀ s t) (hdid : R.did e = some k) (hs : R.stored e = none) (hx : R.exported e = none)
    (hmarks : R.marks s' = insert k (R.marks s)) (hreach : R.reach s' = R.reach s) (hfloor : R.floor s' = R.floor s)
    (hheld : R.held s' = R.held s) : R.Since s₀ t₀ s' (t ++ [e]) := by
  have hnext := h.silent hs hx
  refine ⟨⟨hnext.sound, ?_⟩, hreach ▸ hnext.reached, hfloor ▸ hnext.floor, hfloor ▸ hnext.raised, ?_, hnext.journal⟩
  · intro j hj
    rw [hmarks] at hj
    rcases Finset.mem_insert.mp hj with rfl | hj
    · exact done_concat hdid
    · exact hnext.backed j hj
  · rw [hheld, hfloor]
    exact hnext.kept

end Since
end Ledger
end Library
