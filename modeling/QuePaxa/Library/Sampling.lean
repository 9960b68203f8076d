import Mathlib.Data.Int.CardIntervalMod
import Mathlib.Tactic.Common

/-! Random numbers below a bound from machine words: rejection of the last, incomplete block
of words, and words that shifting and adding without carry never turns into zero. -/
namespace Library

section
variable {ρ ε α β : Type} (read : ρ → Except ε α) (accept : α → Option β)

/-- Read until a word is accepted or a read fails. Without such a read the loop is still running. -/
def firstAccepted : List ρ → Option (Except ε β × List ρ)
  | [] => none
  | r :: rest =>
    match read r with
    | .error e => some (.error e, rest)
    | .ok a =>
      match accept a with
      | some b => some (.ok b, rest)
      | none => firstAccepted rest

variable {read accept}

theorem accepted_of_firstAccepted {source rest : List ρ} {b : β}
    (h : firstAccepted read accept source = some (.ok b, rest)) :
    ∃ a, accept a = some b := by
  induction source with
  | nil => cases h
  | cons r source ih =>
    simp only [firstAccepted] at h
    split at h
    · cases h
    · next a _ =>
      split at h
      · next b' hb =>
        cases h
        exact ⟨a, hb⟩
      · exact ih h

/-- The loop ends exactly when some read fails or is accepted. -/
theorem firstAccepted_isSome {source : List ρ} : (firstAccepted read accept source).isSome = true ↔
    ∃ r ∈ source, (∃ e, read r = .error e) ∨ ∃ a b, read r = .ok a ∧ accept a = some b := by
  induction source with
  | nil => simp [firstAccepted]
  | cons r source ih =>
    cases hr : read r with
    | error e => simp [firstAccepted, hr]
    | ok a =>
      cases ha : accept a with
      | some b => simp [firstAccepted, hr, ha]
      | none => simp [firstAccepted, hr, ha, ih]

end

/-- Of the words below a multiple of the modulus, each residue has the same number. -/
theorem card_filter_mod {modulus blocks words residue : Nat} (hfit : blocks * modulus ≤ words)
    (hlt : residue < modulus) :
    ((Finset.range words).filter fun x => x < blocks * modulus ∧ x % modulus = residue).card = blocks := by
  have hpos : 0 < modulus := Nat.zero_lt_of_lt hlt
  have hbelow : ((Finset.range words).filter fun x => x < blocks * modulus ∧ x % modulus = residue) =
      (Finset.range (blocks * modulus)).filter fun x => x ≡ residue [MOD modulus] := by
    ext x
    simp only [Finset.mem_filter, Finset.mem_range, Nat.ModEq, Nat.mod_eq_of_lt hlt]
    constructor
    · rintro ⟨_, hx, hmod⟩
      exact ⟨hx, hmod⟩
    · rintro ⟨hx, hmod⟩
      exact ⟨hx.trans_le hfit, hx, hmod⟩
  rw [hbelow, ← Nat.count_eq_card_filter_range, Nat.count_modEq_card _ hpos, Nat.mul_mod_left,
    Nat.mul_div_cancel _ hpos, if_neg (Nat.not_lt_zero _), Nat.add_zero]

section
variable {w k : Nat} {x : BitVec w}

theorem xor_shiftLeft_ne_zero (hk : 0 < k) (hx : x ≠ 0#w) : x ^^^ x <<< k ≠ 0#w := by
  intro h
  -- a word equal to its shift is equal to all further shifts, and the last of them is empty
  have hsame : ∀ n : Nat, x = x <<< (n * k) := by
    intro n
    induction n with
    | zero => simp
    | succ n ih =>
      rw [Nat.succ_mul, BitVec.shiftLeft_add, ← ih]
      exact BitVec.xor_eq_zero_iff.mp h
  have hout := hsame w
  rw [BitVec.shiftLeft_eq_zero (Nat.le_mul_of_pos_right w hk)] at hout
  exact hx hout

theorem xor_ushiftRight_ne_zero (hk : 0 < k) (hx : x ≠ 0#w) : x ^^^ x >>> k ≠ 0#w := by
  intro h
  have hsame : ∀ n : Nat, x = x >>> (n * k) := by
    intro n
    induction n with
    | zero => simp
    | succ n ih =>
      rw [Nat.succ_mul, BitVec.shiftRight_add, ← ih]
      exact BitVec.xor_eq_zero_iff.mp h
  have hout := hsame w
  rw [BitVec.ushiftRight_eq_zero (Nat.le_mul_of_pos_right w hk)] at hout
  exact hx hout

end
end Library
