import Mathlib.Data.Set.Basic
import QuePaxa.Library.IntervalHistory

/-! Agreement for four-phase rounds over registers that report the first record of a
step and the best record of the step before it. A proposer leaves phase 0 with the best
first record of a quorum, spreads it to quorums in phases 1 and 2, decides in phase 2
when it is the best that a quorum saw spread in phase 1, and otherwise gathers in
phase 3 the best that a quorum saw spread in phase 2. -/
namespace Library

/-- One run of the scheme: what every register recorded, and which sets are quorums. -/
structure Rounds (J P K W : Type) where
  key : P → K
  val : P → W
  start : P → Prop
  reserved : P → Prop
  quorum : Set J → Prop
  hist : J → History P

namespace Rounds
variable {J P K W : Type}

section
variable [LinearOrder K]

inductive Entered (R : Rounds J P K W) : Nat → P → Prop
  | start {p : P} (h : R.start p) : Entered R 4 p
  | lead {s : Nat} {p : P} {Q : Set J} (hs : s % 4 = 0) (hQ : R.quorum Q)
      (some : ∃ j ∈ Q, (R.hist j).firstAt s = some p)
      (max : ∀ j ∈ Q, ∃ f, (R.hist j).firstAt s = .some f ∧ R.key f ≤ R.key p) : Entered R (s + 1) p
  | spread {s : Nat} {p : P} {Q : Set J} (hs : s % 4 = 1 ∨ s % 4 = 2) (from_ : Entered R s p)
      (hQ : R.quorum Q) (all : ∀ j ∈ Q, p ∈ (R.hist j).recorded s) : Entered R (s + 1) p
  | gather {s : Nat} {p : P} {Q : Set J} (hs : s % 4 = 3) (hQ : R.quorum Q)
      (closed : ∀ j ∈ Q, ∃ q, q ∈ (R.hist j).recorded s)
      (some : ∃ j ∈ Q, (R.hist j).bestAt R.key (s - 1) = some p)
      (max : ∀ j ∈ Q, ∀ b, (R.hist j).bestAt R.key (s - 1) = .some b → R.key b ≤ R.key p) :
      Entered R (s + 1) p
  | keep {s : Nat} {p : P} {Q : Set J} (hs : s % 4 = 3) (from_ : Entered R s p) (hQ : R.quorum Q)
      (closed : ∀ j ∈ Q, ∃ q, q ∈ (R.hist j).recorded s)
      (none : ∀ j ∈ Q, (R.hist j).bestAt R.key (s - 1) = none) : Entered R (s + 1) p

/-- Phase 0 may re-draw a proposal's key, so there it is held only up to its value. -/
def Held (R : Rounds J P K W) (s : Nat) (p : P) : Prop :=
  ∃ q, R.Entered s q ∧ R.val q = R.val p ∧ (s % 4 ≠ 0 → q = p)

structure Slow (R : Rounds J P K W) (r : Nat) (p : P) (Q : Set J) : Prop where
  round : 1 ≤ r
  quorum : R.quorum Q
  entered : R.Entered (4 * r + 2) p
  all : ∀ j ∈ Q, p ∈ (R.hist j).recorded (4 * r + 2)
  some : ∃ j ∈ Q, (R.hist j).bestAt R.key (4 * r + 1) = some p
  max : ∀ j ∈ Q, ∀ b, (R.hist j).bestAt R.key (4 * r + 1) = .some b → R.key b ≤ R.key p

/-- A decision in phase 0 of the first round: a quorum has the same reserved first key. -/
structure Fast (R : Rounds J P K W) (p : P) (Q : Set J) : Prop where
  reserved : R.reserved p
  quorum : R.quorum Q
  some : ∃ j ∈ Q, (R.hist j).firstAt 4 = some p
  all : ∀ j ∈ Q, ∃ f, (R.hist j).firstAt 4 = .some f ∧ R.key f = R.key p

def Decided (R : Rounds J P K W) (p : P) : Prop := (∃ Q, R.Fast p Q) ∨ ∃ r Q, R.Slow r p Q

/-- What the scheme needs of its environment. -/
structure Sound (R : Rounds J P K W) : Prop where
  inter : ∀ Q Q', R.quorum Q → R.quorum Q' → ∃ j, j ∈ Q ∧ j ∈ Q'
  source : ∀ j s p, p ∈ (R.hist j).recorded s → R.Held s p
  keyed : ∀ j s p, p ∈ (R.hist j).recorded s → ∀ j' s' q, q ∈ (R.hist j').recorded s' →
    R.key p = R.key q → R.val p = R.val q
  /-- Nothing at the first step outranks a fast decision with another value. -/
  top : ∀ p Q, R.Fast p Q → ∀ Q', R.quorum Q' → ∀ j ∈ Q', ∀ f ∈ (R.hist j).recorded 4,
    R.key p ≤ R.key f → R.val f = R.val p

variable {R : Rounds J P K W} {s r r' : Nat} {p q : P} {Q Q' : Set J} {v : W}

/-- Once all proposals of a step carry one value, so do those of every later step. -/
theorem Sound.val_of_later (hR : R.Sound) (s₀ : Nat) (h4 : 4 ≤ s₀) (h3 : s₀ % 4 ≠ 3)
    (hbase : ∀ q, R.Entered s₀ q → R.val q = v) (hle : s₀ ≤ s) (hq : R.Entered s q) : R.val q = v := by
  induction s using Nat.strong_induction_on generalizing q with
  | _ s ih =>
    rcases Nat.eq_or_lt_of_le hle with rfl | hlt
    · exact hbase q hq
    -- a recorded proposal of an earlier step was entered there, up to its key
    have hrec : ∀ t, s₀ ≤ t → t < s → ∀ j, q ∈ (R.hist j).recorded t → R.val q = v := by
      intro t h0 ht j hj
      obtain ⟨q', hq', hval, _⟩ := hR.source j t q hj
      rw [← hval]
      exact ih t ht h0 hq'
    cases hq with
    | start => omega
    | lead hs hQ some max =>
      obtain ⟨j, _, hj⟩ := some
      exact hrec _ (by omega) (by omega) j (History.mem_of_firstAt hj)
    | spread hs hfrom => exact ih _ (by omega) (by omega) hfrom
    | gather hs hQ closed some max =>
      obtain ⟨j, _, hj⟩ := some
      exact hrec _ (by omega) (by omega) j (mem_of_bestOf hj)
    | keep hs hfrom => exact ih _ (by omega) (by omega) hfrom

/-- A phase-2 decision outranks everything carried into its step: that was spread to a
quorum in phase 1, where the decider's quorum saw it. -/
theorem Sound.key_le_slow (hR : R.Sound) (hp : R.Slow r p Q) (hq : R.Entered (4 * r + 2) q) :
    R.key q ≤ R.key p := by
  generalize hs : 4 * r + 2 = s at hq
  cases hq with
  | start => omega
  | lead h => omega
  | gather h => omega
  | keep h => omega
  | @spread t _ Q' h hfrom hQ' all =>
    obtain ⟨j, hj, hj'⟩ := hR.inter Q Q' hp.quorum hQ'
    obtain ⟨b, hb, hqb⟩ := exists_bestOf R.key (all j hj')
    have ht : t = 4 * r + 1 := by omega
    exact hqb.trans (hp.max j hj b (ht ▸ hb))

/-- The round after a phase-2 decision starts from its value: every gathering quorum
meets the decider's, and what it gathers there cannot be outranked. -/
theorem Sound.val_of_next_round (hR : R.Sound) (hp : R.Slow r p Q) (hq : R.Entered (4 * r + 4) q) :
    R.val q = R.val p := by
  have hround := hp.round
  generalize hs : 4 * r + 4 = s at hq
  cases hq with
  | start => omega
  | lead h => omega
  | spread h => omega
  | @gather t _ Q' h hQ' closed some max =>
    have ht : t - 1 = 4 * r + 2 := by omega
    rw [ht] at some max
    obtain ⟨j, hj, hj'⟩ := hR.inter Q Q' hp.quorum hQ'
    obtain ⟨b, hb, hpb⟩ := exists_bestOf R.key (hp.all j hj)
    obtain ⟨i, _, hi⟩ := some
    have hqrec := mem_of_bestOf hi
    obtain ⟨q', hq', _, heq⟩ := hR.source i _ q hqrec
    have hentered : R.Entered (4 * r + 2) q := heq (by omega) ▸ hq'
    have hkey : R.key q = R.key p := le_antisymm (hR.key_le_slow hp hentered) (hpb.trans (max j hj' b hb))
    exact hR.keyed i _ q hqrec j _ p (hp.all j hj) hkey
  | @keep t _ Q' h _ hQ' closed none =>
    have ht : t - 1 = 4 * r + 2 := by omega
    obtain ⟨j, hj, hj'⟩ := hR.inter Q Q' hp.quorum hQ'
    obtain ⟨b, hb, _⟩ := exists_bestOf R.key (hp.all j hj)
    have hnone := none j hj'
    rw [ht, History.bestAt, hb] at hnone
    cases hnone

private theorem Sound.slow_slow (hR : R.Sound) (hp : R.Slow r p Q) (hq : R.Slow r' q Q') (hle : r ≤ r') :
    R.val p = R.val q := by
  rcases Nat.eq_or_lt_of_le hle with rfl | hlt
  · obtain ⟨j, hj, hj'⟩ := hR.inter Q Q' hp.quorum hq.quorum
    refine hR.keyed j _ p (hp.all j hj) j _ q (hq.all j hj') (le_antisymm ?_ ?_)
    · exact hR.key_le_slow hq hp.entered
    · exact hR.key_le_slow hp hq.entered
  · exact (hR.val_of_later (4 * r + 4) (by omega) (by omega) (fun _ => hR.val_of_next_round hp)
      (by omega) hq.entered).symm

/-- After a fast decision every quorum's best first record has its value. -/
theorem Sound.val_of_fast (hR : R.Sound) (hp : R.Fast p Q) (hq : R.Entered 5 q) : R.val q = R.val p := by
  generalize hs : 5 = s at hq
  cases hq with
  | start => omega
  | spread h => omega
  | gather h => omega
  | keep h => omega
  | @lead t _ Q' h hQ' some max =>
    obtain rfl : t = 4 := by omega
    obtain ⟨j, hj, hj'⟩ := hR.inter Q Q' hp.quorum hQ'
    obtain ⟨f, hf, hfp⟩ := hp.all j hj
    obtain ⟨f', hf', hle⟩ := max j hj'
    rw [hf] at hf'
    cases hf'
    obtain ⟨i, hi, hfirst⟩ := some
    exact hR.top p Q hp Q' hQ' i hi q (History.mem_of_firstAt hfirst) (hfp ▸ hle)

private theorem Sound.fast_slow (hR : R.Sound) (hp : R.Fast p Q) (hq : R.Slow r q Q') : R.val p = R.val q := by
  have hround := hq.round
  exact (hR.val_of_later 5 (by omega) (by omega) (fun _ => hR.val_of_fast hp) (by omega) hq.entered).symm

private theorem Sound.fast_fast (hR : R.Sound) (hp : R.Fast p Q) (hq : R.Fast q Q') : R.val p = R.val q := by
  obtain ⟨j, hj, hj'⟩ := hR.inter Q Q' hp.quorum hq.quorum
  obtain ⟨f, hf, hfp⟩ := hp.all j hj
  obtain ⟨f', hf', hfq⟩ := hq.all j hj'
  rw [hf] at hf'
  cases hf'
  obtain ⟨i, _, hi⟩ := hp.some
  obtain ⟨i', _, hi'⟩ := hq.some
  exact hR.keyed i 4 p (History.mem_of_firstAt hi) i' 4 q (History.mem_of_firstAt hi') (hfp.symm.trans hfq)

/-- Any two decisions of a run carry the same value. -/
theorem Sound.agreement (hR : R.Sound) (hp : R.Decided p) (hq : R.Decided q) : R.val p = R.val q := by
  rcases hp with ⟨Q, hp⟩ | ⟨r, Q, hp⟩ <;> rcases hq with ⟨Q', hq⟩ | ⟨r', Q', hq⟩
  · exact hR.fast_fast hp hq
  · exact hR.fast_slow hp hq
  · exact (hR.fast_slow hq hp).symm
  · rcases Nat.le_total r r' with hle | hle
    · exact hR.slow_slow hp hq hle
    · exact (hR.slow_slow hq hp hle).symm
end

structure Grows (R R' : Rounds J P K W) : Prop where
  key : R'.key = R.key
  val : R'.val = R.val
  start : ∀ p, R.start p → R'.start p
  reserved : ∀ p, R.reserved p → R'.reserved p
  quorum : ∀ Q, R.quorum Q → R'.quorum Q
  hist : ∀ j, (R.hist j).Extends (R'.hist j)

private theorem Grows.closed {R R' : Rounds J P K W} {s : Nat} {Q : Set J} (h : R.Grows R')
    (hc : ∀ j ∈ Q, ∃ q, q ∈ (R.hist j).recorded s) :
    ∀ j ∈ Q, ∃ q, q ∈ (R'.hist j).recorded s := by
  intro j hj
  obtain ⟨q, hq⟩ := hc j hj
  exact ⟨q, (h.hist j).recorded hq⟩

section
variable [LinearOrder K] {R R' : Rounds J P K W} {s : Nat} {p : P}

private theorem Grows.bestAt (h : R.Grows R') {j : J} {t : Nat} (hc : ∃ q, q ∈ (R.hist j).recorded t)
    (hst : s < t) : (R'.hist j).bestAt R'.key s = (R.hist j).bestAt R.key s := by
  obtain ⟨q, hq⟩ := hc
  rw [h.key, (h.hist j).bestAt hq hst]

theorem Grows.entered (h : R.Grows R') (hp : R.Entered s p) : R'.Entered s p := by
  induction hp with
  | start hs => exact .start (h.start _ hs)
  | lead hs hQ some max =>
    obtain ⟨j, hj, hf⟩ := some
    refine .lead hs (h.quorum _ hQ) ⟨j, hj, (h.hist j).firstAt hf⟩ fun i hi => ?_
    obtain ⟨f, hf, hle⟩ := max i hi
    exact ⟨f, (h.hist i).firstAt hf, h.key ▸ hle⟩
  | spread hs _ hQ all ih => exact .spread hs ih (h.quorum _ hQ) fun j hj => (h.hist j).recorded (all j hj)
  | @gather s p Q hs hQ closed some max =>
    have hbest : ∀ j ∈ Q, (R'.hist j).bestAt R'.key (s - 1) = (R.hist j).bestAt R.key (s - 1) :=
      fun j hj => h.bestAt (closed j hj) (by omega)
    obtain ⟨j, hj, hb⟩ := some
    refine .gather hs (h.quorum _ hQ) (h.closed closed) ⟨j, hj, hbest j hj ▸ hb⟩ fun i hi b hb => ?_
    rw [hbest i hi] at hb
    exact h.key ▸ max i hi b hb
  | @keep s p Q hs _ hQ closed none ih =>
    refine .keep hs ih (h.quorum _ hQ) (h.closed closed) fun j hj => ?_
    rw [h.bestAt (closed j hj) (by omega)]
    exact none j hj

theorem Grows.held (h : R.Grows R') (hp : R.Held s p) : R'.Held s p := by
  obtain ⟨q, hq, hval, heq⟩ := hp
  exact ⟨q, h.entered hq, h.val ▸ hval, heq⟩

theorem Grows.decided (h : R.Grows R') (hp : R.Decided p) : R'.Decided p := by
  rcases hp with ⟨Q, hres, hQ, ⟨j, hj, hf⟩, all⟩ | ⟨r, Q, hr, hQ, hent, all, ⟨j, hj, hb⟩, max⟩
  · refine .inl ⟨Q, h.reserved _ hres, h.quorum _ hQ, ⟨j, hj, (h.hist j).firstAt hf⟩, fun i hi => ?_⟩
    obtain ⟨f, hf, hkey⟩ := all i hi
    exact ⟨f, (h.hist i).firstAt hf, h.key ▸ hkey⟩
  · have hbest : ∀ j ∈ Q, (R'.hist j).bestAt R'.key (4 * r + 1) = (R.hist j).bestAt R.key (4 * r + 1) :=
      fun j hj => h.bestAt ⟨p, all j hj⟩ (Nat.lt_succ_self _)
    refine .inr ⟨r, Q, hr, h.quorum _ hQ, h.entered hent, fun i hi => (h.hist i).recorded (all i hi),
      ⟨j, hj, hbest j hj ▸ hb⟩, fun i hi b hb => ?_⟩
    rw [hbest i hi] at hb
    exact h.key ▸ max i hi b hb

end
end Rounds
end Library
