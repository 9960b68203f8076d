import QuePaxa.Core.Register
import QuePaxa.Library.IntervalHistory

/-! The constant-space register refines the full history of its records: it holds
the first and best record of its step and the best record of the step before. -/
namespace QuePaxa
open Library
variable {V : Type}

namespace IntervalSummaryRegister

structure Summarises (g : IntervalSummaryRegister V) (h : History (Proposal V)) : Prop where
  le : ∀ x ∈ h, x.1 ≤ g.step
  first : g.first = h.firstAt g.step
  current : g.currentAggregate = h.bestAt Proposal.key g.step
  prior : g.priorAggregate = if g.step = 0 then none else h.bestAt Proposal.key (g.step - 1)

structure Reflects (g : IntervalSummaryRegister V) (h : History (Proposal V)) : Prop where
  le : ∀ x ∈ h, x.1 ≤ g.step
  held : ∃ p, p ∈ h.recorded g.step
  first : g.first = h.firstAt g.step
  current : g.currentAggregate = h.bestAt Proposal.key g.step
  prior : g.priorAggregate = h.bestAt Proposal.key (g.step - 1)

section
variable {g : IntervalSummaryRegister V} {h : History (Proposal V)} {step : Nat}

private theorem Reflects.summarises (hg : g.Reflects h) (hpos : 0 < g.step) : g.Summarises h where
  le := hg.le
  first := hg.first
  current := hg.current
  prior := by rw [if_neg (Nat.ne_of_gt hpos), hg.prior]

private theorem Summarises.reflects (hg : g.Summarises h) (hpos : 0 < g.step) (hheld : ∃ p, p ∈ h.recorded g.step) :
    g.Reflects h where
  le := hg.le
  held := hheld
  first := hg.first
  current := hg.current
  prior := by rw [hg.prior, if_neg (Nat.ne_of_gt hpos)]

theorem advance_of_lt (p : Proposal V) (h : step < g.step) : g.advance step p = g := by
  rw [advance, if_neg (ne_of_lt h), if_neg (not_lt_of_gt h)]

private theorem bestProposal_eq_better (held : Option (Proposal V)) (p : Proposal V) :
    bestProposal held p = better Proposal.key held p := by
  cases held <;> rfl

private theorem recorded_eq_nil {s t : Nat} (hle : ∀ x ∈ h, x.1 ≤ s) (hst : s < t) : h.recorded t = [] := by
  apply List.eq_nil_iff_forall_not_mem.mpr
  intro p hp
  have := hle _ (History.mem_recorded.mp hp)
  exact absurd this (Nat.not_le.mpr hst)

private theorem le_concat {x : Nat × Proposal V} (hle : ∀ y ∈ h, y.1 ≤ x.1) : ∀ y ∈ h ++ [x], y.1 ≤ x.1 := by
  intro y hy
  rcases List.mem_append.mp hy with hy | hy
  · exact hle y hy
  · rw [List.mem_singleton.mp hy]

/-- The aggregate of the step before a new one is the register's if that is the step it is at. -/
private theorem prior_of_open (hg : g.Summarises h) (hlt : g.step < step) (hmax : step ≤ u64Max) :
    (if Step.isNextAfter step g.step then g.currentAggregate else none) = h.bestAt Proposal.key (step - 1) := by
  by_cases hnext : step = g.step + 1
  · have hn : Step.isNextAfter step g.step = true := by
      have hroom : g.step < u64Max := by lia
      simp [Step.isNextAfter, Step.checkedNext, hroom, hnext]
    rw [if_pos hn, hg.current, hnext]
    rfl
  · have hn : ¬Step.isNextAfter step g.step = true := by
      intro h
      have hsome : Step.checkedNext g.step = some step := of_decide_eq_true h
      simp only [Step.checkedNext] at hsome
      split_ifs at hsome
      exact hnext (Option.some.inj hsome).symm
    have hnil : h.recorded (step - 1) = [] := recorded_eq_nil hg.le (by lia)
    rw [if_neg hn, History.bestAt, hnil]
    rfl

private theorem summarises_open (hg : g.Summarises h) (p : Proposal V) (hlt : g.step < step) (hmax : step ≤ u64Max) :
    (g.advance step p).Summarises (h ++ [(step, p)]) := by
  have hadv : g.advance step p =
      ⟨step, some p, some p, if Step.isNextAfter step g.step then g.currentAggregate else none⟩ := by
    rw [advance, if_neg (ne_of_gt hlt), if_pos hlt]
  have hnil : h.recorded step = [] := recorded_eq_nil hg.le hlt
  rw [hadv]
  refine ⟨le_concat fun x hx => (hg.le x hx).trans (Nat.le_of_lt hlt), ?_, ?_, ?_⟩
  · simp only [History.firstAt, History.recorded_concat_same, hnil]
    rfl
  · simp only [History.bestAt, History.recorded_concat_same, hnil]
    rfl
  · have hpos : step ≠ 0 := Nat.ne_of_gt (Nat.zero_lt_of_lt hlt)
    have hne : step ≠ step - 1 := by lia
    simp only [if_neg hpos, History.bestAt, History.recorded_concat_ne h p hne]
    exact prior_of_open hg hlt hmax

private theorem summarises_same (hg : g.Summarises h) (p : Proposal V) :
    (g.advance g.step p).Summarises (h ++ [(g.step, p)]) := by
  have hadv : g.advance g.step p =
      ⟨g.step, some (g.first.getD p), some (bestProposal g.currentAggregate p), g.priorAggregate⟩ := by
    rw [advance, if_pos rfl]
  rw [hadv]
  refine ⟨le_concat hg.le, ?_, ?_, ?_⟩
  · simp only [hg.first, History.firstAt, History.recorded_concat_same, List.head?_append]
    cases (h.recorded g.step).head? <;> rfl
  · simp only [History.bestAt, History.recorded_concat_same, bestOf_concat, hg.current, bestProposal_eq_better]
  · by_cases hzero : g.step = 0
    · rw [hg.prior, if_pos hzero]
      exact (if_pos hzero).symm
    · have hne : g.step ≠ g.step - 1 := by lia
      simp only [hg.prior, if_neg hzero, History.bestAt, History.recorded_concat_ne h p hne]

theorem summarises_default : (default : IntervalSummaryRegister V).Summarises [] :=
  ⟨by simp, rfl, rfl, rfl⟩

/-- The register simulates its history, one record at a time. -/
theorem Summarises.advance (hg : g.Summarises h) (p : Proposal V) (hle : g.step ≤ step) (hmax : step ≤ u64Max) :
    (g.advance step p).Summarises (h ++ [(step, p)]) := by
  rcases Nat.eq_or_lt_of_le hle with rfl | hlt
  · exact summarises_same hg p
  · exact summarises_open hg p hlt hmax

theorem Summarises.advance_reflects {p : Proposal V} (hg : g.Summarises h) (hpos : 0 < step) (hle : g.step ≤ step)
    (hmax : step ≤ u64Max) : (g.advance step p).Reflects (h ++ [(step, p)]) := by
  have hstep : (g.advance step p).step = step := by rw [advance_step, max_eq_right hle]
  refine (hg.advance p hle hmax).reflects (hpos.trans_eq hstep.symm) ⟨p, ?_⟩
  rw [hstep, History.recorded_concat_same]
  exact List.mem_append_right _ (List.mem_singleton.mpr rfl)

theorem reflects_default (p : Proposal V) (hlow : Step.roundOnePhaseZero ≤ step) (hmax : step ≤ u64Max) :
    (default.advance step p).Reflects [(step, p)] :=
  summarises_default.advance_reflects (Nat.lt_of_lt_of_le (by decide : 0 < 4) hlow) (Nat.zero_le _) hmax

theorem Reflects.advance {p : Proposal V} (hg : g.Reflects h) (hpos : 0 < g.step) (hle : g.step ≤ step)
    (hmax : step ≤ u64Max) : (g.advance step p).Reflects (h ++ [(step, p)]) :=
  (hg.summarises hpos).advance_reflects (hpos.trans_le hle) hle hmax

end

end IntervalSummaryRegister
end QuePaxa
