import QuePaxa.Core.RegisterHistory
import QuePaxa.Library.Runs

/-! The interval summary register against the whole list of its calls, stale ones, repeated
ones and those at step zero included. -/
namespace QuePaxa
open Library
variable {V : Type}
variable {h : History (Proposal V)}

namespace IntervalSummaryRegister

structure Call (V : Type) where
  step : Step
  proposal : Proposal V
  inRange : step ≤ u64Max

inductive Op (V : Type) where
  | record (call : Call V)
  | reload

def Op.apply (g : IntervalSummaryRegister V) : Op V → IntervalSummaryRegister V
  | record call => (g.record call.step call.proposal).2
  | reload => restore g.snapshot

def Op.call : Op V → Option (Nat × Proposal V)
  | record call => some (call.step, call.proposal)
  | reload => none

def calls (ops : List (Op V)) : History (Proposal V) := ops.filterMap Op.call

structure Spec (h : History (Proposal V)) (summary : IntervalSummarySnapshot V) : Prop where
  step : summary.step = h.latest
  first : summary.first = h.effective.firstAt h.latest
  current : IsAggregate Proposal.key (h.effective.recorded h.latest) summary.currentAggregate
  prior : ∀ s, h.latest = s + 1 → IsAggregate Proposal.key (h.effective.recorded s) summary.priorAggregate
  prior_zero : h.latest = 0 → summary.priorAggregate = none

private theorem Spec.unique {summary summary' : IntervalSummarySnapshot V} (hs : Spec h summary)
    (hs' : Spec h summary') : summary = summary' := by
  have hprior : summary.priorAggregate = summary'.priorAggregate := by
    cases hlatest : h.latest with
    | zero => rw [hs.prior_zero hlatest, hs'.prior_zero hlatest]
    | succ s => exact (hs.prior s hlatest).unique (hs'.prior s hlatest)
  have hcurrent : summary.currentAggregate = summary'.currentAggregate := hs.current.unique hs'.current
  have hstep : summary.step = summary'.step := hs.step.trans hs'.step.symm
  have hfirst : summary.first = summary'.first := hs.first.trans hs'.first.symm
  obtain ⟨step, first, current, prior⟩ := summary
  obtain ⟨step', first', current', prior'⟩ := summary'
  simp only at hprior hcurrent hstep hfirst
  rw [hprior, hcurrent, hstep, hfirst]

structure Tracks (g : IntervalSummaryRegister V) (h : History (Proposal V)) : Prop where
  step : g.step = h.latest
  summarises : g.Summarises h.effective

private theorem tracks_default : (default : IntervalSummaryRegister V).Tracks [] :=
  ⟨rfl, summarises_default⟩

theorem Tracks.advance {g : IntervalSummaryRegister V} (hg : g.Tracks h) (call : Call V) :
    (g.advance call.step call.proposal).Tracks (h ++ [(call.step, call.proposal)]) := by
  constructor
  · rw [advance_step, hg.step, History.latest_concat]
  · rw [History.effective_concat]
    by_cases hle : g.step ≤ call.step
    · have heffective : ∀ x ∈ h, x.1 ≤ call.step := History.latest_le.mp (hg.step ▸ hle)
      rw [if_pos heffective]
      exact hg.summarises.advance call.proposal hle call.inRange
    · -- a stale call changes nothing
      have hstale : ¬∀ x ∈ h, x.1 ≤ call.step := fun hall => hle (hg.step ▸ History.latest_le.mpr hall)
      rw [if_neg hstale, advance_of_lt _ (not_le.mp hle)]
      exact hg.summarises

private theorem tracks_run (ops : List (Op V)) : (run Op.apply default ops).Tracks (calls ops) := by
  induction ops using List.reverseRecOn with
  | nil => exact tracks_default
  | append_singleton ops op ih =>
    rw [run_append, calls, List.filterMap_append]
    cases op with
    | record call => exact ih.advance call
    | reload =>
      rw [List.filterMap_cons_none rfl, List.filterMap_nil, List.append_nil]
      exact ih

private theorem Tracks.spec {g : IntervalSummaryRegister V} (hg : g.Tracks h) :
    Spec h g.snapshot where
  step := hg.step
  first := hg.step ▸ hg.summarises.first
  current := by
    have hcurrent : g.snapshot.currentAggregate = h.effective.bestAt Proposal.key g.step := hg.summarises.current
    rw [hcurrent, hg.step]
    exact bestOf_isAggregate _
  prior := by
    intro s hs
    have hprior : g.snapshot.priorAggregate = _ := hg.summarises.prior
    rw [hprior, hg.step, hs, if_neg (Nat.succ_ne_zero s)]
    exact bestOf_isAggregate _
  prior_zero := by
    intro hzero
    have hprior : g.snapshot.priorAggregate = _ := hg.summarises.prior
    rw [hprior, hg.step, if_pos hzero]

/-- After every run of a fresh register, its state is the one the specification gives for all
the calls made, and each call returned the summary it gives for the calls up to that one. -/
theorem register_meets_its_history (ops : List (Op V)) :
    (∀ state, Spec (calls ops) state ↔ (run Op.apply default ops).snapshot = state) ∧
    ∀ earlier call later, ops = earlier ++ .record call :: later →
      ∃ state, Spec (calls earlier ++ [(call.step, call.proposal)]) state ∧
        ((run Op.apply default earlier).record call.step call.proposal).1 =
          ⟨state.step, state.first, state.priorAggregate⟩ := by
  constructor
  · intro state
    constructor
    · exact fun hspec => (tracks_run ops).spec.unique hspec
    · rintro rfl
      exact (tracks_run ops).spec
  · intro earlier call later _
    exact ⟨_, ((tracks_run earlier).advance call).spec, rfl⟩

end IntervalSummaryRegister
end QuePaxa
