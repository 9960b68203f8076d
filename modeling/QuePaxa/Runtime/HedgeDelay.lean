import QuePaxa.Library.Percentiles
import QuePaxa.Library.Runs
import QuePaxa.Runtime.Schedule

/-! The hedging delay after any number of observations. -/
namespace QuePaxa
open Library
namespace HedgeDelayTuner
variable {config : AdaptiveHedgingConfig} {base : Duration}

private theorem observe_eq {tuner : HedgeDelayTuner} (h : tuner.config = some config) (elapsed : Duration) :
    tuner.observe elapsed =
      let samples := lastOf config.sampleWindow (tuner.samples ++ [elapsed])
      { tuner with
        samples
        current := config.clamp ((samples.insertionSort (· ≤ ·)).getD
          (min ((samples.length * config.percentile + 99) / 100 - 1) (samples.length - 1)) 0) } := by
  simp only [observe, h, lastOf, List.length_insertionSort]

structure Observed (config : AdaptiveHedgingConfig) (base : Duration) (observations : List Duration)
    (tuner : HedgeDelayTuner) :
    Prop where
  tuned : tuner.config = some config
  samples : tuner.samples = lastOf config.sampleWindow observations
  first : observations = [] → tuner.current = config.clamp base
  later : observations ≠ [] → ∃ value, NearestRank config.percentile (lastOf config.sampleWindow observations) value ∧
    tuner.current = config.clamp value

private theorem Observed.observe {observations : List Duration} {tuner : HedgeDelayTuner}
    (h : Observed config base observations tuner)
    (hwindow : 0 < config.sampleWindow) (hlow : 1 ≤ config.percentile) (hhigh : config.percentile ≤ 100)
    (elapsed : Duration) :
    Observed config base (observations ++ [elapsed]) (tuner.observe elapsed) := by
  rw [observe_eq h.tuned, h.samples, lastOf_concat]
  have hne : observations ++ [elapsed] ≠ [] := by simp
  exact ⟨h.tuned, rfl, fun hnil => absurd hnil hne,
    fun _ => ⟨_, nearestRank_sorted (lastOf_ne_nil hwindow hne) hlow hhigh 0, rfl⟩⟩

private theorem observed_run (hwindow : 0 < config.sampleWindow) (hlow : 1 ≤ config.percentile)
    (hhigh : config.percentile ≤ 100)
    (base : Duration) (observations : List Duration) :
    Observed config base observations (run observe (new base (some config)) observations) := by
  induction observations using List.reverseRecOn with
  | nil => exact ⟨rfl, List.drop_nil.symm, fun _ => rfl, fun hne => absurd rfl hne⟩
  | append_singleton observations elapsed ih =>
    rw [run_append]
    exact ih.observe hwindow hlow hhigh elapsed

/-- After every run of observations the delay is within its bounds, and it is the nearest-rank percentile of
the last observations, clamped; older observations have no part in it. -/
theorem hedge_delay_is_recent_percentile (config : AdaptiveHedgingConfig) (base : Duration)
    (observations : List Duration)
    (hrange : config.minDelay ≤ config.maxDelay) (hwindow : 0 < config.sampleWindow) (hlow : 1 ≤ config.percentile)
    (hhigh : config.percentile ≤ 100) :
    let delay := (run observe (new base (some config)) observations).current
    (config.minDelay ≤ delay ∧ delay ≤ config.maxDelay) ∧ (observations = [] → delay = config.clamp base) ∧
      (observations ≠ [] → ∃ value, NearestRank config.percentile (lastOf config.sampleWindow observations) value ∧
        delay = config.clamp value) := by
  have h := observed_run hwindow hlow hhigh base observations
  have hclamp : ∀ delay, config.minDelay ≤ config.clamp delay ∧ config.clamp delay ≤ config.maxDelay :=
    fun delay => ⟨le_max_left .., max_le hrange (min_le_right ..)⟩
  refine ⟨?_, h.first, h.later⟩
  by_cases hnil : observations = []
  · rw [h.first hnil]
    exact hclamp base
  · obtain ⟨value, -, hvalue⟩ := h.later hnil
    rw [hvalue]
    exact hclamp value

theorem hedge_delay_is_recent_percentile_default :
    ∃ value, NearestRank 90 [30, 10, 20] value ∧
      (run observe (new 5 (some ⟨15, 25, 3, 90⟩)) [90, 30, 10, 20]).current = max 15 (min value 25) :=
  (hedge_delay_is_recent_percentile ⟨15, 25, 3, 90⟩ 5 [90, 30, 10, 20] (by decide) (by decide) (by decide)
    (by decide)).2.2
    (by decide)

end HedgeDelayTuner
end QuePaxa
