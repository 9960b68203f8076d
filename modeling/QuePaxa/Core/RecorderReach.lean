import QuePaxa.Core.DurableRecorder

/-! The recorders that configuration, restarts and calls lead to, with or without a store whose
saves may fail. -/
namespace QuePaxa
open Library
variable {V : Type} [DecidableEq V]

namespace RecorderCore

inductive Reached (configured : RecorderConfig → Prop) : RecorderCore V → Prop
  | new {config : RecorderConfig} (start : configured config) : Reached configured (new config)
  | restored {config : RecorderConfig} {snapshot : RecorderSnapshot V} {r : RecorderCore V} (start : configured config)
      (loaded : restore config snapshot = .ok r) : Reached configured r
  | served {r : RecorderCore V} (h : Reached configured r) (op : RecorderOp V) : Reached configured (op.apply r)
  | persisted {S : Type} [RecorderStateStore V S] {d : DurableRecorderCore V S} (h : Reached configured d.core)
      (op : RecorderOp V) : Reached configured (after (DurableRecorderCore.exec op) d).core

theorem core_exec {S : Type} [RecorderStateStore V S] (d : DurableRecorderCore V S) (op : RecorderOp V) :
    (after (DurableRecorderCore.exec op) d).core = op.apply d.core ∨
    (after (DurableRecorderCore.exec op) d).core = { d.core with config := (op.apply d.core).config } := by
  have hrollback : ∀ r m : RecorderCore V, m.restoreSnapshotState r.snapshot = { r with config := m.config } := by
    intro r m
    have hslots : r.snapshot.slots.mapValues IntervalSummaryRegister.restore = r.slots := by
      simp only [snapshot, OrderedMap.mapValues_mapValues]
      exact OrderedMap.mapValues_id _ _ fun g => g.restore_snapshot
    simp only [restoreSnapshotState, hslots]
    rfl
  rw [DurableRecorderCore.exec_eq_mutate]
  cases hx : DurableRecorderCore.mutate op.exec d with
  | error e d' =>
    rw [after_error hx, DurableRecorderCore.mutate_error hx, hrollback]
    exact .inr rfl
  | ok reply d' =>
    rw [after_ok hx]
    unfold DurableRecorderCore.mutate at hx
    cases hop : op.exec d.core with
    | error e m =>
      simp only [hop] at hx
      cases hx
    | ok reply' m =>
      simp only [hop] at hx
      cases hs : RecorderStateStore.save m.snapshot d.store with
      | error e s =>
        simp only [hs] at hx
        cases hx
      | ok _ s =>
        simp only [hs] at hx
        cases hx
        exact .inl (after_ok hop).symm

private theorem apply_limits (r : RecorderCore V) (op : RecorderOp V) : (op.apply r).config.limits = r.config.limits :=
  apply_invariant (I := fun m => m.config.limits = r.config.limits) (fun _ _ h _ => h) (fun _ _ h _ _ => h)
    (fun _ _ h => h) r op (fun _ _ _ h _ => h) rfl

namespace Reached
variable {configured : RecorderConfig → Prop} {r : RecorderCore V}

theorem sound (h : Reached configured r) : r.Sound := by
  induction h with
  | new => exact sound_new _
  | restored _ loaded => exact (restorable_of_restore loaded).sound
  | served _ op ih => exact sound_apply _ op ih
  | @persisted _ _ d _ op ih =>
    rcases core_exec d op with heq | heq
    · rw [heq]
      exact sound_apply _ op ih
    · rw [heq]
      have hlimits := apply_limits d.core op
      refine ⟨fun slot e he => ?_, fun slot g hg => ?_, ih.leaders, ?_, ?_⟩
      · rw [hlimits]
        exact ih.decisions slot e he
      · rw [hlimits]
        exact ih.slots slot g hg
      · rw [hlimits]
        exact ih.slotCount
      · rw [hlimits]
        exact ih.decisionCount

theorem cluster {P : ClusterIdentity → Prop} (hstart : ∀ config, configured config → P config.cluster)
    (hnext : ∀ next prev, next.isSuccessorOf prev = true → P prev → P next) (h : Reached configured r) :
    P r.config.cluster := by
  have happly : ∀ (r : RecorderCore V) (op : RecorderOp V), P r.config.cluster → P (op.apply r).config.cluster :=
    fun r op hr => apply_invariant (I := fun r => P r.config.cluster) (fun _ _ h _ => h) (fun _ _ h _ _ => h)
      (fun _ _ h => h) r op (fun _ _ _ h hi => hnext _ _ hi.successor h) hr
  induction h with
  | new start => exact hstart _ start
  | restored start loaded =>
    rw [restore_eq loaded]
    exact hstart _ start
  | served _ op ih => exact happly _ op ih
  | @persisted _ _ d _ op ih =>
    rcases core_exec d op with heq | heq
    · rw [heq]
      exact happly _ op ih
    · rw [heq]
      exact happly _ op ih

end Reached
end RecorderCore
end QuePaxa
