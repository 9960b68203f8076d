import QuePaxa.Protocol.Agreement
import QuePaxa.Runtime.Lifetimes
import QuePaxa.Runtime.ScheduleHistory

/-! Schedules across replicas. Every replica counts the decided steps of the decisions it
happens to retain. Two proposers may decide one slot for the same values at different
steps, so agreement on the values does not make the schedules agree; agreement on the
steps does, as long as no epoch has left the window of retained statistics. -/
namespace QuePaxa
open Library
variable {V : Type}

namespace EpochTuner
variable {steps : SlotIndex → Step} {size : Nat} {voters : List ReplicaId} {t : EpochTuner}

/-- While nothing has left the window, every question is in time. -/
theorem timely_of_young (hsize : 0 < t.epochSize) (hyoung : t.statsThrough / t.epochSize < retainedStatEpochs)
    (epoch : Nat) : t.Timely epoch := by
  by_cases hhistory : t.HasHistory epoch
  · obtain hwarm | henough := hhistory
    · exact .inr (.inl hwarm)
    · have hend : t.statsThrough + 1 ≤ retainedStatEpochs * t.epochSize := (Nat.div_lt_iff_lt_mul hsize).mp hyoung
      have hle : epoch - 1 ≤ retainedStatEpochs := Nat.le_of_mul_le_mul_right (henough.trans hend) hsize
      right; right; right
      rw [Nat.sub_eq_zero_of_le hyoung.le, Nat.sub_eq_zero_of_le hle]
  · exact .inr (.inr (.inl hhistory))

theorem IsAuto.pos (h : IsAuto size voters t) : 0 < t.epochSize := by
  rw [h.epochSize]
  exact Nat.lt_of_lt_of_le Nat.one_pos (le_max_right ..)

theorem statsThrough_le_noteCommitted (hauto : t.auto = true) (slot : SlotIndex) (step : Step) :
    t.statsThrough ≤ (after (noteCommitted slot step) t).statsThrough := by
  have hasked : ∀ epoch, (after (ensureSchedule epoch) t).statsThrough = t.statsThrough := by
    intro epoch
    obtain h | ⟨_, _, _, h⟩ := after_ensureSchedule hauto epoch <;> rw [h]
  obtain h | ⟨hnext, h | ⟨_, _, _, _, h⟩⟩ := after_noteCommitted hauto slot step
  · rw [h]
  · rw [h, hasked]
  · rw [h, counted_statsThrough, (SlotIndex.checkedNext_eq_some.mp hnext.symm).2]
    exact Nat.le_succ _

theorem install_of_auto (hauto : t.auto = true) (schedule : EpochSchedule) : after (install schedule) t = t := by
  simp only [after, install, bind_apply, get_apply, hauto, if_true, throw_apply]

end EpochTuner

def RuntimeSnapshot.autoTuner (size : Nat) (voters : List ReplicaId) (s : RuntimeSnapshot V) : EpochTuner :=
  ⟨max size 1, voters, true, s.schedules, s.epochStats, s.statsThrough⟩

structure RuntimeSnapshot.InStep (steps : SlotIndex → Step) (size : Nat) (voters : List ReplicaId)
    (s : RuntimeSnapshot V) : Prop where
  decisions : ∀ slot d, s.decisions.get slot = some d → d.decidedStep = steps d.slot
  tracks : s.statsThrough / max size 1 < retainedStatEpochs → (s.autoTuner size voters).Tracks steps size voters

def RuntimeOp.InStep (steps : SlotIndex → Step) : RuntimeOp V → Prop
  | .receiveDecision d => d.decidedStep = steps d.slot
  | .installMembership _ _ => False
  | _ => True

instance (steps : SlotIndex → Step) : (op : RuntimeOp V) → Decidable (op.InStep steps)
  | .receiveDecision d => inferInstanceAs (Decidable (d.decidedStep = steps d.slot))
  | .installMembership _ _ => inferInstanceAs (Decidable False)
  | .submit _ | .installEpochSchedule _ | .armAvailable _ | .poll _ | .recover | .checkpointThrough _
  | .createStateTransfer _ => inferInstanceAs (Decidable True)

namespace ReplicaRuntime
variable {steps : SlotIndex → Step} {size : Nat} {voters : List ReplicaId} {r r' : ReplicaRuntime V}

structure InStep (steps : SlotIndex → Step) (size : Nat) (voters : List ReplicaId) (r : ReplicaRuntime V) : Prop where
  auto : r.tuner.IsAuto size voters
  snapshot : r.runtimeSnapshot.InStep steps size voters
  stored : StoredAll (RuntimeSnapshot.InStep steps size voters) r.trace

theorem autoTuner_runtimeSnapshot (h : r.tuner.IsAuto size voters) :
    r.runtimeSnapshot.autoTuner size voters = r.tuner := by
  rw [RuntimeSnapshot.autoTuner, ← h.epochSize, ← h.members, ← h.auto]
  rfl

theorem InStep.tracks (h : r.InStep steps size voters)
    (hyoung : r.tuner.statsThrough / r.tuner.epochSize < retainedStatEpochs) : r.tuner.Tracks steps size voters := by
  rw [h.auto.epochSize] at hyoung
  rw [← autoTuner_runtimeSnapshot h.auto]
  exact h.snapshot.tracks hyoung

theorem snapshot_inStep (hauto : r'.tuner.IsAuto size voters)
    (hdecisions : ∀ slot d, r'.decisions.get slot = some d → d.decidedStep = steps d.slot)
    (htracks : r'.tuner.statsThrough / r'.tuner.epochSize < retainedStatEpochs → r'.tuner.Tracks steps size voters) :
    r'.runtimeSnapshot.InStep steps size voters := by
  refine ⟨hdecisions, fun hyoung => ?_⟩
  rw [autoTuner_runtimeSnapshot hauto]
  apply htracks
  rw [hauto.epochSize]
  exact hyoung

private theorem inStep_booted {config : ReplicaRuntimeConfig} {stored : Option (RuntimeSnapshot V)}
    (hboot : Booted config stored r) (hsize : config.epochSize = size) (hvoters : config.members = voters)
    (hmode : config.autoSchedules = true) (hstored : ∀ s, stored = some s → s.InStep steps size voters)
    (htrace : StoredAll (RuntimeSnapshot.InStep steps size voters) r.trace) : r.InStep steps size voters := by
  have hauto : r.tuner.IsAuto size voters :=
    ⟨hsize ▸ hboot.tuner.1, hvoters ▸ hboot.tuner.2.1, hmode ▸ hboot.tuner.2.2⟩
  refine ⟨hauto, ?_, htrace⟩
  cases hs : stored with
  | none =>
    obtain ⟨_, hdecisions, _, _, _, _, htuner⟩ := hboot.empty hs
    refine snapshot_inStep hauto (by simp [hdecisions]) fun _ => ?_
    rw [htuner, hsize, hvoters, hmode]
    exact EpochTuner.tracks_new
  | some s => exact hboot.loaded s hs ▸ hstored s hs

variable [DecidableEq V] {env : Environment V} {op : RuntimeOp V}

private theorem InStep.move_parts (h : r.InStep steps size voters) (hop : op.InStep steps)
    (henv : ∀ trace call d, env.propose trace call = .ok d → d.decidedStep = steps d.slot) (hm : Move env op r r') :
    r'.tuner.IsAuto size voters ∧ (∀ slot d, r'.decisions.get slot = some d → d.decidedStep = steps d.slot) ∧
      (r'.tuner.statsThrough / r'.tuner.epochSize < retainedStatEpochs → r'.tuner.Tracks steps size voters) := by
  have hsame := And.intro h.auto (And.intro h.snapshot.decisions h.tracks)
  cases hm with
  | quiet hq =>
    cases hq with
    | @counted d committed =>
      obtain ⟨slot, hget, _⟩ := committed
      have hstep : d.decidedStep = steps d.slot := h.snapshot.decisions slot d hget
      have hauto := h.auto.noteCommitted d.slot d.decidedStep
      refine ⟨hauto, h.snapshot.decisions, fun hyoung => ?_⟩
      have hmono := EpochTuner.statsThrough_le_noteCommitted h.auto.auto d.slot d.decidedStep
      rw [hauto.epochSize, ← h.auto.epochSize] at hyoung
      have hyoung' := (Nat.div_le_div_right hmono).trans_lt hyoung
      rw [hstep]
      exact (h.tracks hyoung').noteCommitted d.slot fun _ => EpochTuner.timely_of_young h.auto.pos hyoung' _
    | scheduled epoch =>
      have hauto := h.auto.ensureSchedule epoch
      refine ⟨hauto, h.snapshot.decisions, fun hyoung => ?_⟩
      have hthrough : (after (EpochTuner.ensureSchedule epoch) r.tuner).statsThrough = r.tuner.statsThrough := by
        obtain heq | ⟨_, _, _, heq⟩ := EpochTuner.after_ensureSchedule h.auto.auto epoch <;> rw [heq]
      rw [hauto.epochSize, ← h.auto.epochSize, hthrough] at hyoung
      exact (h.tracks hyoung).ensureSchedule (EpochTuner.timely_of_young h.auto.pos hyoung epoch)
    | _ => exact hsame
  | decided learnt fresh applied =>
    refine ⟨h.auto, ?_, h.tracks⟩
    intro slot d hget
    simp only [retainDecision, OrderedMap.get_insert] at hget
    split_ifs at hget
    · cases hget
      rcases learnt with rfl | ⟨_, _, _, _, hpropose⟩
      · exact hop
      · exact henv _ _ _ hpropose
    · exact h.snapshot.decisions slot d hget
  | @scheduleInstalled schedule =>
    rw [show after (EpochTuner.install schedule) r.tuner = r.tuner from EpochTuner.install_of_auto h.auto.auto schedule]
    exact hsame
  | pruned =>
    exact ⟨h.auto, fun slot d hget => h.snapshot.decisions slot d ((OrderedMap.get_retain ..).mp hget).1, h.tracks⟩
  | reconnected asked | reconfigured asked | reconfigureFailed _ asked =>
    rw [asked] at hop
    exact hop.elim
  | _ => exact hsame

private theorem InStep.move (h : r.InStep steps size voters) (hop : op.InStep steps)
    (henv : ∀ trace call d, env.propose trace call = .ok d → d.decidedStep = steps d.slot) (hm : Move env op r r') :
    r'.InStep steps size voters := by
  obtain ⟨hauto, hdecisions, htracks⟩ := h.move_parts hop henv hm
  have hsnapshot := snapshot_inStep hauto hdecisions htracks
  refine ⟨hauto, hsnapshot, ?_⟩
  obtain htrace | ⟨e, htrace, _, hsaved⟩ := hm.trace
  · rw [htrace]
    exact h.stored
  · rw [htrace]
    exact h.stored.concat fun s hs => hsaved s hs ▸ hsnapshot

private theorem InStep.arming (h : r.InStep steps size voters) (ha : Arming r r') : r'.InStep steps size voters := by
  cases ha <;> exact ⟨h.auto, snapshot_inStep h.auto h.snapshot.decisions h.tracks, h.stored⟩

end ReplicaRuntime

namespace Process
variable [DecidableEq V]

def InStep (steps : SlotIndex → Step) (size : Nat) (voters : List ReplicaId) : ProcessAction V → Prop
  | .call op | .crash op _ => op.InStep steps
  | .restart config _ _ _ => config.epochSize = size ∧ config.members = voters ∧ config.autoSchedules = true

instance (steps : SlotIndex → Step) (size : Nat) (voters : List ReplicaId) :
    (a : ProcessAction V) → Decidable (InStep steps size voters a)
  | .call op | .crash op _ => inferInstanceAs (Decidable (op.InStep steps))
  | .restart config _ _ _ =>
    inferInstanceAs (Decidable (config.epochSize = size ∧ config.members = voters ∧ config.autoSchedules = true))

private theorem inStep_run {steps : SlotIndex → Step} {size : Nat} {voters : List ReplicaId} {env : Environment V}
    (henv : ∀ trace call d, env.propose trace call = .ok d → d.decidedStep = steps d.slot)
    {actions : List (ProcessAction V)} (h : Along (step env) (fun _ a => InStep steps size voters a) fresh actions)
    {r : ReplicaRuntime V} (hr : run (step env) fresh actions = .up r) : r.InStep steps size voters := by
  have hcall : ∀ (r : ReplicaRuntime V) (op : RuntimeOp V), r.InStep steps size voters → op.InStep steps →
      (after (ReplicaRuntime.perform env op) r).InStep steps size voters := by
    intro r op hr hop
    have hkeeps := ReplicaRuntime.keeps_every_call (I := ReplicaRuntime.InStep steps size voters)
      (fun _ _ h hm => h.move hop henv hm) fun _ _ _ h ha => h.arming ha
    exact hkeeps.after hr
  have hinv : (run (step env) fresh actions).Upholds (ReplicaRuntime.InStep steps size voters)
      (StoredAll (RuntimeSnapshot.InStep steps size voters)) := by
    refine upholds_run (C := fun _ a => InStep steps size voters a) ?_ ?_ ?_ ?_ .nil h
    · exact fun r op hr hop => hcall r op hr hop
    · exact fun r op n hr hop => (hcall r op hr hop).stored
    · exact fun t p hcut ht => ht.earlier hcut
    · intro t config proposer recorders noop r ht hconfig hnew
      obtain ⟨hboot, htrace⟩ := ReplicaRuntime.new_booted hnew
      refine ReplicaRuntime.inStep_booted (hboot.noop noop) hconfig.1 hconfig.2.1 hconfig.2.2 (fun s => ht.latest) ?_
      rw [ReplicaRuntime.trace_noop, htrace]
      exact ht.concat fun s hs => nomatch hs
  rw [hr] at hinv
  exact hinv

/-- Replicas that learn decisions of the same steps derive the same schedules, while no
epoch has left the window. -/
theorem auto_schedules_agree (steps : SlotIndex → Step) (size : Nat) (voters : List ReplicaId)
    (env env' : Environment V)
    (henv : ∀ trace call d, env.propose trace call = .ok d → d.decidedStep = steps d.slot)
    (henv' : ∀ trace call d, env'.propose trace call = .ok d → d.decidedStep = steps d.slot)
    (actions actions' : List (ProcessAction V))
    (h : Along (step env) (fun _ a => InStep steps size voters a) fresh actions)
    (h' : Along (step env') (fun _ a => InStep steps size voters a) fresh actions')
    (r r' : ReplicaRuntime V) (hr : run (step env) fresh actions = .up r)
    (hr' : run (step env') fresh actions' = .up r')
    (epoch : Nat) (hhistory : r.tuner.HasHistory epoch) (hhistory' : r'.tuner.HasHistory epoch)
    (hyoung : r.tuner.statsThrough / r.tuner.epochSize < retainedStatEpochs)
    (hyoung' : r'.tuner.statsThrough / r'.tuner.epochSize < retainedStatEpochs) :
    result (EpochTuner.ensureSchedule epoch) r.tuner = result (EpochTuner.ensureSchedule epoch) r'.tuner := by
  have hin := inStep_run henv h hr
  have hin' := inStep_run henv' h' hr'
  rw [(hin.tracks hyoung).result_ensureSchedule (EpochTuner.timely_of_young hin.auto.pos hyoung epoch) hhistory,
    (hin'.tracks hyoung').result_ensureSchedule (EpochTuner.timely_of_young hin'.auto.pos hyoung' epoch) hhistory']

/-! Replicas 1 and 2 decide slot 1 together: replica 1 on the fast path at step 4, replica 2
for the same values at step 6. All other slots are decided at step 4. -/

def bootAuto (self : ReplicaId) : ProcessAction Nat :=
  .restart ⟨self, 1, ⟨[1, 2, 3], 1, 0, none⟩, ReplicaConfig.default, 2, 0, true, none⟩ ⟨self, 1, ProposerConfig.default⟩
    [1, 2, 3] none

def learnsEleven (self : ReplicaId) (step : Step) : List (ProcessAction Nat) :=
  bootAuto self :: .call (.receiveDecision ⟨1, [10], 1, step⟩) ::
    (List.range' 2 10).map fun slot => .call (.receiveDecision ⟨slot, [10 * slot], 1, 4⟩)

theorem auto_schedules_diverge :
    (run World.step (World.initial World.trio fun _ => RecorderLimits.default)
      (World.duel ⟨2, 1, World.trio, 1027⟩ ⟨⟨1, 2, 1⟩, [20]⟩ World.leading)).results =
      [(1, some ⟨1, [10], 1, 4⟩), (1, some ⟨1, [10], 1, 6⟩)] ∧
    ∃ r r' : ReplicaRuntime Nat, run (step .obliging) fresh (learnsEleven 1 4) = .up r ∧
      run (step .obliging) fresh (learnsEleven 2 6) = .up r' ∧
      r.decisions.mapValues (·.valueIds) = r'.decisions.mapValues (·.valueIds) ∧
      r.tuner.HasHistory 7 ∧ r'.tuner.HasHistory 7 ∧
      result (EpochTuner.ensureSchedule 7) r.tuner = .ok ⟨7, [1, 2, 3]⟩ ∧
      result (EpochTuner.ensureSchedule 7) r'.tuner = .ok ⟨7, [2, 3, 1]⟩ := by
  refine ⟨by decide +kernel, ?_⟩
  have hlearned : (run (step .obliging) fresh (learnsEleven 1 4)).passes (fun r =>
      (run (step .obliging) fresh (learnsEleven 2 6)).passes fun r' =>
        decide (r.decisions.mapValues (·.valueIds) = r'.decisions.mapValues (·.valueIds) ∧
          r.tuner.HasHistory 7 ∧ r'.tuner.HasHistory 7 ∧
          result (EpochTuner.ensureSchedule 7) r.tuner = .ok ⟨7, [1, 2, 3]⟩ ∧
          result (EpochTuner.ensureSchedule 7) r'.tuner = .ok ⟨7, [2, 3, 1]⟩)) = true := by decide +kernel
  obtain ⟨r, hr, hother⟩ := up_of_passes hlearned
  obtain ⟨r', hr', hresult⟩ := up_of_passes hother
  exact ⟨r, r', hr, hr', of_decide_eq_true hresult⟩

/-- Once both hold slot 1 at step 4, also when one of them has restarted. -/
theorem auto_schedules_agree_restarted :
    ∃ r r' : ReplicaRuntime Nat, run (step .obliging) fresh (learnsEleven 1 4) = .up r ∧
      run (step .obliging) fresh (learnsEleven 2 4 ++ [.crash .recover 0, bootAuto 2]) = .up r' ∧
      result (EpochTuner.ensureSchedule 7) r.tuner = result (EpochTuner.ensureSchedule 7) r'.tuner := by
  have hlearned : (run (step .obliging) fresh (learnsEleven 1 4)).passes (fun r =>
      (run (step .obliging) fresh (learnsEleven 2 4 ++ [.crash .recover 0, bootAuto 2])).passes fun r' =>
        decide ((r.tuner.HasHistory 7 ∧ r'.tuner.HasHistory 7) ∧
          r.tuner.statsThrough / r.tuner.epochSize < retainedStatEpochs ∧
          r'.tuner.statsThrough / r'.tuner.epochSize < retainedStatEpochs)) = true := by decide +kernel
  have hagree := auto_schedules_agree (fun _ => 4) 2 [1, 2, 3] .obliging .obliging (fun _ _ _ h => nomatch h)
    (fun _ _ _ h => nomatch h) (learnsEleven 1 4) (learnsEleven 2 4 ++ [.crash .recover 0, bootAuto 2])
    (by decide +kernel) (by decide +kernel)
  obtain ⟨r, hr, hother⟩ := up_of_passes hlearned
  obtain ⟨r', hr', hresult⟩ := up_of_passes hother
  obtain ⟨⟨hhistory, hhistory'⟩, hyoung, hyoung'⟩ := of_decide_eq_true hresult
  exact ⟨r, r', hr, hr', hagree r r' hr hr' 7 hhistory hhistory' hyoung hyoung'⟩

end Process
end QuePaxa
