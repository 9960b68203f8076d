import QuePaxa.Core.QuorumIntersection
import QuePaxa.Runtime.Lifetimes

/-! Processes as they are deployed: configured by the public constructors, which know only
the first epoch, and possibly filled with a transferred state. The epoch of a snapshot
tells whether its cluster is still the constructed one. -/
namespace QuePaxa
open Library
variable {V : Type}

namespace ReplicaRuntimeConfig

inductive Constructed : ReplicaRuntimeConfig → Prop
  | new {replicaId : ReplicaId} {laneId : LaneId} {members : List ReplicaId} {maxFaults : Nat} {replica : ReplicaConfig}
      {epochSize : Nat} {baseHedgeDelay : Duration} {config : ReplicaRuntimeConfig}
      (built : new replicaId laneId members maxFaults replica epochSize baseHedgeDelay = .ok config) :
        Constructed config
  | withAutoSchedules {config config' : ReplicaRuntimeConfig} (h : Constructed config)
      (built : config.withAutoSchedules = .ok config') : Constructed config'
  | withAdaptiveHedging {config : ReplicaRuntimeConfig} (h : Constructed config) (hedging : AdaptiveHedgingConfig) :
      Constructed (config.withAdaptiveHedging hedging)

theorem Constructed.cluster {config : ReplicaRuntimeConfig} (h : config.Constructed) :
    config.cluster.epoch = 0 ∧ membersAreNormalized config.members = true := by
  induction h with
  | new built =>
    simp only [ReplicaRuntimeConfig.new, ClusterIdentity.new, ClusterIdentity.stable, except_bind_eq_ok] at built
    obtain ⟨cluster, ⟨normal, hnormal, _, _, hcluster⟩, _, _, _, _, hconfig⟩ := built
    obtain rfl := Except.ok.inj hcluster
    obtain rfl := Except.ok.inj hconfig
    exact ⟨rfl, normalizeMembers_normalized hnormal⟩
  | withAutoSchedules _ built ih =>
    simp only [ReplicaRuntimeConfig.withAutoSchedules, except_bind_eq_ok] at built
    obtain ⟨_, _, hconfig⟩ := built
    obtain rfl := Except.ok.inj hconfig
    exact ih
  | withAdaptiveHedging _ _ ih => exact ih

end ReplicaRuntimeConfig

def RuntimeSnapshot.Rooted (s : RuntimeSnapshot V) : Prop :=
  s.cluster.epoch = 0 → ∃ config : ReplicaRuntimeConfig, config.Constructed ∧ s.cluster = config.cluster ∧
    s.protocol = config.protocolIdentity

theorem ClusterIdentity.epoch_ne_zero {next prev : ClusterIdentity} (h : next.isSuccessorOf prev = true) :
    next.epoch ≠ 0 := by
  simp only [isSuccessorOf, Bool.and_eq_true] at h
  obtain ⟨⟨_, hnext⟩, _⟩ := h
  have hepoch := of_decide_eq_true hnext
  rw [checkedEpoch] at hepoch
  split_ifs at hepoch
  exact Option.some.inj hepoch ▸ Nat.succ_ne_zero _

namespace ReplicaRuntime

structure Reloaded (config : ReplicaRuntimeConfig) (s : RuntimeSnapshot V) (r : ReplicaRuntime V) : Prop where
  limits : r.replica.config = config.replica
  tuner : EpochTuner.restore config.epochSize config.members config.autoSchedules s.schedules s.epochStats
    s.statsThrough = .ok r.tuner

variable [DecidableEq V]

/-- A transfer is checked, imported and saved before it replaces the state. -/
theorem installStateTransfer_cases (env : Environment V) (incoming : StateTransferSnapshot V) (r : ReplicaRuntime V) :
    (∃ e, installStateTransfer env incoming r = .error e r) ∨
    (∃ e, installStateTransfer env incoming r = .error e (r.log (.imported incoming.through (.error e)))) ∨
    (∃ e, installStateTransfer env incoming r =
      .error e ((r.log (.imported incoming.through (.ok ()))).log (.saved incoming.runtime (.error e)))) ∨
    ∃ r', installStateTransfer env incoming r = .ok () r' ∧ r'.config = r.config ∧
      r'.recorders = r.recorders ∧ r'.Reloaded r.config incoming.runtime ∧ r'.runtimeSnapshot = incoming.runtime ∧
      validateRuntimeComponents r.config r'.replica r'.tuner incoming.runtime = .ok () ∧
      r'.trace = r.trace ++ [.imported incoming.through (.ok ())] ++ [.saved incoming.runtime (.ok ())] := by
  simp only [installStateTransfer, bind_apply (x := get), get_apply, bind_apply (x := check _), require]
  by_cases hthrough : incoming.through = incoming.runtime.replica.checkpointedThrough
  swap
  · simp only [hthrough, if_false, check_error]
    exact .inl ⟨_, rfl⟩
  rw [if_pos hthrough]
  by_cases hmatch : incoming.runtime.cluster = r.config.cluster ∧ incoming.runtime.protocol = r.config.protocolIdentity
  swap
  · simp only [hmatch, if_false, check_error, check_ok]
    exact .inl ⟨_, rfl⟩
  rw [if_pos hmatch]
  simp only [check_ok]
  cases hreplica : ReplicaCore.restore r.config.replica incoming.runtime.replica with
  | error e => exact .inl ⟨e, rfl⟩
  | ok replica =>
    cases htuner : EpochTuner.restore r.config.epochSize r.config.members r.config.autoSchedules
      incoming.runtime.schedules incoming.runtime.epochStats incoming.runtime.statsThrough with
    | error e => exact .inl ⟨e, rfl⟩
    | ok tuner =>
      simp only [check_ok]
      cases hvalid : validateRuntimeComponents r.config replica tuner incoming.runtime with
      | error e => exact .inl ⟨e, rfl⟩
      | ok u =>
        simp only [check_ok, request, bind_apply, modify_apply, get_apply]
        cases env.importCheckpoint r.trace incoming.through incoming.applicationCheckpoint with
        | error e => exact .inr (.inl ⟨e, rfl⟩)
        | ok u =>
          simp only [check_ok]
          cases env.save (r.log (.imported incoming.through (.ok u))).trace incoming.runtime with
          | error e => exact .inr (.inr (.inl ⟨e, rfl⟩))
          | ok u =>
            obtain rfl := ReplicaCore.restore_eq_ok hreplica
            refine .inr (.inr (.inr ⟨_, rfl, rfl, rfl, ⟨rfl, htuner⟩, ?_, hvalid, rfl⟩))
            simp only [EpochTuner.restore, unit_bind_eq_ok, pure, Except.pure, Except.ok.injEq] at htuner
            obtain ⟨_, _, rfl⟩ := htuner
            have hpending := pending_restored incoming.runtime
            simp only [runtimeSnapshot, log, hpending, ← hmatch.1, ← hmatch.2]
            rfl

end ReplicaRuntime

inductive DeploymentAction (V : Type) where
  | process (action : ProcessAction V)
  | installStateTransfer (incoming : StateTransferSnapshot V)
  /-- The process dies during the installation, after some of its requests. -/
  | installCrash (incoming : StateTransferSnapshot V) (requests : Nat)

def DeploymentAction.Configured : DeploymentAction V → Prop
  | .process (.restart config _ _ _) => config.Constructed
  | _ => True

namespace Deployment

section
variable [DecidableEq V]

def step (env : Environment V) : Process V → DeploymentAction V → Process V
  | p, .process a => p.step env a
  | .up r, .installStateTransfer incoming => .up (after (ReplicaRuntime.installStateTransfer env incoming) r)
  | .up r, .installCrash incoming requests =>
    .down ((after (ReplicaRuntime.installStateTransfer env incoming) r).trace.take (r.trace.length + requests))
  | .down trace, _ => .down trace

end

structure Rooted (r : ReplicaRuntime V) : Prop where
  now : r.runtimeSnapshot.Rooted
  stored : StoredAll RuntimeSnapshot.Rooted r.trace

variable {env : Environment V} {r r' : ReplicaRuntime V}

private theorem rooted_of_trace (h : Rooted r) (hnow : r'.runtimeSnapshot.Rooted)
    (htrace : r'.trace = r.trace ∨ ∃ e, r'.trace = r.trace ++ [e] ∧ e ≠ .started ∧
      ∀ s, e.stored = some s → s = r'.runtimeSnapshot) : Rooted r' := by
  refine ⟨hnow, ?_⟩
  rcases htrace with heq | ⟨e, heq, _, hsaved⟩
  · exact heq ▸ h.stored
  · rw [heq]
    exact h.stored.concat fun s hs => hsaved s hs ▸ hnow

variable [DecidableEq V]

private theorem Rooted.move {op : RuntimeOp V} (h : Rooted r) (hm : ReplicaRuntime.Move env op r r') : Rooted r' := by
  refine rooted_of_trace h ?_ hm.trace
  have hsame : r'.config = r.config → r'.runtimeSnapshot.Rooted := by
    intro hconfig
    have hnow := h.now
    simp only [RuntimeSnapshot.Rooted, ReplicaRuntime.runtimeSnapshot, hconfig] at hnow ⊢
    exact hnow
  cases hm with
  | quiet hq => exact hsame hq.samePipeline.config
  | reconfigured _ anchored => exact fun hzero => absurd hzero (ClusterIdentity.epoch_ne_zero anchored.successor)
  | _ => exact hsame rfl

private theorem Rooted.arming (h : Rooted r) (ha : ReplicaRuntime.Arming r r') : Rooted r' := by
  cases ha <;> exact ⟨h.now, h.stored⟩

private theorem Rooted.installStateTransfer (h : Rooted r) (incoming : StateTransferSnapshot V) :
    Rooted (after (ReplicaRuntime.installStateTransfer env incoming) r) := by
  have hlog : ∀ s : ReplicaRuntime V, Rooted s → ∀ e : Event V, e.stored = none → Rooted (s.log e) := by
    intro s hs e he
    exact ⟨hs.now, hs.stored.concat fun s' hs' => by rw [he] at hs'; cases hs'⟩
  rcases ReplicaRuntime.installStateTransfer_cases env incoming r with
    ⟨e, heq⟩ | ⟨e, heq⟩ | ⟨e, heq⟩ | ⟨r', heq, hconfig, _, _, hsnapshot, _, htrace⟩
  · rw [after_error heq]
    exact h
  · rw [after_error heq]
    exact hlog r h _ rfl
  · rw [after_error heq]
    exact hlog _ (hlog r h _ rfl) _ rfl
  · rw [after_ok heq]
    have hnow : r'.runtimeSnapshot.Rooted := by
      simp only [RuntimeSnapshot.Rooted, ReplicaRuntime.runtimeSnapshot, hconfig]
      exact h.now
    refine ⟨hnow, ?_⟩
    · have himported := (hlog r h (.imported incoming.through (.ok ())) rfl).stored
      rw [htrace]
      exact himported.concat fun s hs => Option.some.inj hs ▸ hsnapshot ▸ hnow

/-- As for a process, where a transfer may also be installed. -/
theorem upholds_run {J : ReplicaRuntime V → Prop} {T : List (Event V) → Prop}
    {C : Process V → DeploymentAction V → Prop}
    (hdown : ∀ r, J r → T r.trace) (hcut : ∀ t p, p <+: t → T t → T p) (hfresh : T [])
    (hcall : ∀ r op, J r → C (.up r) (.process (.call op)) ∨ (∃ n, C (.up r) (.process (.crash op n))) →
      J (after (ReplicaRuntime.perform env op) r))
    (hinstall : ∀ r incoming, J r → C (.up r) (.installStateTransfer incoming) ∨
      (∃ n, C (.up r) (.installCrash incoming n)) →
      J (after (ReplicaRuntime.installStateTransfer env incoming) r))
    (hstart : ∀ t config proposer recorders noop r, T t →
      C (.down t) (.process (.restart config proposer recorders noop)) →
      ReplicaRuntime.new config proposer recorders (lastSaved t) (t ++ [.started]) = .ok r →
      J (noop.elim r r.withNoopValue))
    {actions : List (DeploymentAction V)} (h : Along (step env) C Process.fresh actions) :
    (run (step env) Process.fresh actions).Upholds J T := by
  refine run_invariant (I := Process.Upholds J T) ?_ hfresh h
  intro p a hp ha
  cases a with
  | process a =>
    refine Process.upholds_step (C := fun p a => C p (.process a)) ?_ ?_ hcut hstart hp ha
    · exact fun r op hr hc => hcall r op hr (.inl hc)
    · exact fun r op n hr hc => hdown _ (hcall r op hr (.inr ⟨n, hc⟩))
  | installStateTransfer incoming =>
    cases p with
    | up r => exact hinstall r incoming hp (.inl ha)
    | down t => exact hp
  | installCrash incoming n =>
    cases p with
    | up r => exact hcut _ _ (List.take_prefix ..) (hdown _ (hinstall r incoming hp (.inr ⟨n, ha⟩)))
    | down t => exact hp

theorem rooted_run {actions : List (DeploymentAction V)}
    (h : Along (step env) (fun _ a => a.Configured) Process.fresh actions) :
    StoredAll RuntimeSnapshot.Rooted (run (step env) Process.fresh actions).trace := by
  have hrun : (run (step env) Process.fresh actions).Upholds Rooted (StoredAll RuntimeSnapshot.Rooted) := by
    refine upholds_run (fun r => Rooted.stored) (fun t p hcut ht => ht.earlier hcut) Always.nil ?_ ?_ ?_ h
    · exact fun r op hr _ => (ReplicaRuntime.keeps_every_call (fun _ _ => Rooted.move) fun _ _ _ => Rooted.arming).after
        hr
    · exact fun r incoming hr _ => hr.installStateTransfer incoming
    · intro t config proposer recorders noop r ht hconfig hnew
      obtain ⟨hboot, htrace⟩ := ReplicaRuntime.new_booted hnew
      refine ⟨fun _ => ⟨config, hconfig, ?_, ?_⟩, ?_⟩
      · simp only [ReplicaRuntime.runtimeSnapshot, (hboot.noop noop).setup]
      · simp only [ReplicaRuntime.runtimeSnapshot, (hboot.noop noop).setup]
      · rw [ReplicaRuntime.trace_noop, htrace]
        exact ht.concat fun s hs => by cases hs
  cases hp : run (step env) Process.fresh actions with
  | up r =>
    rw [hp] at hrun
    exact hrun.stored
  | down t =>
    rw [hp] at hrun
    exact hrun

end Deployment
end QuePaxa
