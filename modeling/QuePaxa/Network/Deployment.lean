import QuePaxa.Network.Changes
import QuePaxa.Runtime.Deployment
import QuePaxa.Runtime.Restart

/-! Rebuilding a deployment from configuration. A membership change leads to an epoch that
no constructor knows, so exactly the snapshots of the first epoch are taken back. -/
namespace QuePaxa
open Library
variable {V : Type}
variable {config : ReplicaRuntimeConfig}

namespace NetworkConsensusHandler

/-- The property depends on the configuration and the stored snapshots only. -/
structure Framed (I : NetworkConsensusHandler V → Prop) : Prop where
  state : ∀ h s, I h → I (h.withState s)
  log : ∀ h e, I h → (∀ s, NetworkEvent.stored e = some s → s.cluster = h.config.cluster ∧
    s.protocol = h.config.protocolIdentity) →
    I (h.log e)

section Framed
variable {I : NetworkConsensusHandler V → Prop} {env : NetworkEnvironment V} {h : NetworkConsensusHandler V}
  (hI : Framed I)
include hI

private theorem Framed.unsaved {e : NetworkEvent V} (hh : I h) (he : e.stored = none) : I (h.log e) :=
  hI.log h e hh fun s hs => by rw [he] at hs; cases hs

theorem Framed.stepwise [DecidableEq V] : Stepwise I := ⟨fun h s hh _ => hI.state h s hh, hI.log⟩

end Framed

structure Rooted (h : NetworkConsensusHandler V) : Prop where
  now : h.snapshot.Rooted
  stored : Always NetworkEvent.stored RuntimeSnapshot.Rooted h.trace

theorem framed_rooted : Framed (Rooted (V := V)) where
  state := fun _ _ hh => ⟨hh.now, hh.stored⟩
  log := by
    intro h e hh hstored
    refine ⟨hh.now, hh.stored.concat fun s hs => ?_⟩
    obtain ⟨hcluster, hprotocol⟩ := hstored s hs
    have hnow := hh.now
    simp only [RuntimeSnapshot.Rooted, snapshot, ← hcluster, ← hprotocol] at hnow
    exact hnow

end NetworkConsensusHandler

def NodeAction.Configured : NodeAction V → Prop
  | .restart config _ _ => config.Constructed
  | _ => True

namespace Node
open NetworkConsensusHandler
variable [DecidableEq V] {env : NetworkEnvironment V}

def Rooted : Node V → Prop
  | .up h _ => h.Rooted
  | .down trace => Always NetworkEvent.stored RuntimeSnapshot.Rooted trace

private theorem rooted_installMembership (change : MembershipChange V) (next : List ReplicaId) :
    Keeps NetworkConsensusHandler.Rooted (installMembership env change next) := by
  apply keeps_installMembership framed_rooted.stepwise.closed.quiet
  · exact fun h hh => ⟨hh.now, hh.stored⟩
  · intro h hh hsucc
    have hnow : (h.reconfigured change next).snapshot.Rooted :=
      fun hzero => absurd hzero (ClusterIdentity.epoch_ne_zero hsucc)
    exact ⟨hnow, hh.stored.concat fun s hs => Option.some.inj hs ▸ hnow⟩
  · exact fun h s e hh => framed_rooted.unsaved hh rfl

private theorem rooted_step {n : Node V} {a : NodeAction V} (hn : n.Rooted) (ha : a.Configured) :
    (n.step env a).Rooted := by
  have hstep := step_cases env n a
  generalize n.step env a = n' at hstep
  cases hstep with
  | idle => exact hn
  | called | notified | dropped => exact hn
  | @advanced h _ _ _ task _ now _ returned => exact (framed_rooted.stepwise.advance now task).ok hn returned
  | @failed h _ _ task _ now _ _ failure => exact (framed_rooted.stepwise.advance now task).error hn failure
  | @crashed h _ task _ now =>
    exact ((framed_rooted.stepwise.advance now task).after hn).stored.earlier (List.take_prefix ..)
  | halted => exact hn.stored
  | reconfigured change next => exact (rooted_installMembership change next).after hn
  | reconfigureCrashed change next =>
    exact ((rooted_installMembership change next).after hn).stored.earlier (List.take_prefix ..)
  | @restarted trace config recorders h noop new =>
    have hconfig : h.config = config := new_config new
    have htrace := (new_ok new).1
    refine ⟨fun _ => ⟨config, ha, ?_, ?_⟩, ?_⟩
    · simp only [snapshot, hconfig]
    · simp only [snapshot, hconfig]
    · rw [htrace]
      exact Always.concat hn fun s hs => nomatch hs

/-- Every snapshot a deployed node has ever saved is rooted. -/
theorem rooted_run {actions : List (NodeAction V)} (h : Along (step env) (fun _ a => a.Configured) fresh actions) :
    Always NetworkEvent.stored RuntimeSnapshot.Rooted (run (step env) fresh actions).trace := by
  have hrun : (run (step env) fresh actions).Rooted := run_invariant (fun _ _ => rooted_step) Always.nil h
  cases hn : run (step env) fresh actions with
  | up h tasks =>
    rw [hn] at hrun
    exact hrun.stored
  | down t =>
    rw [hn] at hrun
    exact hrun

end Node

/-! ### The identity checks -/

section Mismatch
variable [DecidableEq V]

theorem ReplicaCore.restore_never_mismatch (config : ReplicaConfig) (s : ReplicaSnapshot V) :
    Never .configurationMismatch (ReplicaCore.restore config s) := by
  refine .bind (.require (by simp)) fun _ => .bind (.require (by simp)) fun _ => .bind (.require (by simp)) fun _ =>
    .bind (.require (by simp)) fun _ => .bind (.require (by simp)) fun _ => ?_
  cases s.checkpointedThrough.checkedNext with
  | none => exact .error (by simp)
  | some first =>
    refine .bind (.loop (fun slot => ?_) _ first) fun _ => .bind (.require (by simp)) fun _ => .ok _
    simp only [checkCommitted]
    split_ifs
    · refine .bind (.require (by simp)) fun _ => ?_
      cases slot.checkedNext with
      | none => exact .error (by simp)
      | some next => exact .ok _
    · exact .ok _

theorem EpochTuner.restore_never_mismatch (size : Nat) (members : List ReplicaId) (auto : Bool)
    (schedules : OrderedMap Nat EpochSchedule) (stats : OrderedMap Nat EpochStat) (through : SlotIndex) :
    Never .configurationMismatch (EpochTuner.restore size members auto schedules stats through) := by
  refine .bind (.forM (fun e => ?_) _) fun _ => .bind (.forM (fun e => ?_) _) fun _ => .ok _
  · exact .require nofun
  · exact .require nofun

private theorem ConsensusState.restore_never_mismatch (config : ReplicaRuntimeConfig) (s : RuntimeSnapshot V) :
    Never .configurationMismatch (ConsensusState.restore config s) :=
  .bind (ReplicaCore.restore_never_mismatch _ _) fun _ => .bind (EpochTuner.restore_never_mismatch _ _ _ _ _ _)
    fun _ => .ok _

private theorem ConsensusState.validateState_never_mismatch (config : ReplicaRuntimeConfig) (s : ConsensusState V) :
    Never .configurationMismatch (ConsensusState.validateState config s) := by
  refine .bind (.require nofun) fun _ => .bind (.forM (fun e => ?_) _) fun _ => .forM (fun e => ?_) _
  · exact .bind (.require nofun) fun _ => .require nofun
  · exact .require nofun

private theorem ReplicaRuntime.validateRestoredState_never_mismatch (r : ReplicaRuntime V) :
    Never .configurationMismatch r.validateRestoredState := by
  refine .bind (.forM (fun e => ?_) _) fun _ => .bind (.forM (fun e => ?_) _) fun _ => .bind (.forM (fun e => ?_) _)
    fun _ =>
    .bind (.require nofun) fun _ => .forM (fun e => ?_) _
  · exact .bind (.require nofun) fun _ => .require nofun
  · exact .bind (.require nofun) fun _ => .bind (.require nofun) fun _ => .require nofun
  · exact .bind (.require nofun) fun _ => .require nofun
  · exact .require nofun

private theorem ReplicaRuntime.validateRuntimeComponents_never_mismatch (config : ReplicaRuntimeConfig)
    (replica : ReplicaCore V)
    (tuner : EpochTuner) (s : RuntimeSnapshot V) :
    Never .configurationMismatch (ReplicaRuntime.validateRuntimeComponents config replica tuner s) := by
  refine .bind (.forM (fun e => ?_) _) fun _ => .bind (.forM (fun e => ?_) _) fun _ => .bind (.forM (fun e => ?_) _)
    fun _ =>
    .bind (.require nofun) fun _ => .forM (fun e => ?_) _
  · exact .require nofun
  · exact .bind (.require nofun) fun _ => .bind (.require nofun) fun _ => .require nofun
  · exact .require nofun
  · exact .require nofun

end Mismatch

def Environment.NoMismatch (env : Environment V) : Prop :=
  (∀ trace through checkpoint, Never .configurationMismatch (env.importCheckpoint trace through checkpoint)) ∧
    ∀ trace s, Never .configurationMismatch (env.save trace s)

def NetworkEnvironment.NoMismatch (env : NetworkEnvironment V) : Prop :=
  (∀ trace through checkpoint, Never .configurationMismatch (env.importCheckpoint trace through checkpoint)) ∧
    ∀ trace s, Never .configurationMismatch (env.save trace s)

namespace ReplicaRuntimeConfig
variable [DecidableEq V]

/-- No identity check turns the snapshot away, neither when a runtime or a node starts from
it nor when one that runs with the configuration is sent it. -/
structure Readmits (config : ReplicaRuntimeConfig) (s : RuntimeSnapshot V) : Prop where
  runtime : ∀ (proposer : ProposerCore) (trace : List (Event V)), proposer.replicaId = config.replicaId →
    proposer.laneId = config.laneId →
    Never .configurationMismatch (ReplicaRuntime.new config proposer config.members (some s) trace)
  node : ∀ trace : List (NetworkEvent V),
    Never .configurationMismatch (NetworkConsensusHandler.new config config.members (some s) trace)
  joiningRuntime : ∀ (env : Environment V) (r : ReplicaRuntime V) (ids : Finset V) (checkpoint : List UInt8),
    env.NoMismatch → r.config = config → Never .configurationMismatch
      (result (ReplicaRuntime.installStateTransfer env ⟨s.replica.checkpointedThrough, ids, checkpoint, s⟩) r)
  joiningNode : ∀ (env : NetworkEnvironment V) (h : NetworkConsensusHandler V) (ids : Finset V)
    (checkpoint : List UInt8),
    env.NoMismatch → h.config = config → Never .configurationMismatch
      (result (NetworkConsensusHandler.installStateTransfer env ⟨s.replica.checkpointedThrough, ids, checkpoint, s⟩) h)

theorem Constructed.identity_of_readmits (h : config.Constructed) {s : RuntimeSnapshot V}
    (hs : config.Readmits s) : s.cluster = config.cluster ∧ s.protocol = config.protocolIdentity := by
  by_contra hmismatch
  have hnodup : config.members.Nodup := membersAreNormalized_nodup h.cluster.2
  apply hs.node []
  simp only [NetworkConsensusHandler.new, require, List.toFinset_card_of_nodup hnodup, and_self, if_true, hmismatch,
    if_false]
  rfl

private theorem readmits_of_identity {s : RuntimeSnapshot V} (hcluster : s.cluster = config.cluster)
    (hprotocol : s.protocol = config.protocolIdentity) (hnodup : config.members.Nodup) : config.Readmits s where
  runtime := by
    intro proposer trace hid hlane
    have hrecorders : validateRecorders config config.members = .ok () :=
      ReplicaRuntime.validateRecorders_eq_ok.mpr ⟨hnodup, rfl⟩
    rw [ReplicaRuntime.new, hrecorders]
    refine .bind (.ok ()) fun _ => .bind (.require_of ⟨hid, hlane⟩ _) fun _ => .bind ?_ fun r => ?_
    · refine .bind (.require_of ⟨hcluster, hprotocol⟩ _) fun _ => .bind (ReplicaCore.restore_never_mismatch _ _)
        fun _ => ?_
      exact .bind (EpochTuner.restore_never_mismatch _ _ _ _ _ _) fun _ => .ok _
    · exact .bind r.validateRestoredState_never_mismatch fun _ => .ok _
  node := by
    intro trace
    have hmembers : config.members.length = config.members.toFinset.card := (List.toFinset_card_of_nodup hnodup).symm
    refine .bind (.require_of ⟨rfl, hmembers⟩ _) fun _ => .bind (.require_of ⟨hcluster, hprotocol⟩ _) fun _ => ?_
    refine .bind (ConsensusState.restore_never_mismatch config s) fun state => ?_
    exact .bind (state.validateState_never_mismatch config) fun _ => .ok _
  joiningRuntime := by
    rintro env r ids checkpoint ⟨himport, hsave⟩ rfl
    refine Avoids.get_bind (.bind (.check (.require_of rfl _))
      fun _ => .bind (.check (.require_of ⟨hcluster, hprotocol⟩ _)) fun _ => ?_)
    refine .bind (.check (ReplicaCore.restore_never_mismatch _ _)) fun replica => ?_
    refine .bind (.check (EpochTuner.restore_never_mismatch _ _ _ _ _ _)) fun tuner => ?_
    refine .bind (.check (ReplicaRuntime.validateRuntimeComponents_never_mismatch _ replica tuner s)) fun _ => ?_
    refine .bind (.bind (.modify _) fun _ => .check (himport _ _ _)) fun _ => .bind .get fun r => ?_
    exact .bind (.bind (.modify _) fun _ => .check (hsave _ _)) fun _ => .modify _
  joiningNode := by
    rintro env h ids checkpoint ⟨himport, hsave⟩ rfl
    refine Avoids.get_bind (.bind (.check (.require_of ⟨rfl, hcluster, hprotocol⟩ _)) fun _ => ?_)
    refine .bind (.check (ConsensusState.restore_never_mismatch _ _)) fun state => ?_
    refine .bind (.check (state.validateState_never_mismatch _)) fun _ => ?_
    refine .bind (.bind (.modify _) fun _ => .check (himport _ _ _)) fun _ => .bind .get fun h => ?_
    exact .bind (.bind (.modify _) fun _ => .check (hsave _ _)) fun _ => .modify _

end ReplicaRuntimeConfig

inductive RuntimeSnapshot.Deployed [DecidableEq V] (s : RuntimeSnapshot V) : Prop
  | runtime (env : Environment V) (actions : List (DeploymentAction V))
      (configured : Along (Deployment.step env) (fun _ a => a.Configured) Process.fresh actions)
      (e : Event V) (logged : e ∈ (run (Deployment.step env) Process.fresh actions).trace) (saved : e.stored = some s)
  | node (env : NetworkEnvironment V) (actions : List (NodeAction V))
      (configured : Along (Node.step env) (fun _ a => a.Configured) Node.fresh actions)
      (e : NetworkEvent V) (logged : e ∈ (run (Node.step env) Node.fresh actions).trace) (saved : e.stored = some s)

namespace RuntimeSnapshot
variable [DecidableEq V]

private theorem Deployed.rooted {s : RuntimeSnapshot V} (h : s.Deployed) : s.Rooted := by
  cases h with
  | runtime env actions configured e logged saved => exact Deployment.rooted_run configured e logged s saved
  | node env actions configured e logged saved => exact Node.rooted_run configured e logged s saved

/-- The constructors give a configuration that takes the snapshot back exactly when no
membership change came before it. -/
theorem rebuilt_iff_first_epoch (s : RuntimeSnapshot V) (h : s.Deployed) :
    (∃ config : ReplicaRuntimeConfig, config.Constructed ∧ config.Readmits s) ↔ s.cluster.epoch = 0 := by
  constructor
  · rintro ⟨config, hconfig, hreadmits⟩
    rw [(hconfig.identity_of_readmits hreadmits).1]
    exact hconfig.cluster.1
  · intro hzero
    obtain ⟨config, hconfig, hcluster, hprotocol⟩ := h.rooted hzero
    have hnodup := membersAreNormalized_nodup hconfig.cluster.2
    exact ⟨config, hconfig, ReplicaRuntimeConfig.readmits_of_identity hcluster hprotocol hnodup⟩

def reconfiguring : List (DeploymentAction Nat) :=
  .process (.restart ReplicaRuntime.replicaTwo ⟨2, 0, ProposerConfig.default⟩ [1, 2, 3] none) ::
    ReplicaRuntime.enterJoint.map fun op => .process (.call op)

private theorem constructed_of_members (replicaId : ReplicaId) (members : List ReplicaId)
    (h : (ReplicaRuntimeConfig.new replicaId 0 members 1 .default 100 0 >>= (·.withAutoSchedules)) = .ok config) :
    config.Constructed := by
  obtain ⟨plain, hnew, hauto⟩ := except_bind_eq_ok.mp h
  exact .withAutoSchedules (.new hnew) hauto

/-- The snapshot saved with the joint epoch can be loaded under no configuration. -/
theorem joint_snapshot_not_rebuilt : ∃ s : RuntimeSnapshot Nat, s.Deployed ∧ s.cluster.isJoint = true ∧
    ¬∃ config : ReplicaRuntimeConfig, config.Constructed ∧ config.Readmits s := by
  have hconfig : ReplicaRuntime.replicaTwo.Constructed :=
    constructed_of_members 2 [1, 2, 3] (by decide +kernel)
  have hconfigured : Along (Deployment.step .obliging) (fun _ a => DeploymentAction.Configured a) Process.fresh
    reconfiguring :=
    ⟨hconfig, trivial, trivial, trivial⟩
  have hcheck : (lastSaved (run (Deployment.step .obliging) Process.fresh reconfiguring).trace).any
      (fun s => s.cluster.isJoint && s.cluster.epoch = 1) = true := by decide +kernel
  obtain ⟨s, hs, hjoint⟩ := (Option.any_eq_true _ _).mp hcheck
  simp only [Bool.and_eq_true, decide_eq_true_eq] at hjoint
  obtain ⟨e, he, hstored⟩ := exists_of_latest hs
  refine ⟨s, .runtime _ _ hconfigured e he hstored, hjoint.1, ?_⟩
  rintro ⟨config, hbuilt, hreadmits⟩
  have hepoch := hbuilt.cluster.1
  rw [← (hbuilt.identity_of_readmits hreadmits).1, hjoint.2] at hepoch
  cases hepoch

def learning : List (NodeAction Nat) :=
  [.restart nodeOne [1, 2, 3] none, .call (.receiving [⟨1, [10], 1, 4⟩]), .run 0 0]

theorem rebuilt_iff_first_epoch_learning : ∃ s : RuntimeSnapshot Nat, s.decisions.contains 1 = true ∧ s.Deployed ∧
    ∃ config : ReplicaRuntimeConfig, config.Constructed ∧ config.Readmits s := by
  have hconfig : nodeOne.Constructed := constructed_of_members 1 [1, 2, 3] (by decide +kernel)
  have hconfigured : Along (Node.step .obliging) (fun _ a => NodeAction.Configured a) Node.fresh learning :=
    ⟨hconfig, trivial, trivial, trivial⟩
  have hcheck : (latest NetworkEvent.stored (run (Node.step .obliging) Node.fresh learning).trace).any
      (fun s => s.decisions.contains 1 && s.cluster.epoch = 0) = true := by decide +kernel
  obtain ⟨s, hs, hfirst⟩ := (Option.any_eq_true _ _).mp hcheck
  simp only [Bool.and_eq_true, decide_eq_true_eq] at hfirst
  obtain ⟨e, he, hstored⟩ := exists_of_latest hs
  have hdeployed : s.Deployed := .node _ _ hconfigured e he hstored
  exact ⟨s, hfirst.1, hdeployed, (rebuilt_iff_first_epoch s hdeployed).mpr hfirst.2⟩

end RuntimeSnapshot
end QuePaxa
