import QuePaxa.Core.RecorderReach
import QuePaxa.Core.Transitions
import QuePaxa.Network.Deployment
import QuePaxa.Network.Soundness

/-! The configured cluster over a whole lifetime. Recorders and runtimes start with an identity
that was built by a constructor, restarts and transferred states have to name the same one, and
only a validated transition replaces it, so it is well-formed at any time. -/
namespace QuePaxa
open Library
variable {V : Type}

private theorem ClusterIdentity.stable_wellFormed {epoch : Nat} {members : List ReplicaId} {maxFaults : Nat}
    {c : ClusterIdentity}
    (h : stable epoch members maxFaults = .ok c) : c.isWellFormed = true := by
  simp only [stable, except_bind_eq_ok] at h
  obtain ⟨normal, hnormal, _, hbudget, hc⟩ := h
  obtain rfl := Except.ok.inj hc
  exact (isWellFormed_stable rfl).mpr ⟨normalizeMembers_normalized hnormal, hbudget⟩

def DeploymentAction.WellConfigured : DeploymentAction V → Prop
  | .process (.restart config _ _ _) => config.cluster.isWellFormed = true
  | _ => True

namespace ReplicaRuntime

structure Votes (r : ReplicaRuntime V) : Prop where
  wellFormed : r.config.cluster.isWellFormed = true
  proposer : r.proposer.config.cluster = some r.config.cluster

variable [DecidableEq V] {env : Environment V} {r r' : ReplicaRuntime V}

private theorem Votes.move {op : RuntimeOp V} (h : r.Votes) (hm : Move env op r r') : r'.Votes := by
  cases hm with
  | quiet hq => cases hq <;> exact ⟨h.wellFormed, h.proposer⟩
  | reconfigured _ anchored => exact ⟨(ClusterIdentity.isSuccessorOf_wellFormed anchored.successor).1, rfl⟩
  | _ => exact ⟨h.wellFormed, h.proposer⟩

private theorem Votes.arming (h : r.Votes) (ha : Arming r r') : r'.Votes := by
  cases ha <;> exact ⟨h.wellFormed, h.proposer⟩

private theorem votes_installStateTransfer (incoming : StateTransferSnapshot V) :
    Keeps Votes (installStateTransfer env incoming) := by
  have hrequest : ∀ (event : Event V) (result : Result Unit), Keeps Votes (request event result) := fun event result =>
    Keeps.bind (Keeps.modify fun _ hr => ⟨hr.wellFormed, hr.proposer⟩) fun _ => Keeps.check _
  refine Keeps.bind Keeps.get fun r => Keeps.bind (Keeps.check _) fun _ => Keeps.bind (Keeps.check _) fun _ =>
    Keeps.bind (Keeps.check _) fun _ => Keeps.bind (Keeps.check _) fun _ => Keeps.bind (Keeps.check _) fun _ =>
    Keeps.bind (hrequest _ _) fun _ => Keeps.bind Keeps.get fun _ => Keeps.bind (hrequest _ _) fun _ => ?_
  exact Keeps.modify fun _ hr => ⟨hr.wellFormed, hr.proposer⟩

private theorem votes_new {config : ReplicaRuntimeConfig} {proposer : ProposerCore} {recorders : List ReplicaId}
    {stored : Option (RuntimeSnapshot V)} {trace : List (Event V)} (hconfig : config.cluster.isWellFormed = true)
    (h : new config proposer recorders stored trace = .ok r) : r.Votes := by
  simp only [new, except_bind_eq_ok] at h
  obtain ⟨_, _, _, _, r', hbuild, _, _, hr⟩ := h
  obtain rfl : r' = r := Except.ok.inj hr
  cases stored with
  | none =>
    obtain rfl := Except.ok.inj hbuild
    exact ⟨hconfig, rfl⟩
  | some s =>
    simp only [rebuild, except_bind_eq_ok] at hbuild
    obtain ⟨_, _, _, _, _, _, hr⟩ := hbuild
    obtain rfl := Except.ok.inj hr
    exact ⟨hconfig, rfl⟩

private theorem votes_run {actions : List (DeploymentAction V)}
    (h : Along (Deployment.step env) (fun _ a => a.WellConfigured) Process.fresh actions) :
    (run (Deployment.step env) Process.fresh actions).Upholds Votes fun _ => True := by
  refine Deployment.upholds_run (fun _ _ => trivial) (fun _ _ _ _ => trivial) trivial ?_ ?_ ?_ h
  · exact fun r op hr _ => (keeps_every_call (fun _ _ => Votes.move) fun _ _ _ => Votes.arming).after hr
  · exact fun r incoming hr _ => (votes_installStateTransfer incoming).after hr
  · intro t config proposer recorders noop r _ hconfig hnew
    have hvotes := votes_new hconfig hnew
    cases noop <;> exact ⟨hvotes.wellFormed, hvotes.proposer⟩

end ReplicaRuntime

def NodeProcessAction.WellConfigured (a : NodeProcessAction V) : Prop := a.StartsIn (·.isWellFormed = true)

/-- The validator accepts exactly the transitions that the constructors make. So the cluster
of a recorder or a runtime is well-formed as long as it lives, and no quorum is computed by a
subtraction below zero. -/
theorem ClusterIdentity.successors_are_constructible {V : Type} [DecidableEq V] :
    (∀ prev next : ClusterIdentity, prev.isWellFormed = true →
      (next.isSuccessorOf prev = true ↔
        (∃ members maxFaults, prev.beginJoint members maxFaults = .ok next) ∨ prev.finalizeJoint = .ok next)) ∧
    (∀ epoch members maxFaults c, stable epoch members maxFaults = .ok c → c.isWellFormed = true) ∧
    (∀ r : RecorderCore V, r.Reached (fun config => config.cluster.isWellFormed = true) →
      r.config.cluster.isWellFormed = true ∧ r.config.cluster.SubtractionsFit) ∧
    (∀ (env : Environment V) (actions : List (DeploymentAction V)) (r : ReplicaRuntime V),
      Along (Deployment.step env) (fun _ a => a.WellConfigured) Process.fresh actions →
      run (Deployment.step env) Process.fresh actions = .up r →
      r.config.cluster.isWellFormed = true ∧ r.config.cluster.SubtractionsFit ∧
        r.proposer.config.cluster = some r.config.cluster) ∧
    ∀ (env : NetworkEnvironment V) (actions : List (NodeProcessAction V)) (h : NetworkConsensusHandler V)
      (tasks : List (Task V)) (detached : List (BlockingRequest V)),
      Along (NodeProcess.step env) (fun _ a => a.WellConfigured) NodeProcess.fresh actions →
      run (NodeProcess.step env) NodeProcess.fresh actions = ⟨.up h tasks, detached⟩ →
      h.config.cluster.isWellFormed = true ∧ h.config.cluster.SubtractionsFit := by
  refine ⟨fun prev next hprev => isSuccessorOf_iff hprev next, fun _ _ _ _ h => stable_wellFormed h, ?_, ?_, ?_⟩
  · intro r hr
    have hwell : r.config.cluster.isWellFormed = true :=
      hr.cluster (P := fun c => c.isWellFormed = true) (fun _ h => h)
        fun _ _ hsucc _ => (isSuccessorOf_wellFormed hsucc).1
    exact ⟨hwell, subtractionsFit hwell⟩
  · intro env actions r hrun hup
    have hvotes := ReplicaRuntime.votes_run hrun
    rw [hup] at hvotes
    exact ⟨hvotes.wellFormed, subtractionsFit hvotes.wellFormed, hvotes.proposer⟩
  · intro env actions h tasks detached hrun hup
    have hsound := NodeProcess.sound_run (fun _ _ hsucc => (isSuccessorOf_wellFormed hsucc).1) env hrun
    rw [hup] at hsound
    exact ⟨hsound.2, subtractionsFit hsound.2⟩

/-- One voter of three is replaced: the joint epoch is accepted because it was begun, and the
recorder and both runtimes that are started in it count their quorums in it. -/
theorem ClusterIdentity.successors_are_constructible_replacing :
    let stable : ClusterIdentity := ⟨[1, 2, 3], 1, 0, none⟩
    let joint : ClusterIdentity := ⟨[1, 2, 3, 4], 1, 1, some ⟨[1, 2, 3], 1, [2, 3, 4]⟩⟩
    let start : DeploymentAction Nat := .process (.restart { nodeOne with cluster := joint } ⟨1, 0, .default⟩
      [1, 2, 3, 4] none)
    let join : NodeProcessAction Nat := .act (.restart { nodeOne with cluster := joint } [1, 2, 3, 4] none)
    stable.beginJoint [2, 3, 4] 1 = .ok joint ∧ joint.isSuccessorOf stable = true ∧
    (RecorderCore.new ⟨1, joint, .default⟩ : RecorderCore Nat).config.cluster.SubtractionsFit ∧
    (∃ r, run (Deployment.step .obliging) Process.fresh [start] = .up r ∧ r.config.cluster = joint ∧
      r.config.cluster.SubtractionsFit) ∧
    ∃ h, run (NodeProcess.step .obliging) NodeProcess.fresh [join] = ⟨.up h [], []⟩ ∧ h.config.cluster = joint ∧
      h.config.cluster.SubtractionsFit := by
  intro stable joint start join
  have hjoint : joint.isWellFormed = true := by decide
  have hbegin : stable.beginJoint [2, 3, 4] 1 = .ok joint := by decide
  obtain ⟨hiff, _, hrecorder, hruntime, hnode⟩ := successors_are_constructible (V := Nat)
  refine ⟨hbegin, (hiff stable joint (by decide)).mpr (.inl ⟨_, _, hbegin⟩), (hrecorder _ (.new hjoint)).2, ?_, ?_⟩
  · have hup : ∃ r, run (Deployment.step .obliging) Process.fresh [start] = .up r ∧ r.config.cluster = joint :=
      ⟨_, rfl, rfl⟩
    obtain ⟨r, hr, hcluster⟩ := hup
    exact ⟨r, hr, hcluster, (hruntime .obliging [start] r ⟨hjoint, trivial⟩ hr).2.1⟩
  · have hup : ∃ h, run (NodeProcess.step .obliging) NodeProcess.fresh [join] = ⟨.up h [], []⟩ ∧
        h.config.cluster = joint := ⟨_, rfl, rfl⟩
    obtain ⟨h, hh, hcluster⟩ := hup
    exact ⟨h, hh, hcluster, (hnode .obliging [join] h [] [] ⟨hjoint, trivial⟩ hh).2⟩

end QuePaxa
