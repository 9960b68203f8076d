import QuePaxa.Core.ReplicaClaims
import QuePaxa.Network.PersistBeforePropose
import QuePaxa.Runtime.Deployment
import QuePaxa.Runtime.PersistBeforePropose

/-! A state transfer replaces the replica by that of another. Neither runtime compares the two: a
transfer may lag behind what it replaces, and it knows nothing of the proposals made so far. -/
namespace QuePaxa
open Library
variable {V : Type}

namespace ReplicaCore
open ReplicaSnapshot
variable {r r' : ReplicaCore V} {proposed : SlotIndex → Prop}

/-- The replica that takes over takes nothing back: its frontiers are not behind, and no slot with
a proposal comes open again. -/
structure KeepsGround (proposed : SlotIndex → Prop) (r r' : ReplicaCore V) : Prop where
  checkpoint : r.checkpointedThrough ≤ r'.checkpointedThrough
  frontier : r.committedThrough ≤ r'.committedThrough
  closed : ∀ slot, proposed slot → r.Claimed slot → r'.Claimed slot

/-- The snapshot is at least as far, and from its frontier on it has taken every slot that the
replica has taken with a proposal of its own. -/
structure CaughtUpBy (proposed : SlotIndex → Prop) (r : ReplicaCore V) (s : ReplicaSnapshot V) : Prop where
  checkpoint : r.checkpointedThrough ≤ s.checkpointedThrough
  frontier : r.nextCommit ≤ s.nextCommit
  outstanding : ∀ slot, s.nextCommit ≤ slot → proposed slot → (r.log.get slot).any (·.taken) = true →
    (s.log.get slot).any (·.taken) = true

private theorem keepsGround_iff (hr' : 0 < r'.nextCommit) :
    KeepsGround proposed r r' ↔ CaughtUpBy proposed r r'.snapshot := by
  constructor
  · intro h
    refine ⟨h.checkpoint, (Nat.sub_le_sub_iff_right hr').mp h.frontier, fun slot hahead hproposed htaken => ?_⟩
    rcases h.closed slot hproposed (.inr htaken) with hbelow | hclaimed
    · exact absurd hahead (not_le.mpr hbelow)
    · exact hclaimed
  · intro h
    refine ⟨h.checkpoint, Nat.sub_le_sub_right h.frontier 1, fun slot hproposed hclaimed => ?_⟩
    rcases lt_or_ge slot r'.nextCommit with hbelow | hahead
    · exact .inl hbelow
    · rcases hclaimed with hold | htaken
      · exact absurd (hold.trans_le h.frontier) (not_lt.mpr hahead)
      · exact .inr (h.outstanding slot hahead hproposed htaken)

/-- A claimed slot is not given out, whatever calls come first. -/
theorem claimed_withheld [DecidableEq V] {slot : SlotIndex} (hs : r.Sound) (h : r.Claimed slot)
    (ops : List (ReplicaOp V))
    (values : List V) (s : ReplicaCore V) : nextProposal (run perform r ops) ≠ .ok (some (slot, values)) s := by
  have hrun : (run perform r ops).Sound ∧ (run perform r ops).Claimed slot := by
    refine run_invariant_all (I := fun s : ReplicaCore V => s.Sound ∧ s.Claimed slot) (fun s op hs => ?_) ⟨hs, h⟩ ops
    exact ⟨serve_invariant (fun _ _ => sound_change) s (.op op) hs.1, claimed_perform hs.1 hs.2 op⟩
  intro heq
  exact (armed_of_nextProposal heq).free hrun.2

/-- What it takes for a restored replica to keep the ground of the one it replaces. -/
theorem keepsGround_restored_iff [DecidableEq V] {config : ReplicaConfig} {s : ReplicaSnapshot V}
    (h : restore config s = .ok r') :
    (KeepsGround proposed r r' ↔ CaughtUpBy proposed r s) ∧
    (CaughtUpBy proposed r s → ∀ slot, proposed slot → r.Claimed slot → ∀ ops values t,
      nextProposal (run perform r' ops) ≠ .ok (some (slot, values)) t) := by
  have hsound := sound_restore h
  have hiff : KeepsGround proposed r r' ↔ CaughtUpBy proposed r r'.snapshot :=
    keepsGround_iff (Nat.zero_lt_of_lt hsound.frontier)
  obtain rfl := restore_eq_ok h
  refine ⟨hiff, fun hcaught slot hproposed hclaimed => ?_⟩
  exact claimed_withheld hsound ((hiff.mpr hcaught).closed slot hproposed hclaimed)

end ReplicaCore

def ReplicaRuntime.Proposed (r : ReplicaRuntime V) (slot : SlotIndex) : Prop :=
  (r.replica.entry slot).proposed ≠ [] ∨ ∃ values, (slot, values) ∈ eventReading.offers r.trace

def NetworkConsensusHandler.Proposed (h : NetworkConsensusHandler V) (slot : SlotIndex) : Prop :=
  (h.state.replica.entry slot).proposed ≠ [] ∨ ∃ values, (slot, values) ∈ networkReading.offers h.trace

section
variable [DecidableEq V]

private theorem ReplicaRuntime.restored_of_installed {env : Environment V} {incoming : StateTransferSnapshot V}
    {r r' : ReplicaRuntime V}
    (h : installStateTransfer env incoming r = .ok () r') :
    ReplicaCore.restore r.config.replica incoming.runtime.replica = .ok r'.replica := by
  have hreplica : r'.replica = ⟨incoming.runtime.replica, r.config.replica⟩ := by
    rcases installStateTransfer_cases env incoming r with ⟨e, heq⟩ | ⟨e, heq⟩ | ⟨e, heq⟩ |
      ⟨s, heq, _, _, hloaded, hsnapshot, _, _⟩
    · rw [heq] at h
      cases h
    · rw [heq] at h
      cases h
    · rw [heq] at h
      cases h
    · rw [heq] at h
      cases h
      rw [← hsnapshot, ← hloaded.limits]
      rfl
  simp only [installStateTransfer, bind_apply (x := get), get_apply] at h
  obtain ⟨_, _, h⟩ := check_bind_eq_ok.mp h
  obtain ⟨_, _, h⟩ := check_bind_eq_ok.mp h
  obtain ⟨replica, hrestore, _⟩ := check_bind_eq_ok.mp h
  rw [hrestore, hreplica, ReplicaCore.restore_eq_ok hrestore]

private theorem NetworkConsensusHandler.restored_of_installed {env : NetworkEnvironment V}
    {incoming : StateTransferSnapshot V}
    {h h' : NetworkConsensusHandler V} (hok : installStateTransfer env incoming h = .ok () h') :
    ReplicaCore.restore h.config.replica incoming.runtime.replica = .ok h'.state.replica := by
  rcases installStateTransfer_cases env h incoming with ⟨e, heq⟩ | ⟨e, heq⟩ | ⟨e, heq⟩ | ⟨s, hrestore, _, _, heq⟩
  · rw [heq] at hok
    cases hok
  · rw [heq] at hok
    cases hok
  · rw [heq] at hok
    cases hok
  · rw [heq] at hok
    cases hok
    exact (restore_ok hrestore).2

/-- In any state a transfer that gets installed takes nothing back exactly when it has caught up
with the replica it replaces, own proposals included. Then no slot of theirs is given out again. -/
theorem installs_keep_ground_iff :
    (∀ (env : Environment V) (incoming : StateTransferSnapshot V) (r r' : ReplicaRuntime V),
      ReplicaRuntime.installStateTransfer env incoming r = .ok () r' →
      (ReplicaCore.KeepsGround r.Proposed r.replica r'.replica ↔
        ReplicaCore.CaughtUpBy r.Proposed r.replica incoming.runtime.replica) ∧
      (ReplicaCore.CaughtUpBy r.Proposed r.replica incoming.runtime.replica →
        ∀ slot, r.Proposed slot → r.replica.Claimed slot → ∀ ops values t,
          ReplicaCore.nextProposal (run ReplicaCore.perform r'.replica ops) ≠ .ok (some (slot, values)) t)) ∧
    ∀ (env : NetworkEnvironment V) (incoming : StateTransferSnapshot V) (h h' : NetworkConsensusHandler V),
      NetworkConsensusHandler.installStateTransfer env incoming h = .ok () h' →
      (ReplicaCore.KeepsGround h.Proposed h.state.replica h'.state.replica ↔
        ReplicaCore.CaughtUpBy h.Proposed h.state.replica incoming.runtime.replica) ∧
      (ReplicaCore.CaughtUpBy h.Proposed h.state.replica incoming.runtime.replica →
        ∀ slot, h.Proposed slot → h.state.replica.Claimed slot → ∀ ops values t,
          ReplicaCore.nextProposal (run ReplicaCore.perform h'.state.replica ops) ≠ .ok (some (slot, values)) t) := by
  constructor
  · intro env incoming r r' hok
    exact ReplicaCore.keepsGround_restored_iff (ReplicaRuntime.restored_of_installed hok)
  · intro env incoming h h' hok
    exact ReplicaCore.keepsGround_restored_iff (NetworkConsensusHandler.restored_of_installed hok)

end

/-! A replica proposes a value for slot 1, loses the slot and commits it. Then it installs the
transfer of a replica that has not started yet, and slot 1 is open for another value. -/

def transferAfter (actions : List (NodeAction Nat)) : StateTransferSnapshot Nat :=
  let h : NetworkConsensusHandler Nat := match run (Node.step .obliging) Node.fresh actions with
    | .up h _ => h
    | .down trace => ⟨nodeOne, [1, 2, 3], none, .fresh nodeOne, trace⟩
  ⟨h.state.replica.checkpointedThrough, ∅, [], h.snapshot⟩

def runtimeInstalls (actions : List (DeploymentAction Nat)) (incoming : StateTransferSnapshot Nat)
    (result : ReplicaRuntime Nat → ReplicaRuntime Nat → Bool) : Bool :=
  match run (Deployment.step .obliging) Process.fresh actions with
  | .up r =>
    match ReplicaRuntime.installStateTransfer .obliging incoming r with
    | .ok _ r' => result r r'
    | .error _ _ => false
  | .down _ => false

theorem runtimeInstalls_iff {actions : List (DeploymentAction Nat)} {incoming : StateTransferSnapshot Nat}
    {result : ReplicaRuntime Nat → ReplicaRuntime Nat → Bool} (h : runtimeInstalls actions incoming result = true) :
    ∃ r r', run (Deployment.step .obliging) Process.fresh actions = .up r ∧
      ReplicaRuntime.installStateTransfer .obliging incoming r = .ok () r' ∧ result r r' = true := by
  rw [runtimeInstalls] at h
  split at h
  · next r hrun =>
    split at h
    · next u r' hinstall => exact ⟨r, r', hrun, hinstall, h⟩
    · cases h
  · cases h

def nodeInstalls (actions : List (NodeAction Nat)) (incoming : StateTransferSnapshot Nat)
    (result : NetworkConsensusHandler Nat → NetworkConsensusHandler Nat → Bool) : Bool :=
  match run (Node.step .obliging) Node.fresh actions with
  | .up h _ =>
    match NetworkConsensusHandler.installStateTransfer .obliging incoming h with
    | .ok _ h' => result h h'
    | .error _ _ => false
  | .down _ => false

theorem nodeInstalls_iff {actions : List (NodeAction Nat)} {incoming : StateTransferSnapshot Nat}
    {result : NetworkConsensusHandler Nat → NetworkConsensusHandler Nat → Bool}
    (hresult : nodeInstalls actions incoming result = true) :
    ∃ h tasks h', run (Node.step .obliging) Node.fresh actions = .up h tasks ∧
      NetworkConsensusHandler.installStateTransfer .obliging incoming h = .ok () h' ∧ result h h' = true := by
  rw [nodeInstalls] at hresult
  split at hresult
  · next h tasks hrun =>
    split at hresult
    · next u h' hinstall => exact ⟨h, tasks, h', hrun, hinstall, hresult⟩
    · cases hresult
  · cases hresult

def runtimeLosesFirst : List (DeploymentAction Nat) :=
  [.process Process.bootReplicaOne, .process (.call (.submit [10])), .process (.call (.poll 0)),
    .process (.call (.receiveDecision ⟨1, [11], 2, 4⟩)), .process (.call (.checkpointThrough 1))]

def nodeLosesFirst : List (NodeAction Nat) :=
  [.restart nodeOne [1, 2, 3] none, .call (.submit [10]), .run 0 0, .run 0 0, .run 1 0, .run 1 0, .run 1 0,
    .call (.receiving [⟨1, [11], 2, 4⟩]), .run 2 0]

theorem install_reopens_a_slot :
    let blank := transferAfter [.restart nodeOne [1, 2, 3] none]
    (∃ r r', run (Deployment.step .obliging) Process.fresh runtimeLosesFirst = .up r ∧
      ReplicaRuntime.installStateTransfer .obliging blank r = .ok () r' ∧
      r'.replica.checkpointedThrough < r.replica.checkpointedThrough ∧
        r'.replica.committedThrough < r.replica.committedThrough ∧
      (1, [10]) ∈ eventReading.offers r.trace ∧
      result ReplicaCore.nextProposal r.replica = .ok (some (2, [10])) ∧
      result ReplicaCore.nextProposal (r'.replica.perform (.enqueue [20])) = .ok (some (1, [20]))) ∧
    ∃ h tasks h', run (Node.step .obliging) Node.fresh nodeLosesFirst = .up h tasks ∧
      NetworkConsensusHandler.installStateTransfer .obliging blank h = .ok () h' ∧
      h'.state.replica.committedThrough < h.state.replica.committedThrough ∧
      (1, [10]) ∈ networkReading.offers h.trace ∧
      result ReplicaCore.nextProposal h.state.replica = .ok (some (2, [10])) ∧
      result ReplicaCore.nextProposal (h'.state.replica.perform (.enqueue [20])) = .ok (some (1, [20])) := by
  intro blank
  have hruntime : runtimeInstalls runtimeLosesFirst blank (fun r r' =>
      decide (r'.replica.checkpointedThrough < r.replica.checkpointedThrough ∧
        r'.replica.committedThrough < r.replica.committedThrough ∧
        (1, [10]) ∈ eventReading.offers r.trace ∧ result ReplicaCore.nextProposal r.replica = .ok (some (2, [10])) ∧
        result ReplicaCore.nextProposal (r'.replica.perform (.enqueue [20])) = .ok (some (1, [20])))) =
          true := by decide +kernel
  have hnode : nodeInstalls nodeLosesFirst blank (fun h h' =>
      decide (h'.state.replica.committedThrough < h.state.replica.committedThrough ∧
        (1, [10]) ∈ networkReading.offers h.trace ∧
        result ReplicaCore.nextProposal h.state.replica = .ok (some (2, [10])) ∧
        result ReplicaCore.nextProposal (h'.state.replica.perform (.enqueue [20])) = .ok (some (1, [20])))) =
          true := by decide +kernel
  obtain ⟨r, r', hrun, hinstall, hresult⟩ := runtimeInstalls_iff hruntime
  obtain ⟨h, tasks, h', hrun', hinstall', hresult'⟩ := nodeInstalls_iff hnode
  exact ⟨⟨r, r', hrun, hinstall, of_decide_eq_true hresult⟩, h, tasks, h', hrun', hinstall', of_decide_eq_true hresult'⟩

private theorem ReplicaCore.caughtUpBy_of_passed {r : ReplicaCore V} {s : ReplicaSnapshot V}
    {proposed : SlotIndex → Prop}
    (h : r.checkpointedThrough ≤ s.checkpointedThrough ∧ r.nextCommit ≤ s.nextCommit ∧ ∀ e ∈ r.log.entries,
      e.1 < s.nextCommit) :
    CaughtUpBy proposed r s := by
  refine ⟨h.1, h.2.1, fun slot hahead _ htaken => ?_⟩
  obtain ⟨e, hget, _⟩ := (Option.any_eq_true _ _).mp htaken
  exact absurd (h.2.2 _ ((OrderedMap.get_eq_some ..).mp hget)) (not_lt.mpr hahead)

/-- Slot 1, for which value 10 is proposed, comes committed with the transfer. -/
theorem installs_keep_ground_iff_ahead :
    let ahead := transferAfter [.restart nodeOne [1, 2, 3] none, .call (.receiving [⟨1, [11], 2, 4⟩]), .run 0 0]
    (∃ r r', run (Deployment.step .obliging) Process.fresh (runtimeLosesFirst.take 3) = .up r ∧
      ReplicaRuntime.installStateTransfer .obliging ahead r = .ok () r' ∧
      r.replica.committedThrough = 0 ∧ r'.replica.committedThrough = 1 ∧
        ReplicaCore.KeepsGround r.Proposed r.replica r'.replica) ∧
    ∃ h tasks h', run (Node.step .obliging) Node.fresh (nodeLosesFirst.take 7) = .up h tasks ∧
      NetworkConsensusHandler.installStateTransfer .obliging ahead h = .ok () h' ∧
      h.state.replica.committedThrough = 0 ∧ h'.state.replica.committedThrough = 1 ∧
      ReplicaCore.KeepsGround h.Proposed h.state.replica h'.state.replica := by
  intro ahead
  have hruntime : runtimeInstalls (runtimeLosesFirst.take 3) ahead (fun r r' =>
      decide ((r.replica.committedThrough = 0 ∧ r'.replica.committedThrough = 1) ∧
        r.replica.checkpointedThrough ≤ ahead.runtime.replica.checkpointedThrough ∧
        r.replica.nextCommit ≤ ahead.runtime.replica.nextCommit ∧
        ∀ e ∈ r.replica.log.entries, e.1 < ahead.runtime.replica.nextCommit)) = true := by decide +kernel
  have hnode : nodeInstalls (nodeLosesFirst.take 7) ahead (fun h h' =>
      decide ((h.state.replica.committedThrough = 0 ∧ h'.state.replica.committedThrough = 1) ∧
        h.state.replica.checkpointedThrough ≤ ahead.runtime.replica.checkpointedThrough ∧
        h.state.replica.nextCommit ≤ ahead.runtime.replica.nextCommit ∧
        ∀ e ∈ h.state.replica.log.entries, e.1 < ahead.runtime.replica.nextCommit)) = true := by decide +kernel
  obtain ⟨r, r', hrun, hinstall, hresult⟩ := runtimeInstalls_iff hruntime
  obtain ⟨h, tasks, h', hrun', hinstall', hresult'⟩ := nodeInstalls_iff hnode
  obtain ⟨⟨hbefore, hafter⟩, hpassed⟩ := of_decide_eq_true hresult
  obtain ⟨⟨hbefore', hafter'⟩, hpassed'⟩ := of_decide_eq_true hresult'
  have hkeeps := (installs_keep_ground_iff.1 _ ahead r r' hinstall).1.mpr (ReplicaCore.caughtUpBy_of_passed hpassed)
  have hkeeps' := (installs_keep_ground_iff.2 _ ahead h h' hinstall').1.mpr (ReplicaCore.caughtUpBy_of_passed hpassed')
  exact ⟨⟨r, r', hrun, hinstall, hbefore, hafter, hkeeps⟩, h, tasks, h', hrun', hinstall', hbefore', hafter', hkeeps'⟩

end QuePaxa
