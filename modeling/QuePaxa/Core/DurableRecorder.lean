import QuePaxa.Core.RecorderRestart

/-! The recorder wrapper that saves every accepted mutation before it is acknowledged
and rolls the in-memory recorder back when the mutation or the save fails. -/
namespace QuePaxa
open Library
variable {V S T : Type}

class RecorderStateStore (V S : Type) where
  load : EStateM QuePaxaError S (Option (RecorderSnapshot V))
  save : RecorderSnapshot V → EStateM QuePaxaError S Unit

structure InMemoryRecorderStore (V : Type) where
  snapshot : Option (RecorderSnapshot V)

instance : RecorderStateStore V (InMemoryRecorderStore V) where
  load := fun s => .ok s.snapshot s
  save := fun snapshot _ => .ok () ⟨some snapshot⟩

structure DurableRecorderCore (V S : Type) where
  core : RecorderCore V
  store : S

namespace DurableRecorderCore

/-- The closure is run on the core; both failure paths restore the snapshot taken before it. -/
def mutate [RecorderStateStore V S] (mutation : EStateM QuePaxaError (RecorderCore V) T) :
    EStateM QuePaxaError (DurableRecorderCore V S) T := fun d =>
  let before := d.core.snapshot
  match mutation d.core with
  | .error e core => .error e { d with core := core.restoreSnapshotState before }
  | .ok output core =>
    match RecorderStateStore.save core.snapshot d.store with
    | .error e store => .error e ⟨core.restoreSnapshotState before, store⟩
    | .ok () store => .ok output ⟨core, store⟩

section
variable [DecidableEq V] [RecorderStateStore V S]

def new (config : RecorderConfig) : EStateM QuePaxaError S (DurableRecorderCore V S) := do
  let core ← match ← RecorderStateStore.load with
    | some snapshot => check (RecorderCore.restore config snapshot)
    | none => pure (RecorderCore.new config)
  pure ⟨core, ← get⟩

def record (available : Availability V) (request : RecordRequest V) :
    EStateM QuePaxaError (DurableRecorderCore V S) (RecordReply V) :=
  mutate (RecorderCore.record available request)

def recordFrom (available : Availability V) (authenticatedSender : ReplicaId) (request : RecordRequest V) :
    EStateM QuePaxaError (DurableRecorderCore V S) (RecordReply V) :=
  mutate (RecorderCore.recordFrom available authenticatedSender request)

def informDecision (decision : Decision V) : EStateM QuePaxaError (DurableRecorderCore V S) Unit :=
  mutate (RecorderCore.informDecision decision)

def informDecisions (decisions : List (Decision V)) : EStateM QuePaxaError (DurableRecorderCore V S) Unit :=
  mutate (RecorderCore.informDecisions decisions)

def pruneThrough (slot : SlotIndex) : EStateM QuePaxaError (DurableRecorderCore V S) Unit :=
  mutate (modify (·.pruneThrough slot))

def installStateTransferFloor (slot : SlotIndex) : EStateM QuePaxaError (DurableRecorderCore V S) Unit :=
  mutate (modify (·.installStateTransferFloor slot))

def installMembership (change : MembershipChange V) : EStateM QuePaxaError (DurableRecorderCore V S) Unit :=
  mutate (RecorderCore.installMembership change)

def exec : RecorderOp V → EStateM QuePaxaError (DurableRecorderCore V S) (Option (RecordReply V))
  | .record available request => some <$> record available request
  | .recordFrom available sender request => some <$> recordFrom available sender request
  | .informDecision decision => do informDecision decision; pure none
  | .informDecisions decisions => do informDecisions decisions; pure none
  | .pruneThrough slot => do pruneThrough slot; pure none
  | .installStateTransferFloor slot => do installStateTransferFloor slot; pure none
  | .installMembership change => do installMembership change; pure none

end

private theorem snapshot_rollback (r m : RecorderCore V) :
    (m.restoreSnapshotState r.snapshot).snapshot = { r.snapshot with cluster := m.config.cluster } := by
  simp only [RecorderCore.snapshot, RecorderCore.restoreSnapshotState, OrderedMap.mapValues_mapValues]
  rfl

private theorem snapshot_rollback_iff (r m : RecorderCore V) :
    (m.restoreSnapshotState r.snapshot).snapshot = r.snapshot ↔ m.config.cluster = r.config.cluster := by
  rw [snapshot_rollback]
  constructor
  · intro h
    exact congrArg RecorderSnapshot.cluster h
  · intro h
    rw [h]
    rfl

/-- A failed call rolls back the state its mutation had reached. -/
theorem mutate_error [RecorderStateStore V S] {mutation : EStateM QuePaxaError (RecorderCore V) T}
    {d d' : DurableRecorderCore V S} {e : QuePaxaError} (h : mutate mutation d = .error e d') :
    d'.core = (after mutation d.core).restoreSnapshotState d.core.snapshot := by
  unfold mutate at h
  unfold after
  cases hm : mutation d.core with
  | error e' m => simp only [hm, EStateM.Result.error.injEq] at h; rw [← h.2]
  | ok t m =>
    simp only [hm] at h
    cases hs : RecorderStateStore.save m.snapshot d.store with
    | error e' s => simp only [hs, EStateM.Result.error.injEq] at h; rw [← h.2]
    | ok _ s => simp [hs] at h

private theorem mutate_bind_pure {U : Type} [RecorderStateStore V S] (f : T → U)
    (mutation : EStateM QuePaxaError (RecorderCore V) T) :
    mutate (S := S) (mutation >>= fun t => pure (f t)) = mutate mutation >>= fun t => pure (f t) := by
  funext d
  simp only [mutate, bind_apply, pure_apply]
  cases mutation d.core with
  | error e m => rfl
  | ok t m =>
    simp only
    cases RecorderStateStore.save m.snapshot d.store <;> rfl

section
variable [DecidableEq V] [RecorderStateStore V S]

theorem exec_eq_mutate (op : RecorderOp V) : exec (S := S) op = mutate op.exec := by
  cases op <;> exact (mutate_bind_pure _ _).symm

/-- A failed call leaves the recorder as it was unless it is an install the core accepted. -/
theorem failed_call_changes_nothing_iff (op : RecorderOp V) (d d' : DurableRecorderCore V S)
    (e : QuePaxaError) (h : exec op d = .error e d') :
    d'.core.snapshot = d.core.snapshot ↔
      ¬∃ change, op = .installMembership change ∧ d.core.Installs change := by
  rw [exec_eq_mutate] at h
  rw [mutate_error h, snapshot_rollback_iff]
  exact RecorderCore.apply_cluster op d.core

end

structure FillingStore (V : Type) where
  snapshot : Option (RecorderSnapshot V)
  room : Nat
  deriving DecidableEq

instance : RecorderStateStore V (FillingStore V) where
  load := fun s => .ok s.snapshot s
  save := fun snapshot s =>
    if s.room = 0 then .error (.storageError "disk full") s else .ok () ⟨some snapshot, s.room - 1⟩

def threeVoters : ClusterIdentity := ⟨[1, 2, 3], 1, 0, none⟩
def joiningVoters : ClusterIdentity := ⟨[1, 2, 3, 4], 1, 1, some ⟨[1, 2, 3], 1, [2, 3, 4]⟩⟩
def freshRecorder : DurableRecorderCore Nat (FillingStore Nat) :=
  ⟨RecorderCore.new ⟨2, threeVoters, RecorderLimits.default⟩, ⟨none, 1⟩⟩

theorem failed_call_changes_nothing_iff_empty_decision :
    (after (exec (.informDecision ⟨1, [], 1, 4⟩)) freshRecorder).core.snapshot = freshRecorder.core.snapshot ↔
      ¬∃ change, RecorderOp.informDecision (V := Nat) ⟨1, [], 1, 4⟩ = .installMembership change ∧
        freshRecorder.core.Installs change :=
  failed_call_changes_nothing_iff (.informDecision ⟨1, [], 1, 4⟩) freshRecorder _ .emptyDecision rfl

/-- The anchor is saved, the disk is then full: the install reports the failed save,
yet the recorder now runs, and replies, under the unsaved joint epoch. -/
theorem failed_install_keeps_new_cluster :
    new ⟨2, threeVoters, RecorderLimits.default⟩ (⟨none, 1⟩ : FillingStore Nat) = .ok freshRecorder ⟨none, 1⟩ ∧
    ∃ anchored failed, exec (.informDecision ⟨1, [10], 1, 4⟩) freshRecorder = .ok none anchored ∧
      exec (.installMembership ⟨⟨1, [10], 1, 4⟩, joiningVoters, 10⟩) anchored =
        .error (.storageError "disk full") failed ∧
      anchored.core.snapshot.cluster = threeVoters ∧ failed.core.snapshot.cluster = joiningVoters ∧
      failed.core.snapshot ≠ anchored.core.snapshot :=
  ⟨rfl, _, _, rfl, rfl, rfl, rfl, by decide +kernel⟩

end DurableRecorderCore
end QuePaxa
