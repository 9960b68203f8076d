import QuePaxa.Core.Membership
import QuePaxa.Core.Register
import QuePaxa.Library.Checks
import QuePaxa.Library.Mutation

/-! One recorder: its registers, leader bindings, retained decisions and pruned floor. -/
namespace QuePaxa
open Library
variable {V : Type}

structure RecordRequest (V : Type) where
  sender : ReplicaId
  slot : SlotIndex
  roundOneLeader : Option ReplicaId
  step : Step
  proposal : Proposal V
  knownDecisions : List (Decision V)
  deriving DecidableEq, Repr

structure RecordReply (V : Type) where
  recorder : ReplicaId
  cluster : ClusterIdentity
  summary : RecordSummary V
  /-- The recorder's retained decision for the requested slot. -/
  decision : Option (Decision V)
  deriving DecidableEq, Repr

structure RecorderLimits where
  maxActiveSlots : Nat
  maxDecisions : Nat
  maxValuesPerProposal : Nat
  maxKnownDecisions : Nat
  maxStep : Step
  deriving DecidableEq, Repr

def RecorderLimits.default : RecorderLimits := ⟨4096, 4096, 1024, 256, 1027⟩

structure RecorderConfig where
  id : ReplicaId
  cluster : ClusterIdentity
  limits : RecorderLimits
  deriving DecidableEq, Repr

def RecorderConfig.contains (config : RecorderConfig) (replica : ReplicaId) : Bool :=
  config.cluster.contains replica

def RecorderConfig.fromCluster (id : ReplicaId) (cluster : ClusterIdentity) : Result RecorderConfig :=
  if cluster.contains id then .ok ⟨id, cluster, RecorderLimits.default⟩ else .error (.unknownReplica id)

structure RecorderSnapshot (V : Type) where
  cluster : ClusterIdentity
  slots : OrderedMap SlotIndex (IntervalSummarySnapshot V)
  roundOneLeaders : OrderedMap SlotIndex (Option ReplicaId)
  decisions : OrderedMap SlotIndex (Decision V)
  prunedThrough : SlotIndex
  deriving DecidableEq

structure RecorderCore (V : Type) where
  config : RecorderConfig
  slots : OrderedMap SlotIndex (IntervalSummaryRegister V)
  roundOneLeaders : OrderedMap SlotIndex (Option ReplicaId)
  decisions : OrderedMap SlotIndex (Decision V)
  prunedThrough : SlotIndex
  deriving DecidableEq

/-- The recorder's availability guard at the moment of a call. It may fetch and
store payloads between calls, so each call is given its own answer. -/
abbrev Availability (V : Type) := List V → Result Unit

namespace RecorderCore

def new (config : RecorderConfig) : RecorderCore V := ⟨config, ∅, ∅, ∅, SlotIndex.genesis⟩

def snapshot (r : RecorderCore V) : RecorderSnapshot V :=
  { cluster := r.config.cluster
    slots := r.slots.mapValues IntervalSummaryRegister.snapshot
    roundOneLeaders := r.roundOneLeaders
    decisions := r.decisions
    prunedThrough := r.prunedThrough }

/-- The configured cluster is not part of what is restored. -/
def restoreSnapshotState (r : RecorderCore V) (s : RecorderSnapshot V) : RecorderCore V :=
  { r with
    slots := s.slots.mapValues IntervalSummaryRegister.restore
    roundOneLeaders := s.roundOneLeaders
    decisions := s.decisions
    prunedThrough := s.prunedThrough }

def status (r : RecorderCore V) (slot : SlotIndex) : Option Step := (r.slots.get slot).map (·.step)

def pruneThrough (r : RecorderCore V) (slot : SlotIndex) : RecorderCore V :=
  { r with
    slots := r.slots.retain (fun index _ => slot < index)
    roundOneLeaders := r.roundOneLeaders.retain (fun index _ => slot < index)
    decisions := r.decisions.retain (fun index _ => slot < index)
    prunedThrough := max r.prunedThrough slot }

def installStateTransferFloor (r : RecorderCore V) (slot : SlotIndex) : RecorderCore V :=
  r.pruneThrough slot

section
variable [DecidableEq V]

def validateDecision (r : RecorderCore V) (decision : Decision V) : Result Unit := do
  require (decision.valueIds ≠ []) .emptyDecision
  require (r.config.contains decision.proposer) (.invalidSender decision.proposer)
  require (decision.decidedStep ≤ r.config.limits.maxStep)
    (.invalidStep decision.decidedStep r.config.limits.maxStep)
  require (decision.valueIds.length ≤ r.config.limits.maxValuesPerProposal)
    (.resourceLimit "decision value IDs" r.config.limits.maxValuesPerProposal)
  require decision.valueIds.Nodup (.invalidProposal "decision contains duplicate value IDs")

def validateProposal (r : RecorderCore V) (proposal : Proposal V) : Result Unit := do
  require (r.config.contains proposal.key.proposerId) (.invalidSender proposal.key.proposerId)
  require (proposal.valueIds ≠ []) .emptyProposal
  require (proposal.valueIds.length ≤ r.config.limits.maxValuesPerProposal)
    (.resourceLimit "proposal value IDs" r.config.limits.maxValuesPerProposal)
  require proposal.valueIds.Nodup (.invalidProposal "proposal contains duplicate value IDs")

def validateStep (r : RecorderCore V) (step : Step) : Result Unit :=
  require (Step.roundOnePhaseZero ≤ step ∧ step ≤ r.config.limits.maxStep)
    (.invalidStep step r.config.limits.maxStep)

def validateIsrSnapshot (r : RecorderCore V) (state : IntervalSummarySnapshot V) : Result Unit := do
  r.validateStep state.step
  require (state.first.isSome ∧ state.currentAggregate.isSome) .missingProposal
  [state.first, state.currentAggregate, state.priorAggregate].reduceOption.forM r.validateProposal

def validateLeader (r : RecorderCore V) : Option ReplicaId → Result Unit
  | some leader => require (r.config.contains leader) (.unknownReplica leader)
  | none => .ok ()

def validateRequest (r : RecorderCore V) (request : RecordRequest V) : Result Unit := do
  require (r.config.contains request.sender) (.invalidSender request.sender)
  r.validateLeader request.roundOneLeader
  r.validateProposal request.proposal
  r.validateStep request.step
  require (request.knownDecisions.length ≤ r.config.limits.maxKnownDecisions)
    (.resourceLimit "known decisions in one request" r.config.limits.maxKnownDecisions)

def restore (config : RecorderConfig) (s : RecorderSnapshot V) : Result (RecorderCore V) := do
  require (s.cluster = config.cluster) .configurationMismatch
  require (s.slots.size ≤ config.limits.maxActiveSlots)
    (.resourceLimit "active recorder slots" config.limits.maxActiveSlots)
  require (s.decisions.size ≤ config.limits.maxDecisions)
    (.resourceLimit "retained decisions" config.limits.maxDecisions)
  let recorder : RecorderCore V := new config
  s.decisions.entries.forM fun (slot, decision) => do
    require (slot = decision.slot ∧ s.prunedThrough < slot)
      (.invalidProposal "recorder snapshot decision key does not match its slot or pruned floor")
    recorder.validateDecision decision
  require (∀ slot ∈ s.slots.keys, s.prunedThrough < slot)
    (.invalidProposal "recorder snapshot retains a slot at or below its pruned floor")
  require (s.roundOneLeaders.keys = s.slots.keys)
    (.invalidProposal "recorder snapshot leader bindings do not match its active slots")
  require (∀ leader ∈ s.roundOneLeaders.values.reduceOption, config.contains leader)
    (.invalidProposal "recorder snapshot binds a slot to an unknown leader")
  s.slots.values.forM recorder.validateIsrSnapshot
  pure (recorder.restoreSnapshotState s)

def informDecision (decision : Decision V) : EStateM QuePaxaError (RecorderCore V) Unit := fun r =>
  match r.validateDecision decision with
  | .error e => .error e r
  | .ok () =>
    -- at or below the floor the checkpoint already subsumes the decision
    if decision.slot ≤ r.prunedThrough then .ok () r
    else match r.decisions.get decision.slot with
      | some existing =>
        if existing.valueIds ≠ decision.valueIds then .error (.conflictingDecision decision.slot) r
        else .ok () r
      | none =>
        if r.decisions.size = r.config.limits.maxDecisions then
          .error (.resourceLimit "retained decisions" r.config.limits.maxDecisions) r
        else .ok () { r with decisions := r.decisions.insert decision.slot decision }

def informDecisions (decisions : List (Decision V)) : EStateM QuePaxaError (RecorderCore V) Unit :=
  decisions.forM informDecision

/-- Every later slot must be drained and the exact anchor retained. -/
def installMembership (change : MembershipChange V) : EStateM QuePaxaError (RecorderCore V) Unit := fun r =>
  match change.validateBinding with
  | .error e => .error e r
  | .ok () =>
    if r.config.cluster = change.next then .ok () r
    else if !change.next.isSuccessorOf r.config.cluster then
      .error (.invalidReconfiguration "membership transition does not follow the local configuration epoch") r
    else match r.decisions.get change.anchor.slot with
      | none => .error (.invalidReconfiguration "membership anchor decision is not retained by this recorder") r
      | some anchor =>
        if anchor ≠ change.anchor then .error (.conflictingDecision change.anchor.slot) r
        else if r.slots.keys.any (change.anchor.slot < ·) || r.decisions.keys.any (change.anchor.slot < ·) then
          .error (.invalidReconfiguration
            "membership changes require all later consensus slots to be drained") r
        else .ok () { r with config := { r.config with cluster := change.next } }

def admitRecord (available : Availability V) (r : RecorderCore V) (request : RecordRequest V) :
    Result Unit := do
  r.validateRequest request
  require (r.prunedThrough < request.slot) (.slotPruned request.slot)
  require ((r.roundOneLeaders.get request.slot).all (· = request.roundOneLeader))
    (.scheduleMismatch request.slot)
  available request.proposal.valueIds

def storeRecord (request : RecordRequest V) : EStateM QuePaxaError (RecorderCore V) (RecordReply V) := fun r =>
  if !r.slots.contains request.slot ∧ r.slots.size = r.config.limits.maxActiveSlots then
    .error (.resourceLimit "active recorder slots" r.config.limits.maxActiveSlots) r
  else
    let (summary, register) := ((r.slots.get request.slot).getD .default).record request.step request.proposal
    .ok { recorder := r.config.id
          cluster := r.config.cluster
          summary
          decision := r.decisions.get request.slot }
      { r with
        roundOneLeaders := r.roundOneLeaders.orInsert request.slot request.roundOneLeader
        slots := r.slots.insert request.slot register }

def record (available : Availability V) (request : RecordRequest V) :
    EStateM QuePaxaError (RecorderCore V) (RecordReply V) := do
  check ((← get).admitRecord available request)
  informDecisions request.knownDecisions
  storeRecord request

def recordFrom (available : Availability V) (authenticatedSender : ReplicaId) (request : RecordRequest V) :
    EStateM QuePaxaError (RecorderCore V) (RecordReply V) :=
  if authenticatedSender ≠ request.sender then throw (.invalidSender request.sender)
  else record available request

end
end RecorderCore

/-- One call on a recorder, together with what its environment answers. -/
inductive RecorderOp (V : Type) where
  | record (available : Availability V) (request : RecordRequest V)
  | recordFrom (available : Availability V) (authenticatedSender : ReplicaId) (request : RecordRequest V)
  | informDecision (decision : Decision V)
  | informDecisions (decisions : List (Decision V))
  | pruneThrough (slot : SlotIndex)
  | installStateTransferFloor (slot : SlotIndex)
  | installMembership (change : MembershipChange V)

namespace RecorderOp
variable [DecidableEq V]

def exec : RecorderOp V → EStateM QuePaxaError (RecorderCore V) (Option (RecordReply V))
  | record available request => some <$> RecorderCore.record available request
  | recordFrom available sender request => some <$> RecorderCore.recordFrom available sender request
  | informDecision decision => do RecorderCore.informDecision decision; pure none
  | informDecisions decisions => do RecorderCore.informDecisions decisions; pure none
  | pruneThrough slot => do modify (·.pruneThrough slot); pure none
  | installStateTransferFloor slot => do modify (·.installStateTransferFloor slot); pure none
  | installMembership change => do RecorderCore.installMembership change; pure none

def apply (r : RecorderCore V) (op : RecorderOp V) : RecorderCore V := after op.exec r

end RecorderOp
end QuePaxa
