import QuePaxa.Core.Proposer
import QuePaxa.Library.Journal
import QuePaxa.Runtime.Schedule

/-! The synchronous runtime of one replica: its pipeline, durable snapshots, hedged
proposals, dissemination, execution and client notification. Everything outside the
runtime is an environment that answers each request as it likes; the requests and
their answers are recorded in a trace. -/
namespace QuePaxa
open Library
variable {V α : Type}

structure PendingProposalSnapshot (V : Type) where
  valueIds : List V
  deriving DecidableEq, Repr

structure RuntimeSnapshot (V : Type) where
  cluster : ClusterIdentity
  protocol : ProtocolIdentity
  replica : ReplicaSnapshot V
  decisions : OrderedMap SlotIndex (Decision V)
  schedules : OrderedMap Nat EpochSchedule
  pending : OrderedMap SlotIndex (PendingProposalSnapshot V)
  executed : Finset SlotIndex
  notified : Finset SlotIndex
  announcedTo : OrderedMap SlotIndex (Finset ReplicaId)
  epochStats : OrderedMap Nat EpochStat
  statsThrough : SlotIndex
  deriving DecidableEq

structure StateTransferSnapshot (V : Type) where
  through : SlotIndex
  checkpointedValueIds : Finset V
  applicationCheckpoint : List UInt8
  runtime : RuntimeSnapshot V
  deriving DecidableEq

structure PendingProposal (V : Type) where
  valueIds : List V
  readyAt : Option Instant
  lastObservedStep : Option Step
  deriving DecidableEq, Repr

def PendingProposal.armed (valueIds : List V) : PendingProposal V := ⟨valueIds, none, none⟩

inductive Event (V : Type) where
  | started
  | saved (snapshot : RuntimeSnapshot V) (result : Result Unit)
  | executed (decision : Decision V) (result : Result Unit)
  | notified (decision : Decision V) (result : Result Unit)
  | informed (recorder : ReplicaId) (decision : Decision V) (result : Result Unit)
  | probed (recorder : ReplicaId) (slot : SlotIndex) (step : Option Step)
  | proposed (call : ProposeCall V) (result : Result (Decision V))
  | installed (recorder : ReplicaId) (change : MembershipChange V) (result : Result Unit)
  | exported (through : SlotIndex) (result : Result (List UInt8))
  | imported (through : SlotIndex) (result : Result Unit)
  deriving DecidableEq

/-- How the store, the state machine, the notifier, the recorders and the proposer answer,
given everything requested so far. A busy or failing status probe tells nothing. -/
structure Environment (V : Type) where
  save : List (Event V) → RuntimeSnapshot V → Result Unit
  execute : List (Event V) → Decision V → Result Unit
  committed : List (Event V) → Decision V → Result Unit
  inform : List (Event V) → ReplicaId → Decision V → Result Unit
  status : List (Event V) → ReplicaId → SlotIndex → Option Step
  propose : List (Event V) → ProposeCall V → Result (Decision V)
  elapsed : List (Event V) → Duration
  installMembership : List (Event V) → ReplicaId → MembershipChange V → Result Unit
  exportCheckpoint : List (Event V) → SlotIndex → Result (List UInt8)
  importCheckpoint : List (Event V) → SlotIndex → List UInt8 → Result Unit

def Event.stored : Event V → Option (RuntimeSnapshot V)
  | .saved snapshot (.ok ()) => some snapshot
  | _ => none

def lastSaved : List (Event V) → Option (RuntimeSnapshot V) := latest Event.stored

inductive RuntimePoll (V : Type) where
  | idle
  | waiting (slot : SlotIndex) (until_ : Instant)
  | committed (decisions : List (Decision V))
  deriving DecidableEq, Repr

structure ReplicaRuntime (V : Type) where
  config : ReplicaRuntimeConfig
  replica : ReplicaCore V
  proposer : ProposerCore
  recorders : List ReplicaId
  decisions : OrderedMap SlotIndex (Decision V)
  tuner : EpochTuner
  pending : OrderedMap SlotIndex (PendingProposal V)
  executed : Finset SlotIndex
  notified : Finset SlotIndex
  announcedTo : OrderedMap SlotIndex (Finset ReplicaId)
  noopValue : Option V
  hedgeDelay : HedgeDelayTuner
  trace : List (Event V)
  deriving DecidableEq

def validateRecorders (config : ReplicaRuntimeConfig) (recorders : List ReplicaId) : Result Unit :=
  match duplicateOf recorders with
  | some duplicate => .error (.duplicateReplica duplicate)
  | none => require (recorders.toFinset = config.members.toFinset)
    (.policyError "runtime recorder handles must match the configured membership exactly")

def validateRecordersForCluster (cluster : ClusterIdentity) (recorders : List ReplicaId) : Result Unit := do
  require recorders.Nodup (.invalidReconfiguration "replacement recorder handles contain duplicate identities")
  require (recorders.toFinset = cluster.members.toFinset) .configurationMismatch

namespace ReplicaRuntime

def runtimeSnapshot (r : ReplicaRuntime V) : RuntimeSnapshot V where
  cluster := r.config.cluster
  protocol := r.config.protocolIdentity
  replica := r.replica.snapshot
  decisions := r.decisions
  schedules := r.tuner.schedules
  pending := r.pending.mapValues fun p => ⟨p.valueIds⟩
  executed := r.executed
  notified := r.notified
  announcedTo := r.announcedTo
  epochStats := r.tuner.stats
  statsThrough := r.tuner.statsThrough

def validateSchedule (r : ReplicaRuntime V) (schedule : EpochSchedule) : Result Unit := do
  require schedule.proposers.Nodup (.policyError "an epoch schedule contains duplicate proposers")
  require (schedule.proposers.toFinset = r.config.members.toFinset)
    (.policyError "an epoch schedule must contain every configured replica exactly once")

def log (r : ReplicaRuntime V) (event : Event V) : ReplicaRuntime V := { r with trace := r.trace ++ [event] }

def request (event : Event V) (result : Result α) : EStateM QuePaxaError (ReplicaRuntime V) α := do
  modify (·.log event)
  check result

def onReplica (x : EStateM QuePaxaError (ReplicaCore V) α) : EStateM QuePaxaError (ReplicaRuntime V) α :=
  zoom (·.replica) (fun r replica => { r with replica }) x

def onTuner (x : EStateM QuePaxaError EpochTuner α) : EStateM QuePaxaError (ReplicaRuntime V) α :=
  zoom (·.tuner) (fun r tuner => { r with tuner }) x

def ensureScheduleFor (slot : SlotIndex) : EStateM QuePaxaError (ReplicaRuntime V) EpochSchedule := do
  let r ← get
  onTuner (EpochTuner.ensureSchedule (r.config.epochFor slot))

def deadlineFor (r : ReplicaRuntime V) (schedule : EpochSchedule) (now : Instant) : Result Instant := do
  match schedule.proposers.idxOf? r.config.replicaId with
  | none => throw (.panicked "validated schedules include the local replica")
  | some position =>
    require (position < 2 ^ 32) (.policyError "hedging schedule is too large for a duration")
    require (r.hedgeDelay.current * position ≤ Duration.max) (.policyError "hedging delay overflowed")
    require (now + r.hedgeDelay.current * position ≤ Instant.max) (.policyError "hedging deadline overflowed")
    pure (now + r.hedgeDelay.current * position)

def setReadyAt (r : ReplicaRuntime V) (slot : SlotIndex) (deadline : Instant) : ReplicaRuntime V :=
  match r.pending.get slot with
  | some p => { r with pending := r.pending.insert slot { p with readyAt := some deadline } }
  | none => r

/-- Deadlines are computed for all unarmed proposals before any is set. -/
def assignDeadlines (now : Instant) : EStateM QuePaxaError (ReplicaRuntime V) Unit := do
  let r ← get
  let unarmed := (r.pending.retain fun _ p => p.readyAt.isNone).keys
  let deadlines ← gather (fun slot => do
    let schedule ← ensureScheduleFor slot
    let r ← get
    let deadline ← check (r.deadlineFor schedule now)
    pure [(slot, deadline)]) unarmed
  deadlines.forM fun e => modify (·.setReadyAt e.1 e.2)

/-- The earliest deadline; of equal ones the one of the lowest slot. -/
def nextDeadline (r : ReplicaRuntime V) : Option (SlotIndex × Instant) :=
  r.pending.entries.foldl (fun best e =>
    match e.2.readyAt, best with
    | none, _ => best
    | some deadline, none => some (e.1, deadline)
    | some deadline, some (slot, earliest) =>
      if deadline < earliest then some (e.1, deadline) else some (slot, earliest)) none

section
variable [DecidableEq V] (env : Environment V)

def validateDecision (r : ReplicaRuntime V) (decision : Decision V) : Result Unit := do
  require (decision.valueIds ≠ []) .emptyDecision
  require (r.config.cluster.contains decision.proposer) (.invalidSender decision.proposer)
  require decision.valueIds.Nodup (.invalidProposal "decision contains duplicate value IDs")

def validateRestoredState (r : ReplicaRuntime V) : Result Unit := do
  r.tuner.schedules.values.forM r.validateSchedule
  r.decisions.values.forM r.validateDecision
  r.pending.keys.forM fun slot => do
    require (r.decisions.contains slot = false)
      (.invalidProposal "runtime snapshot has both a decision and a pending proposal for one slot")
    require (r.replica.committedThrough < slot)
      (.invalidProposal "runtime snapshot has a pending proposal in the committed prefix")
  require (r.executed ⊆ r.decisions.keys.toFinset ∧ r.notified ⊆ r.decisions.keys.toFinset ∧
    r.notified ⊆ r.executed)
    (.invalidProposal "runtime snapshot has execution or notification metadata without a decision")
  r.announcedTo.entries.forM fun e =>
    require (e.1 ∈ r.decisions.keys ∧ e.2 ⊆ r.config.members.toFinset)
      (.invalidProposal "runtime snapshot has invalid decision dissemination metadata")

def rebuild (config : ReplicaRuntimeConfig) (proposer : ProposerCore) (recorders : List ReplicaId)
    (trace : List (Event V)) : Option (RuntimeSnapshot V) → Result (ReplicaRuntime V)
  | some snapshot => do
    require (snapshot.cluster = config.cluster ∧ snapshot.protocol = config.protocolIdentity)
      .configurationMismatch
    let replica ← ReplicaCore.restore config.replica snapshot.replica
    let tuner ← EpochTuner.restore config.epochSize config.members config.autoSchedules snapshot.schedules
      snapshot.epochStats snapshot.statsThrough
    pure { config, replica, proposer, recorders, tuner, trace
           decisions := snapshot.decisions
           pending := snapshot.pending.mapValues fun p => .armed p.valueIds
           executed := snapshot.executed
           notified := snapshot.notified
           announcedTo := snapshot.announcedTo
           noopValue := none
           hedgeDelay := HedgeDelayTuner.new config.baseHedgeDelay config.adaptiveHedging }
  | none =>
    pure { config, proposer, recorders, trace
           replica := ReplicaCore.new config.replica
           tuner := EpochTuner.new config.epochSize config.members config.autoSchedules
           decisions := ∅
           pending := ∅
           executed := ∅
           notified := ∅
           announcedTo := ∅
           noopValue := none
           hedgeDelay := HedgeDelayTuner.new config.baseHedgeDelay config.adaptiveHedging }

def new (config : ReplicaRuntimeConfig) (proposer : ProposerCore) (recorders : List ReplicaId)
    (stored : Option (RuntimeSnapshot V)) (trace : List (Event V)) : Result (ReplicaRuntime V) := do
  validateRecorders config recorders
  require (proposer.replicaId = config.replicaId ∧ proposer.laneId = config.laneId)
    (.invalidProposal "runtime proposer identity does not match the runtime configuration")
  let runtime ← rebuild config (proposer.withCluster config.cluster) recorders trace stored
  runtime.validateRestoredState
  pure runtime

def withNoopValue (r : ReplicaRuntime V) (value : V) : ReplicaRuntime V := { r with noopValue := some value }

def persist : EStateM QuePaxaError (ReplicaRuntime V) Unit := do
  let r ← get
  let result := env.save r.trace r.runtimeSnapshot
  request (.saved r.runtimeSnapshot result) result

def submit (valueIds : List V) : EStateM QuePaxaError (ReplicaRuntime V) Unit := do
  onReplica (ReplicaCore.enqueue valueIds)
  persist env

def installEpochSchedule (schedule : EpochSchedule) : EStateM QuePaxaError (ReplicaRuntime V) Unit := do
  let r ← get
  check (r.validateSchedule schedule)
  let changed ← onTuner (EpochTuner.install schedule)
  onlyIf (changed = true) (persist env)

def announce (decision : SlotIndex × Decision V) (recorder : ReplicaId) :
    EStateM QuePaxaError (ReplicaRuntime V) Bool := fun r =>
  if recorder ∈ (r.announcedTo.get decision.1).getD ∅ then .ok false r
  else
    let result := env.inform r.trace recorder decision.2
    let r := r.log (.informed recorder decision.2 result)
    match result with
    | .error _ => .ok false r
    | .ok () =>
      let recipients := insert recorder ((r.announcedTo.get decision.1).getD ∅)
      .ok true { r with announcedTo := r.announcedTo.insert decision.1 recipients }

def flushDecisionNotifications : EStateM QuePaxaError (ReplicaRuntime V) Unit := do
  let r ← get
  let changed ← orEach (fun decision => orEach (announce env decision) r.recorders) r.decisions.entries
  onlyIf (changed = true) (persist env)

def ensureFullyAnnounced (r : ReplicaRuntime V) (through : SlotIndex) : Result Unit :=
  let members := r.config.members.toFinset
  let covered := (r.decisions.upTo through).keys
  require (∀ slot ∈ covered, r.announcedTo.get slot = some members)
    (.quorumNotReached members.card
      ((covered.filterMap fun slot => (r.announcedTo.get slot).map Finset.card).min?.getD 0))

def executeOnce (decision : Decision V) : EStateM QuePaxaError (ReplicaRuntime V) Unit := do
  let r ← get
  onlyIf (decision.slot ∉ r.executed) do
    let result := env.execute r.trace decision
    request (.executed decision result) result
    modify fun r => { r with executed := insert decision.slot r.executed }
    persist env

def notifyOnce (decision : Decision V) : EStateM QuePaxaError (ReplicaRuntime V) (List (Decision V)) := do
  let r ← get
  if decision.slot ∈ r.notified then pure []
  else do
    let result := env.committed r.trace decision
    request (.notified decision result) result
    modify fun r => { r with notified := insert decision.slot r.notified }
    persist env
    pure [decision]

def deliver (decision : Decision V) : EStateM QuePaxaError (ReplicaRuntime V) (List (Decision V)) := do
  executeOnce env decision
  notifyOnce env decision

def dispatchCommitted : EStateM QuePaxaError (ReplicaRuntime V) (List (Decision V)) := do
  let r ← get
  let decisions := (r.decisions.upTo r.replica.committedThrough).values
  let statsChanged ← orEach (fun d : Decision V => onTuner (EpochTuner.noteCommitted d.slot d.decidedStep)) decisions
  onlyIf (statsChanged = true) (persist env)
  gather (deliver env) decisions

def retainDecision (r : ReplicaRuntime V) (decision : Decision V) : ReplicaRuntime V :=
  { r with
    pending := r.pending.erase decision.slot
    announcedTo := r.announcedTo.orInsert decision.slot ∅
    decisions := r.decisions.insert decision.slot decision }

def storeDecision (decision : Decision V) : EStateM QuePaxaError (ReplicaRuntime V) Unit := do
  let r ← get
  match r.decisions.get decision.slot with
  | some existing => check (require (existing.valueIds = decision.valueIds) (.conflictingDecision decision.slot))
  | none => do
    let _ ← onReplica (ReplicaCore.applyDecision decision)
    modify (·.retainDecision decision)
    persist env

def acceptDecision (decision : Decision V) : EStateM QuePaxaError (ReplicaRuntime V) (List (Decision V)) := do
  let r ← get
  check (r.validateDecision decision)
  if decision.slot ≤ r.replica.checkpointedThrough then pure []
  else do
    storeDecision env decision
    let delivered ← dispatchCommitted env
    flushDecisionNotifications env
    pure delivered

def receiveDecision (decision : Decision V) : EStateM QuePaxaError (ReplicaRuntime V) (List (Decision V)) :=
  acceptDecision env decision

def recover : EStateM QuePaxaError (ReplicaRuntime V) (List (Decision V)) := do
  let delivered ← dispatchCommitted env
  flushDecisionNotifications env
  pure delivered

def gapIsBlocking (r : ReplicaRuntime V) (gap : SlotIndex) : Bool :=
  r.decisions.keys.any (gap < ·) && !r.decisions.contains gap &&
    (r.replica.log.get gap).all fun entry => !entry.taken

def armGapNoop : EStateM QuePaxaError (ReplicaRuntime V) Bool := do
  let r ← get
  match r.noopValue with
  | none => pure false
  | some noop =>
    if r.pending.keys ≠ [] then pure false
    else match r.replica.committedThrough.checkedNext with
      | none => throw .slotOverflow
      | some gap =>
        if r.gapIsBlocking gap then do
          onReplica (ReplicaCore.noteProposed gap [noop])
          modify fun r => { r with pending := r.pending.insert gap (.armed [noop]) }
          pure true
        else pure false

def armNext (changed : Bool) : EStateM QuePaxaError (ReplicaRuntime V) (Bool ⊕ Bool) := do
  match ← onReplica ReplicaCore.nextProposal with
  | none => pure (.inr changed)
  | some (slot, valueIds) => do
    modify fun r => { r with pending := r.pending.insert slot (.armed valueIds) }
    pure (.inl true)

def armProposals : EStateM QuePaxaError (ReplicaRuntime V) Bool := do
  let r ← get
  let changed ← loop armNext id (r.replica.pending.length + 1) false
  let noop ← armGapNoop
  pure (changed || noop)

def armAvailable (now : Instant) : EStateM QuePaxaError (ReplicaRuntime V) Nat := do
  let changed ← armProposals
  onlyIf (changed = true) (persist env)
  assignDeadlines now
  let r ← get
  pure r.pending.size

def probeSlotStep (slot : SlotIndex) : EStateM QuePaxaError (ReplicaRuntime V) (Option Step) := do
  let r ← get
  let steps ← gather (fun recorder => do
    let r ← get
    let step := env.status r.trace recorder slot
    request (.probed recorder slot step) (.ok step.toList)) r.recorders
  pure steps.max?

def progressed : Option Step → Option Step → Bool
  | some step, none => Step.roundOnePhaseZero ≤ step
  | some step, some previous => previous < step
  | none, _ => false

def deferForProgress (slot : SlotIndex) (schedule : EpochSchedule) (now : Instant) :
    EStateM QuePaxaError (ReplicaRuntime V) Bool := do
  let r ← get
  let delay := r.hedgeDelay.current
  if delay = 0 ∨ schedule.proposers.head? = some r.config.replicaId then pure false
  else do
    let observed ← probeSlotStep env slot
    let r ← get
    match r.pending.get slot with
    | none => pure false
    | some p =>
      if progressed observed p.lastObservedStep ∧ now + delay ≤ Instant.max then do
        set { r with
          pending := r.pending.insert slot { p with lastObservedStep := observed, readyAt := some (now + delay) } }
        pure true
      else pure false

def runProposal (slot : SlotIndex) (schedule : EpochSchedule) :
    EStateM QuePaxaError (ReplicaRuntime V) (List (Decision V)) := do
  let r ← get
  match r.pending.get slot with
  | none => throw (.panicked "a pending deadline belongs to a pending proposal")
  | some p => do
    let leader ← check schedule.leader
    let call : ProposeCall V := ⟨slot, p.valueIds, some leader, r.recorders, []⟩
    let result := env.propose r.trace call
    let decision ← request (.proposed call result) result
    modify fun r => { r with hedgeDelay := r.hedgeDelay.observe (env.elapsed r.trace) }
    acceptDecision env decision

def pollStep (now : Instant) (_ : Unit) : EStateM QuePaxaError (ReplicaRuntime V) (Unit ⊕ RuntimePoll V) := do
  let r ← get
  match r.nextDeadline with
  | none => pure (.inr .idle)
  | some (slot, deadline) =>
    if now < deadline then pure (.inr (.waiting slot deadline))
    else do
      let schedule ← ensureScheduleFor slot
      let deferred ← deferForProgress env slot schedule now
      if deferred then pure (.inl ())
      else do
        let committed ← runProposal env slot schedule
        pure (.inr (.committed committed))

def poll (now : Instant) : EStateM QuePaxaError (ReplicaRuntime V) (RuntimePoll V) := do
  flushDecisionNotifications env
  let armed ← armAvailable env now
  loop (pollStep env now) (fun _ => .idle) (armed + 1) ()

def pruned (r : ReplicaRuntime V) (slot : SlotIndex) : ReplicaRuntime V :=
  { r with
    replica := r.replica.pruneThrough slot
    decisions := r.decisions.retain fun index _ => slot < index
    executed := r.executed.filter (slot < ·)
    notified := r.notified.filter (slot < ·)
    announcedTo := r.announcedTo.retain fun index _ => slot < index }

def checkpointThrough (slot : SlotIndex) : EStateM QuePaxaError (ReplicaRuntime V) Unit := do
  flushDecisionNotifications env
  let r ← get
  check (require (slot ≤ r.replica.committedThrough)
    (.invalidProposal "cannot checkpoint beyond the contiguous committed prefix"))
  check (require ((r.pending.upTo slot).keys = [])
    (.invalidProposal "cannot checkpoint a slot with a pending local proposal"))
  check (r.ensureFullyAnnounced slot)
  modify (·.pruned slot)
  persist env

def createStateTransfer (slot : SlotIndex) : EStateM QuePaxaError (ReplicaRuntime V) (StateTransferSnapshot V) := do
  flushDecisionNotifications env
  let r ← get
  check (r.ensureFullyAnnounced slot)
  let checkpointedValueIds := ((r.decisions.upTo slot).values.flatMap (·.valueIds)).toFinset
  let result := env.exportCheckpoint r.trace slot
  let applicationCheckpoint ← request (.exported slot result) result
  checkpointThrough env slot
  let r ← get
  pure { through := slot, checkpointedValueIds, applicationCheckpoint, runtime := r.runtimeSnapshot }

def validateRuntimeComponents (config : ReplicaRuntimeConfig) (replica : ReplicaCore V) (tuner : EpochTuner)
    (snapshot : RuntimeSnapshot V) : Result Unit := do
  let members := config.members.toFinset
  tuner.schedules.values.forM fun schedule =>
    require (schedule.proposers.Nodup ∧ schedule.proposers.toFinset = members)
      (.policyError "an epoch schedule must contain every configured replica exactly once")
  snapshot.decisions.entries.forM fun e => do
    require (e.2.valueIds ≠ [] ∧ config.cluster.contains e.2.proposer)
      (.invalidProposal "runtime snapshot contains an invalid decision")
    require e.2.valueIds.Nodup (.invalidProposal "decision contains duplicate value IDs")
    require (e.1 = e.2.slot ∧
      ((replica.log.get e.1).bind (·.decision)).any (fun stored => stored.valueIds = e.2.valueIds) = true)
      (.invalidProposal "runtime decision does not match the replica log")
  snapshot.pending.keys.forM fun slot =>
    require (snapshot.decisions.contains slot = false ∧ replica.committedThrough < slot ∧
      (replica.log.get slot).any (fun entry => entry.decision.isNone && !entry.proposed.isEmpty) = true)
      (.invalidProposal "runtime snapshot has an invalid pending proposal")
  require (snapshot.executed ⊆ snapshot.decisions.keys.toFinset ∧
    snapshot.notified ⊆ snapshot.decisions.keys.toFinset ∧ snapshot.notified ⊆ snapshot.executed)
    (.invalidProposal "runtime snapshot has execution or notification metadata without a decision")
  snapshot.announcedTo.entries.forM fun e =>
    require (e.1 ∈ snapshot.decisions.keys ∧ e.2 ⊆ members)
      (.invalidProposal "runtime snapshot has invalid decision dissemination metadata")

def installStateTransfer (transfer : StateTransferSnapshot V) : EStateM QuePaxaError (ReplicaRuntime V) Unit := do
  let r ← get
  let snapshot := transfer.runtime
  check (require (transfer.through = snapshot.replica.checkpointedThrough)
    (.invalidProposal "state-transfer checkpoint does not match the runtime pruning floor"))
  check (require (snapshot.cluster = r.config.cluster ∧ snapshot.protocol = r.config.protocolIdentity)
    .configurationMismatch)
  let replica ← check (ReplicaCore.restore r.config.replica snapshot.replica)
  let tuner ← check (EpochTuner.restore r.config.epochSize r.config.members r.config.autoSchedules
    snapshot.schedules snapshot.epochStats snapshot.statsThrough)
  check (validateRuntimeComponents r.config replica tuner snapshot)
  let imported := env.importCheckpoint r.trace transfer.through transfer.applicationCheckpoint
  request (.imported transfer.through imported) imported
  let r ← get
  let result := env.save r.trace snapshot
  request (.saved snapshot result) result
  modify fun r => { r with
    replica
    tuner
    decisions := snapshot.decisions
    pending := snapshot.pending.mapValues fun p => .armed p.valueIds
    executed := snapshot.executed
    notified := snapshot.notified
    announcedTo := snapshot.announcedTo }

def reconfigured (r : ReplicaRuntime V) (change : MembershipChange V) (nextRecorders : List ReplicaId) :
    ReplicaRuntime V :=
  { r with
    announcedTo := r.announcedTo.mapValues (· ∩ change.next.members.toFinset)
    config := r.config.installCluster change.next
    proposer := r.proposer.withCluster change.next
    recorders := nextRecorders
    tuner := r.tuner.reconfigure change.next.members change.anchor.slot }

def ensureDrained (r : ReplicaRuntime V) (change : MembershipChange V) : Result Unit :=
  require (r.replica.committedThrough = change.anchor.slot ∧
    r.decisions.get change.anchor.slot = some change.anchor ∧ r.pending.keys = [] ∧
    ∀ slot ∈ r.replica.log.keys, slot ≤ change.anchor.slot)
    (.invalidReconfiguration "membership changes require an exact committed anchor and a drained pipeline")

def installOn (change : MembershipChange V) (recorder : ReplicaId) :
    EStateM QuePaxaError (ReplicaRuntime V) Unit := do
  let r ← get
  let result := env.installMembership r.trace recorder change
  request (.installed recorder change result) result

def activate (change : MembershipChange V) (nextRecorders : List ReplicaId) :
    EStateM QuePaxaError (ReplicaRuntime V) Unit := do
  let before ← get
  set (before.reconfigured change nextRecorders)
  tryCatch (persist env) fun e => do
    -- the failed save stays in the trace
    modify fun r => { before with trace := r.trace }
    throw e

def installMembership (change : MembershipChange V) (nextRecorders : List ReplicaId) :
    EStateM QuePaxaError (ReplicaRuntime V) Unit := do
  check change.validateBinding
  let r ← get
  if change.next = r.config.cluster then do
    check (validateRecordersForCluster change.next nextRecorders)
    set { r with recorders := nextRecorders }
  else do
    check (require (change.next.isSuccessorOf r.config.cluster)
      (.invalidReconfiguration "membership transition does not follow the runtime configuration epoch"))
    check (r.ensureDrained change)
    flushDecisionNotifications env
    let r ← get
    check (r.ensureFullyAnnounced change.anchor.slot)
    check (validateRecordersForCluster change.next nextRecorders)
    nextRecorders.forM (installOn env change)
    activate env change nextRecorders

end
end ReplicaRuntime
end QuePaxa
