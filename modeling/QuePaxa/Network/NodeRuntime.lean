import QuePaxa.Runtime.Runtime

/-! The asynchronous runtime of a network node. Its state is behind one lock that is held
across saves and executions, so each locked section is one computation here; what happens
between sections is left to the tasks that run them. Several sections put the state they
started from back when a save fails. -/
namespace QuePaxa
open Library
variable {V α : Type}

def validateAsyncRecorders (cluster : ClusterIdentity) (recorders : List ReplicaId) : Result Unit := do
  require recorders.Nodup (.invalidReconfiguration "replacement async recorder clients contain duplicate identities")
  require (recorders.toFinset = cluster.members.toFinset) .configurationMismatch

structure ConsensusState (V : Type) where
  replica : ReplicaCore V
  decisions : OrderedMap SlotIndex (Decision V)
  pending : OrderedMap SlotIndex (List V)
  executed : Finset SlotIndex
  tuner : EpochTuner
  armedAt : OrderedMap SlotIndex Instant
  observedSteps : OrderedMap SlotIndex Step
  hedgeDelay : HedgeDelayTuner
  deriving DecidableEq

inductive NetworkEvent (V : Type) where
  | started
  | saved (snapshot : RuntimeSnapshot V) (result : Result Unit)
  | executed (decision : Decision V) (result : Result Unit)
  | proposed (call : ProposeCall V)
  | answered (call : ProposeCall V) (result : Result (Decision V))
  | probed (recorder : ReplicaId) (slot : SlotIndex) (step : Option Step)
  | informed (recorder : ReplicaId) (decisions : List (Decision V)) (result : Result Unit)
  | installed (recorder : ReplicaId) (change : MembershipChange V) (result : Result Unit)
  | exported (through : SlotIndex) (result : Result (List UInt8))
  | imported (through : SlotIndex) (checkpoint : List UInt8) (result : Result Unit)
  | transferred (transfer : StateTransferSnapshot V)
  deriving DecidableEq

/-- How the store, the state machine, the recorders and the proposer answer, given
everything requested so far. -/
structure NetworkEnvironment (V : Type) where
  save : List (NetworkEvent V) → RuntimeSnapshot V → Result Unit
  execute : List (NetworkEvent V) → Decision V → Result Unit
  propose : List (NetworkEvent V) → ProposeCall V → Result (Decision V)
  elapsed : List (NetworkEvent V) → Duration
  status : List (NetworkEvent V) → ReplicaId → SlotIndex → Option Step
  informDecisions : List (NetworkEvent V) → ReplicaId → List (Decision V) → Result Unit
  installMembership : List (NetworkEvent V) → ReplicaId → MembershipChange V → Result Unit
  exportCheckpoint : List (NetworkEvent V) → SlotIndex → Result (List UInt8)
  importCheckpoint : List (NetworkEvent V) → SlotIndex → List UInt8 → Result Unit

structure NetworkConsensusHandler (V : Type) where
  config : ReplicaRuntimeConfig
  recorders : List ReplicaId
  noopValue : Option V
  state : ConsensusState V
  trace : List (NetworkEvent V)
  deriving DecidableEq

namespace ConsensusState

def fresh (config : ReplicaRuntimeConfig) : ConsensusState V where
  replica := ReplicaCore.new config.replica
  decisions := ∅
  pending := ∅
  executed := ∅
  tuner := EpochTuner.new config.epochSize config.members config.autoSchedules
  armedAt := ∅
  observedSteps := ∅
  hedgeDelay := HedgeDelayTuner.new config.baseHedgeDelay config.adaptiveHedging

def gapIsBlocking (s : ConsensusState V) (gap : SlotIndex) : Bool :=
  s.decisions.keys.any (gap < ·) && !s.decisions.contains gap && (s.replica.log.get gap).all fun entry => !entry.taken

def retainDecision (s : ConsensusState V) (decision : Decision V) : ConsensusState V :=
  { s with
    pending := s.pending.erase decision.slot
    armedAt := s.armedAt.erase decision.slot
    observedSteps := s.observedSteps.erase decision.slot
    decisions := s.decisions.insert decision.slot decision }

def pruned (s : ConsensusState V) (slot : SlotIndex) : ConsensusState V :=
  { s with
    replica := s.replica.pruneThrough slot
    decisions := s.decisions.retain fun index _ => slot < index
    executed := s.executed.filter (slot < ·)
    pending := s.pending.retain fun index _ => slot < index
    armedAt := s.armedAt.retain fun index _ => slot < index
    observedSteps := s.observedSteps.retain fun index _ => slot < index }

section
variable [DecidableEq V]

def restore (config : ReplicaRuntimeConfig) (snapshot : RuntimeSnapshot V) : Result (ConsensusState V) := do
  let replica ← ReplicaCore.restore config.replica snapshot.replica
  let tuner ← EpochTuner.restore config.epochSize config.members config.autoSchedules snapshot.schedules
    snapshot.epochStats snapshot.statsThrough
  pure { (fresh config : ConsensusState V) with
    replica
    tuner
    decisions := snapshot.decisions
    pending := snapshot.pending.mapValues (·.valueIds)
    executed := snapshot.executed }

def validateState (config : ReplicaRuntimeConfig) (s : ConsensusState V) : Result Unit := do
  require (s.executed ⊆ s.decisions.keys.toFinset)
    (.invalidProposal "network runtime snapshot executes a slot without a decision")
  s.decisions.entries.forM fun e => do
    require (e.1 = e.2.slot ∧ config.cluster.contains e.2.proposer)
      (.invalidProposal "network runtime snapshot contains an invalid decision")
    require (((s.replica.log.get e.1).bind (·.decision)).any (fun stored => stored.valueIds = e.2.valueIds) = true)
      (.invalidProposal "network runtime decision does not match the replica log")
  s.pending.entries.forM fun e =>
    require ((s.replica.log.get e.1).any (fun entry => entry.decision.isNone && entry.proposed = e.2) = true)
      (.invalidProposal "network runtime pending proposal does not match the replica log")

def decisionFor (s : ConsensusState V) (valueIds : List V) : Option (Decision V) :=
  s.decisions.values.find? fun decision => valueIds.all (· ∈ decision.valueIds)

end
end ConsensusState

namespace NetworkConsensusHandler

def snapshot (h : NetworkConsensusHandler V) : RuntimeSnapshot V where
  cluster := h.config.cluster
  protocol := h.config.protocolIdentity
  replica := h.state.replica.snapshot
  decisions := h.state.decisions
  schedules := h.state.tuner.schedules
  pending := h.state.pending.mapValues fun values => ⟨values⟩
  executed := h.state.executed
  notified := h.state.executed
  announcedTo := ∅
  epochStats := h.state.tuner.stats
  statsThrough := h.state.tuner.statsThrough

def log (h : NetworkConsensusHandler V) (event : NetworkEvent V) : NetworkConsensusHandler V :=
  { h with trace := h.trace ++ [event] }

def request (event : NetworkEvent V) (result : Result α) : EStateM QuePaxaError (NetworkConsensusHandler V) α := do
  modify (·.log event)
  check result

def onState (f : ConsensusState V → ConsensusState V) : EStateM QuePaxaError (NetworkConsensusHandler V) Unit :=
  modify fun h => { h with state := f h.state }

def onReplica (x : EStateM QuePaxaError (ReplicaCore V) α) : EStateM QuePaxaError (NetworkConsensusHandler V) α :=
  zoom (·.state.replica) (fun h replica => { h with state := { h.state with replica } }) x

def onTuner (x : EStateM QuePaxaError EpochTuner α) : EStateM QuePaxaError (NetworkConsensusHandler V) α :=
  zoom (·.state.tuner) (fun h tuner => { h with state := { h.state with tuner } }) x

/-- Put the given state back when the computation fails; its requests stay in the trace. -/
def orRollback (before : ConsensusState V) (x : EStateM QuePaxaError (NetworkConsensusHandler V) α) :
    EStateM QuePaxaError (NetworkConsensusHandler V) α := fun h =>
  match x h with
  | .ok a h' => .ok a h'
  | .error e h' => .error e { h' with state := before }

section
variable [DecidableEq V] (env : NetworkEnvironment V)

def new (config : ReplicaRuntimeConfig) (recorders : List ReplicaId) (stored : Option (RuntimeSnapshot V))
    (trace : List (NetworkEvent V)) : Result (NetworkConsensusHandler V) := do
  require (recorders.toFinset = config.members.toFinset ∧ recorders.length = config.members.toFinset.card)
    .configurationMismatch
  let state ← match stored with
    | some snapshot => do
      require (snapshot.cluster = config.cluster ∧ snapshot.protocol = config.protocolIdentity) .configurationMismatch
      ConsensusState.restore config snapshot
    | none => pure (ConsensusState.fresh config)
  state.validateState config
  pure { config, recorders, noopValue := none, state, trace }

def withNoopValue (h : NetworkConsensusHandler V) (value : V) : NetworkConsensusHandler V :=
  { h with noopValue := some value }

def persist : EStateM QuePaxaError (NetworkConsensusHandler V) Unit := do
  let h ← get
  let result := env.save h.trace h.snapshot
  request (.saved h.snapshot result) result

def installEpochSchedule (schedule : EpochSchedule) : EStateM QuePaxaError (NetworkConsensusHandler V) Unit := do
  let h ← get
  check (require (schedule.proposers.toFinset = h.config.members.toFinset ∧
    schedule.proposers.length = h.config.members.toFinset.card)
    (.policyError "an epoch schedule must contain every configured replica exactly once"))
  let changed ← onTuner (EpochTuner.install schedule)
  onlyIf (changed = true) (orRollback h.state (persist env))

def armGapNoop (now : Instant) : EStateM QuePaxaError (NetworkConsensusHandler V) Bool := do
  let h ← get
  match h.noopValue with
  | none => pure false
  | some noop =>
    if h.state.pending.keys ≠ [] then pure false
    else match h.state.replica.committedThrough.checkedNext with
      | none => throw .slotOverflow
      | some gap =>
        if h.state.gapIsBlocking gap then do
          onReplica (ReplicaCore.noteProposed gap [noop])
          onState fun s => { s with pending := s.pending.insert gap [noop], armedAt := s.armedAt.insert gap now }
          pure true
        else pure false

def executeOne (decision : Decision V) : EStateM QuePaxaError (NetworkConsensusHandler V) Unit := do
  let h ← get
  onlyIf (decision.slot ∉ h.state.executed) do
    let result := env.execute h.trace decision
    request (.executed decision result) result
    onState fun s => { s with executed := insert decision.slot s.executed }
    persist env

def executeDecisions (decisions : List (Decision V)) : EStateM QuePaxaError (NetworkConsensusHandler V) Unit :=
  decisions.forM (executeOne env)

def executeReady : EStateM QuePaxaError (NetworkConsensusHandler V) Unit := do
  let h ← get
  let ready := (h.state.decisions.upTo h.state.replica.committedThrough).entries.filter (·.1 ∉ h.state.executed)
  executeDecisions env (ready.map (·.2))

def noteCommitted : EStateM QuePaxaError (NetworkConsensusHandler V) Unit := do
  let h ← get
  let updates := (h.state.decisions.upTo h.state.replica.committedThrough).entries.filter
    (h.state.tuner.statsThrough < ·.1)
  updates.forM fun e => do let _ ← onTuner (EpochTuner.noteCommitted e.1 e.2.decidedStep)

def acceptNew (now : Instant) (decision : Decision V) : EStateM QuePaxaError (NetworkConsensusHandler V) Unit := do
  let h ← get
  let before := h.state
  let committed ← onReplica (ReplicaCore.applyDecision decision)
  onState (·.retainDecision decision)
  let _ ← armGapNoop now
  orRollback before noteCommitted
  orRollback before (persist env)
  executeDecisions env committed

def acceptDecision (now : Instant) (decision : Decision V) : EStateM QuePaxaError (NetworkConsensusHandler V) Unit := do
  let h ← get
  match h.state.decisions.get decision.slot with
  | some existing => do
    check (require (existing.valueIds = decision.valueIds) (.conflictingDecision decision.slot))
    -- a gap armed here is not saved
    let _ ← armGapNoop now
    executeReady env
  | none => acceptNew env now decision

/-- The locked part of `recover_inner`; the pending proposals it returns are then driven. -/
def recoverLocked (now : Instant) : EStateM QuePaxaError (NetworkConsensusHandler V) (List (SlotIndex × List V)) := do
  let h ← get
  let before := h.state
  let armed ← armGapNoop now
  onlyIf (armed = true) (orRollback before (persist env))
  executeReady env
  let h ← get
  pure h.state.pending.entries

/-- The checks and the first locked part of `submit_inner`. -/
def enqueueSubmission (valueIds : List V) : EStateM QuePaxaError (NetworkConsensusHandler V) Unit := do
  let h ← get
  check (require (valueIds.length ≤ h.config.replica.batchSize)
    (.resourceLimit "values in one network submission" h.config.replica.batchSize))
  check (require valueIds.Nodup (.invalidProposal "network submission contains duplicate value IDs"))
  let before := h.state
  onReplica (ReplicaCore.enqueue valueIds)
  orRollback before (persist env)

inductive SubmissionTurn (V : Type) where
  | committed (decision : Decision V)
  | propose (slot : SlotIndex) (values : List V)
  | wait
  deriving DecidableEq

def claimNext : EStateM QuePaxaError (NetworkConsensusHandler V) (SubmissionTurn V) := do
  let h ← get
  let before := h.state
  match ← onReplica ReplicaCore.nextProposal with
  | none => pure .wait
  | some (slot, values) => do
    onState fun s => { s with pending := s.pending.insert slot values }
    orRollback before (persist env)
    pure (.propose slot values)

def submissionTurn (valueIds : List V) : EStateM QuePaxaError (NetworkConsensusHandler V) (SubmissionTurn V) := do
  let h ← get
  match h.state.decisionFor valueIds with
  | some decision => pure (.committed decision)
  | none =>
    match h.state.pending.entries.find? fun e => valueIds.all (· ∈ e.2) with
    | some (slot, values) => pure (.propose slot values)
    | none => claimNext env

def hedgeFor (now : Instant) (slot : SlotIndex) :
    EStateM QuePaxaError (NetworkConsensusHandler V) (ReplicaId × Duration) := do
  let h ← get
  let schedule ← onTuner (EpochTuner.ensureSchedule (h.config.epochFor slot))
  let leader ← check schedule.leader
  match schedule.proposers.idxOf? h.config.replicaId with
  | none => throw (.policyError "the epoch schedule does not include the local replica")
  | some position => do
    let delay := h.state.hedgeDelay.current
    check (require (position < 2 ^ 32) (.policyError "hedging schedule is too large for a duration"))
    check (require (delay * position ≤ Duration.max) (.policyError "hedging delay overflowed"))
    onState fun s => { s with armedAt := s.armedAt.orInsert slot now }
    pure (leader, delay * position - (now - (h.state.armedAt.get slot).getD now))

def probeSlotStep (slot : SlotIndex) : EStateM QuePaxaError (NetworkConsensusHandler V) (Option Step) := do
  let h ← get
  let steps ← gather (fun recorder => do
    let h ← get
    let step := env.status h.trace recorder slot
    request (.probed recorder slot step) (.ok step.toList)) h.recorders
  pure steps.max?

/-- The probes of `defer_for_progress` and its locked part: whether to stand back. -/
def deferForProgress (slot : SlotIndex) : EStateM QuePaxaError (NetworkConsensusHandler V) Bool := do
  match ← probeSlotStep env slot with
  | none => pure false
  | some highest => do
    let h ← get
    if !h.state.pending.contains slot then pure false
    else if (h.state.observedSteps.get slot).all (· < highest) then do
      onState fun s => { s with observedSteps := s.observedSteps.insert slot highest }
      pure true
    else pure false

def disseminateAll (decisions : List (Decision V)) : EStateM QuePaxaError (NetworkConsensusHandler V) Unit := do
  if decisions = [] then pure ()
  else do
    let h ← get
    let acknowledged ← gather (fun recorder => do
      let h ← get
      let result := env.informDecisions h.trace recorder decisions
      request (.informed recorder decisions result) (.ok (if result.isOk then [recorder] else []))) h.recorders
    check (require (acknowledged.length = h.recorders.length)
      (.quorumNotReached h.recorders.length acknowledged.length))

/-- The first locked part of `create_state_transfer`: the decisions to be checkpointed. -/
def beginTransfer (slot : SlotIndex) : EStateM QuePaxaError (NetworkConsensusHandler V) (List (Decision V)) := do
  let h ← get
  check (require (slot ≤ h.state.replica.committedThrough)
    (.invalidProposal "cannot checkpoint beyond the contiguous committed prefix"))
  check (require ((h.state.pending.upTo slot).keys = [])
    (.invalidProposal "cannot checkpoint a slot with a pending local proposal"))
  pure (h.state.decisions.upTo slot).values

/-- The application checkpoint is exported without the state lock. -/
def exportCheckpoint (slot : SlotIndex) : EStateM QuePaxaError (NetworkConsensusHandler V) (List UInt8) := do
  let h ← get
  let result := env.exportCheckpoint h.trace slot
  request (.exported slot result) result

/-- The last locked part of `create_state_transfer`. -/
def sealTransfer (slot : SlotIndex) (checkpointedValueIds : Finset V) (applicationCheckpoint : List UInt8) :
    EStateM QuePaxaError (NetworkConsensusHandler V) (StateTransferSnapshot V) := do
  let h ← get
  check (require (slot ≤ h.state.replica.committedThrough ∧ (h.state.pending.upTo slot).keys = [])
    (.invalidProposal "runtime changed while preparing its state-transfer checkpoint"))
  let before := h.state
  onState (·.pruned slot)
  let h ← get
  orRollback before (persist env)
  pure { through := slot, checkpointedValueIds, applicationCheckpoint, runtime := h.snapshot }

def installStateTransfer (transfer : StateTransferSnapshot V) :
    EStateM QuePaxaError (NetworkConsensusHandler V) Unit := do
  let h ← get
  check (require (transfer.through = transfer.runtime.replica.checkpointedThrough ∧
    transfer.runtime.cluster = h.config.cluster ∧ transfer.runtime.protocol = h.config.protocolIdentity)
    .configurationMismatch)
  let replacement ← check (ConsensusState.restore h.config transfer.runtime)
  check (replacement.validateState h.config)
  let imported := env.importCheckpoint h.trace transfer.through transfer.applicationCheckpoint
  request (.imported transfer.through transfer.applicationCheckpoint imported) imported
  let h ← get
  let result := env.save h.trace transfer.runtime
  request (.saved transfer.runtime result) result
  onState fun _ => replacement

def reconfigured (h : NetworkConsensusHandler V) (change : MembershipChange V) (nextRecorders : List ReplicaId) :
    NetworkConsensusHandler V :=
  { h with
    config := h.config.installCluster change.next
    recorders := nextRecorders
    state := { h.state with tuner := h.state.tuner.reconfigure change.next.members change.anchor.slot } }

def ensureDrained (h : NetworkConsensusHandler V) (change : MembershipChange V) : Result Unit :=
  require (h.state.replica.committedThrough = change.anchor.slot ∧
    h.state.decisions.get change.anchor.slot = some change.anchor ∧ h.state.pending.keys = [] ∧
    ∀ slot ∈ h.state.replica.log.keys, slot ≤ change.anchor.slot)
    (.invalidReconfiguration "membership changes require an exact committed anchor and a drained pipeline")

def installOn (change : MembershipChange V) (recorder : ReplicaId) :
    EStateM QuePaxaError (NetworkConsensusHandler V) (List (Result Unit)) := do
  let h ← get
  let result := env.installMembership h.trace recorder change
  request (.installed recorder change result) (.ok [result])

def activate (change : MembershipChange V) (nextRecorders : List ReplicaId) :
    EStateM QuePaxaError (NetworkConsensusHandler V) Unit := do
  let before ← get
  set (before.reconfigured change nextRecorders)
  tryCatch (persist env) fun e => do
    -- the failed save stays in the trace
    modify fun h => { before with trace := h.trace }
    throw e

/-- The whole call: it waits for all others to end and keeps them out until it has ended. -/
def installMembership (change : MembershipChange V) (nextRecorders : List ReplicaId) :
    EStateM QuePaxaError (NetworkConsensusHandler V) Unit := do
  check change.validateBinding
  let h ← get
  if change.next = h.config.cluster then do
    check (validateAsyncRecorders change.next nextRecorders)
    set { h with recorders := nextRecorders }
  else do
    check (require (change.next.isSuccessorOf h.config.cluster)
      (.invalidReconfiguration "membership transition does not follow the network runtime epoch"))
    check (validateAsyncRecorders change.next nextRecorders)
    check (h.ensureDrained change)
    disseminateAll env h.state.decisions.values
    -- all requests are out before the first answer counts
    let results ← gather (installOn env change) nextRecorders
    results.forM fun result => check result
    activate env change nextRecorders

end
end NetworkConsensusHandler
end QuePaxa
