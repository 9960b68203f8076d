import QuePaxa.Core.Recorder

/-! The proposer: its checks, the requests of one step, the collection of a quorum of
replies and what a step concludes from them. The blocking and the asynchronous proposer
share the loop body and differ in their checks and in how they collect replies. -/
namespace QuePaxa
open Library
variable {V : Type}

structure ProposerConfig where
  maxSteps : Nat
  quorum : Option Nat
  cluster : Option ClusterIdentity
  deriving DecidableEq, Repr

def ProposerConfig.default : ProposerConfig := ⟨1027, none, none⟩

structure ProposerCore where
  replicaId : ReplicaId
  laneId : LaneId
  config : ProposerConfig
  deriving DecidableEq, Repr

def ProposerCore.withCluster (core : ProposerCore) (cluster : ClusterIdentity) : ProposerCore :=
  { core with config := { core.config with quorum := some cluster.quorumSize, cluster := some cluster } }

structure AsyncProposerCore where
  replicaId : ReplicaId
  laneId : LaneId
  cluster : ClusterIdentity
  maxSteps : Nat
  deriving DecidableEq, Repr

/-- The arguments of one `propose` call; `recorders` are the identities of the given
endpoints. The asynchronous proposer takes no known decisions. -/
structure ProposeCall (V : Type) where
  slot : SlotIndex
  valueIds : List V
  leader : Option ReplicaId
  recorders : List ReplicaId
  knownDecisions : List (Decision V)
  deriving DecidableEq, Repr

def quorumSize (replicaCount : Nat) : Result Nat :=
  if replicaCount = 0 then .error .emptyCluster else .ok (replicaCount / 2 + 1)

def repeatedReplica (seen : List ReplicaId) : List ReplicaId → Option ReplicaId
  | [] => none
  | id :: rest => if id ∈ seen then some id else repeatedReplica (id :: seen) rest

def checkDistinct (recorders : List ReplicaId) : Result Unit :=
  match repeatedReplica [] recorders with
  | some id => .error (.duplicateReplica id)
  | none => .ok ()

def checkLeader (voters : List ReplicaId) : Option ReplicaId → Result Unit
  | some leader => require (leader ∈ voters) (.unknownReplica leader)
  | none => .ok ()

namespace ProposerCore

def validateRecorders (recorders : List ReplicaId) (proposer : ReplicaId) (configuredQuorum : Option Nat)
    (expectedCluster : Option ClusterIdentity) : Result Nat := do
  let majority ← quorumSize recorders.length
  checkDistinct recorders
  require (proposer ∈ recorders) (.unknownReplica proposer)
  match expectedCluster with
  | some cluster =>
    require (recorders.toFinset = cluster.members.toFinset) .configurationMismatch
    require (configuredQuorum = some cluster.quorumSize)
      (.invalidQuorum recorders.length (configuredQuorum.getD majority))
  | none => pure ()
  match configuredQuorum with
  | some quorum =>
    require (majority ≤ quorum ∧ quorum ≤ recorders.length) (.invalidQuorum recorders.length quorum)
    pure quorum
  | none => pure majority

def begin (core : ProposerCore) (call : ProposeCall V) : Result (Nat × Proposal V) := do
  let quorum ← validateRecorders call.recorders core.replicaId core.config.quorum core.config.cluster
  checkLeader call.recorders call.leader
  call.knownDecisions.forM fun decision =>
    require (decision.proposer ∈ call.recorders) (.invalidSender decision.proposer)
  let proposal ← Proposal.new ⟨Priority.max, core.replicaId, core.laneId⟩ call.valueIds
  pure (quorum, proposal)

end ProposerCore

namespace AsyncProposerCore

def validateRecorders (recorders : List ReplicaId) (proposer : ReplicaId) (cluster : ClusterIdentity) :
    Result Unit := do
  require (cluster.contains proposer) (.unknownReplica proposer)
  require recorders.Nodup (.invalidProposal "async recorder clients contain duplicate identities")
  require (recorders.toFinset = cluster.members.toFinset) .configurationMismatch

def begin (core : AsyncProposerCore) (call : ProposeCall V) : Result (Nat × Proposal V) := do
  validateRecorders call.recorders core.replicaId core.cluster
  checkLeader core.cluster.members call.leader
  let proposal ← Proposal.new ⟨Priority.max, core.replicaId, core.laneId⟩ call.valueIds
  pure (core.cluster.quorumSize, proposal)

end AsyncProposerCore

/-- Phase 0 draws a fresh priority for every recorder, except for the round-one leader. -/
def proposalFor (self : ReplicaId) (leader : Option ReplicaId) (step : Step) (proposal : Proposal V)
    (draw : Result Priority) : Result (Proposal V) :=
  if step.phase = 0 ∧ (Step.roundOnePhaseZero < step ∨ leader ≠ some self) then
    proposal.withPriority <$> draw
  else .ok proposal

def stepRequests (self : ReplicaId) (call : ProposeCall V) (known : List (Decision V)) (step : Step)
    (proposal : Proposal V) (draws : ReplicaId → Result Priority) :
    Result (List (ReplicaId × RecordRequest V)) :=
  call.recorders.mapM fun id => do
    let proposal ← proposalFor self call.leader step proposal (draws id)
    pure (id, { sender := self
                slot := call.slot
                roundOneLeader := call.leader
                step
                proposal
                knownDecisions := known })

inductive Arrival (V : Type) where
  | answered (expected : ReplicaId) (result : Result (RecordReply V))
  | timedOut
  | disconnected

def QuePaxaError.isSafetySignal : QuePaxaError → Bool
  | conflictingDecision _ | slotPruned _ | scheduleMismatch _ | configurationMismatch => true
  | _ => false

/-- The checks on a successful reply; the source's `seen` holds the recorders of `replies`. -/
def admitReply (expectedCluster : Option ClusterIdentity) (expected : ReplicaId)
    (replies : List (RecordReply V)) (reply : RecordReply V) : Result (List (RecordReply V)) := do
  require (reply.recorder = expected) (.invalidRecorderReply expected reply.recorder)
  require (∀ cluster ∈ expectedCluster, reply.cluster = cluster) .configurationMismatch
  require (reply.recorder ∉ replies.map (·.recorder)) (.duplicateRecorderReply reply.recorder)
  pure (replies ++ [reply])

def recordersOf (replies : List (RecordReply V)) : Finset ReplicaId := (replies.map (·.recorder)).toFinset

def quorumReached (replies : List (RecordReply V)) (quorum : Nat) (expectedCluster : Option ClusterIdentity) :
    Bool :=
  match expectedCluster with
  | none => quorum ≤ replies.length
  | some cluster => cluster.hasQuorum (recordersOf replies)

namespace ProposerCore

/-- The receive loop; `pending` counts the launched requests that have not answered. -/
def collectReplies (quorum : Nat) (expectedCluster : Option ClusterIdentity) (replies : List (RecordReply V))
    (pending : Nat) : List (Arrival V) → Result (List (RecordReply V))
  | [] => if quorumReached replies quorum expectedCluster then .ok replies
    else .error (.quorumNotReached quorum replies.length)
  | arrival :: rest =>
    if quorumReached replies quorum expectedCluster then .ok replies
    else match arrival with
      | .timedOut => .error (.quorumNotReached quorum replies.length)
      | .disconnected => .error (.transportError "all recorder workers exited before replying")
      | .answered expected (.ok reply) =>
        match admitReply expectedCluster expected replies reply with
        | .error e => .error e
        | .ok replies => collectReplies quorum expectedCluster replies (pending - 1) rest
      | .answered _ (.error e) =>
        if e.isSafetySignal then .error e
        else if replies.length + (pending - 1) < quorum then .error (.quorumNotReached quorum replies.length)
        else collectReplies quorum expectedCluster replies (pending - 1) rest

def collectQuorum (quorum : Nat) (expectedCluster : Option ClusterIdentity) (launched : Nat)
    (arrivals : List (Arrival V)) : Result (List (RecordReply V)) := do
  require (quorum ≤ launched) (.quorumNotReached quorum launched)
  collectReplies quorum expectedCluster [] launched arrivals

end ProposerCore

namespace AsyncProposerCore

def collectReplies (quorum : Nat) (expectedCluster : ClusterIdentity) (replies : List (RecordReply V))
    (pending : Nat) : List (Arrival V) → Result (List (RecordReply V))
  | .answered expected result :: rest =>
    let received : Result (List (RecordReply V)) :=
      match result with
      | .ok reply => admitReply (some expectedCluster) expected replies reply
      | .error e => if e.isSafetySignal then .error e else .ok replies
    match received with
    | .error e => .error e
    | .ok replies =>
      if result.isOk ∧ expectedCluster.hasQuorum (recordersOf replies) then .ok replies
      else if replies.length + (pending - 1) < quorum then .error (.quorumNotReached quorum replies.length)
      else collectReplies quorum expectedCluster replies (pending - 1) rest
  | _ => .error (.quorumNotReached quorum replies.length)

def collectQuorum (quorum : Nat) (expectedCluster : ClusterIdentity) (requests : Nat)
    (arrivals : List (Arrival V)) : Result (List (RecordReply V)) :=
  collectReplies quorum expectedCluster [] requests arrivals

end AsyncProposerCore

def fastPathWinner (step : Step) (replies : List (RecordReply V)) (leader : Option ReplicaId) :
    Option (Proposal V) :=
  if step ≠ Step.roundOnePhaseZero then none
  else match replies.head?.bind (·.summary.first) with
    | none => none
    | some winner =>
      if !winner.key.priority.isLeaderPriority then none
      else if leader ≠ some winner.key.proposerId then none
      else if replies.all fun reply => reply.summary.first.any fun proposal => proposal.key = winner.key then
        some winner
      else none

/-- Rust's `max_by_key`: the last reply with the largest step. -/
def latestReply (replies : List (RecordReply V)) : Option (RecordReply V) :=
  replies.foldl (fun best reply =>
    match best with
    | some held => if held.summary.step ≤ reply.summary.step then some reply else some held
    | none => some reply) none

inductive StepOutcome (V : Type) where
  | decided (decision : Decision V)
  | next (step : Step) (proposal : Proposal V)
  deriving DecidableEq, Repr

namespace StepOutcome

def decide (slot : SlotIndex) (winner : Proposal V) (step : Step) : Result (StepOutcome V) :=
  decided <$> Decision.new slot winner.valueIds winner.key.proposerId step

def advance (step : Step) (proposal : Proposal V) : Result (StepOutcome V) :=
  match step.checkedNext with
  | some following => .ok (.next following proposal)
  | none => .error .stepOverflow

end StepOutcome

def maxPrior (replies : List (RecordReply V)) : Option (Proposal V) :=
  maxProposalByKey (replies.filterMap (·.summary.priorAggregate))

def maxFirst (replies : List (RecordReply V)) : Option (Proposal V) :=
  maxProposalByKey (replies.filterMap (·.summary.first))

def finishPhase [DecidableEq V] (slot : SlotIndex) (leader : Option ReplicaId) (step : Step)
    (proposal : Proposal V) (replies : List (RecordReply V)) : Result (StepOutcome V) :=
  match step.phase with
  | 0 =>
    match fastPathWinner step replies leader with
    | some winner => StepOutcome.decide slot winner step
    | none =>
      match maxFirst replies with
      | some best => StepOutcome.advance step best
      | none => .error .missingProposal
  | 1 => StepOutcome.advance step proposal
  | 2 =>
    if maxPrior replies = some proposal then StepOutcome.decide slot proposal step
    else StepOutcome.advance step proposal
  | _ => StepOutcome.advance step ((maxPrior replies).getD proposal)

def catchUp (step : Step) (proposal : Proposal V) (replies : List (RecordReply V)) : Result (StepOutcome V) :=
  match latestReply replies with
  | some reply =>
    if step < reply.summary.step then
      match reply.summary.first with
      | some first => .ok (.next reply.summary.step first)
      | none => .error .missingProposal
    else .ok (.next step proposal)
  | none => .ok (.next step proposal)

def concludeStep [DecidableEq V] (slot : SlotIndex) (leader : Option ReplicaId) (step : Step)
    (proposal : Proposal V) (replies : List (RecordReply V)) : Result (StepOutcome V) :=
  match replies.findSome? (·.decision) with
  | some decision =>
    if decision.slot ≠ slot ∨ decision.valueIds = [] then
      .error (.invalidProposal "recorder reported a decision for a different slot")
    else .ok (.decided decision)
  | none =>
    if replies.all (·.summary.step = step) then finishPhase slot leader step proposal replies
    else catchUp step proposal replies

end QuePaxa
