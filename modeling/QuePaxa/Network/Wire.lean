import QuePaxa.Core.DurableRecorder

/-! The remote recorder: what a node answers to the requests of its peers, and what the TLS
client makes of the answer. A failure crosses the wire as a code and a text. -/
namespace QuePaxa
open Library
variable {V R S : Type}

def QuePaxaError.message : QuePaxaError → String
  | emptyCluster => "cluster must contain at least one replica"
  | emptyProposal => "proposal must contain at least one value id"
  | emptyDecision => "decision must contain at least one value id"
  | missingProposal => "recorder reply did not contain a proposal"
  | missingValue => "required value is missing from the value store"
  | duplicateReplica replica => s!"duplicate replica id {replica}"
  | unknownReplica replica => s!"unknown replica id {replica}"
  | invalidSender replica => s!"replica id {replica} is not an authorized sender"
  | invalidRecorderReply expected received =>
    s!"recorder reply identity mismatch: expected {expected}, received {received}"
  | duplicateRecorderReply replica => s!"duplicate reply from recorder {replica}"
  | invalidQuorum replicas quorum => s!"invalid quorum {quorum} for {replicas} replicas"
  | quorumNotReached needed received => s!"quorum not reached: needed {needed}, received {received}"
  | invalidStep step limit => s!"logical step {step} is outside the accepted range through {limit}"
  | stepOverflow => "logical step counter overflowed"
  | slotOverflow => "slot index overflowed"
  | resourceLimit resource limit => s!"{resource} exceeds its configured limit of {limit}"
  | configurationMismatch => "replica configuration does not match the local cluster identity"
  | configurationEpochOverflow => "membership configuration epoch overflowed"
  | conflictingDecision slot => s!"conflicting decision for slot {slot}"
  | scheduleMismatch slot => s!"round-one leader schedule mismatch for slot {slot}"
  | slotAlreadyDecided slot => s!"slot {slot} is already decided"
  | slotPruned slot => s!"slot {slot} was pruned after checkpointing; state transfer is required"
  | stepLimitExceeded limit => s!"proposer exceeded the configured step limit {limit}"
  | invalidProposal message | transportError message | storageError message | invalidReconfiguration message
  | policyError message | panicked message => message

inductive WireErrorCode where
  | authentication | configuration | invalidRequest | resourceLimit | storage | unavailable | internal
  | conflict | scheduleMismatch | pruned
  deriving DecidableEq, Repr

namespace WireErrorCode

def name : WireErrorCode → String
  | authentication => "Authentication"
  | configuration => "Configuration"
  | invalidRequest => "InvalidRequest"
  | resourceLimit => "ResourceLimit"
  | storage => "Storage"
  | unavailable => "Unavailable"
  | internal => "Internal"
  | conflict => "Conflict"
  | scheduleMismatch => "ScheduleMismatch"
  | pruned => "Pruned"

end WireErrorCode

structure WireError where
  code : WireErrorCode
  message : String
  deriving DecidableEq, Repr

/-- A panic never reaches this point as an error: the task that ran the recorder reports it. -/
def errorToWire (error : QuePaxaError) : WireError where
  code := match error with
    | .invalidSender _ | .invalidRecorderReply .. | .duplicateRecorderReply _ => .authentication
    | .configurationMismatch | .invalidReconfiguration _ | .configurationEpochOverflow | .invalidQuorum ..
    | .unknownReplica _ => .configuration
    | .resourceLimit .. | .stepLimitExceeded _ => .resourceLimit
    | .storageError _ => .storage
    | .transportError _ | .quorumNotReached .. => .unavailable
    | .conflictingDecision _ => .conflict
    | .scheduleMismatch _ => .scheduleMismatch
    | .slotPruned _ => .pruned
    | .emptyCluster | .emptyProposal | .emptyDecision | .missingProposal | .missingValue | .duplicateReplica _
    | .invalidStep .. | .invalidProposal _ | .slotAlreadyDecided _ => .invalidRequest
    | .stepOverflow | .slotOverflow | .policyError _ | .panicked _ => .internal
  message := error.message

/-- The wire carries no slot; the client supplies the one it asked about. -/
def wireErrorToLocal (error : WireError) (slot : Option SlotIndex) : QuePaxaError :=
  match error.code, slot with
  | .conflict, some slot => .conflictingDecision slot
  | .scheduleMismatch, some slot => .scheduleMismatch slot
  | .pruned, some slot => .slotPruned slot
  | code, _ =>
    let codeName := code.name
    let message := error.message
    .transportError s!"remote node rejected request ({codeName}): {message}"

abbrev DeploymentId := Nat

inductive PeerSender where
  | replica (id : ReplicaId)
  | client (id : Nat)
  deriving DecidableEq, Repr

inductive PeerIdentity where
  | replica (id : ReplicaId)
  | client (id : Nat)
  deriving DecidableEq, Repr

def PeerIdentity.matchesSender : PeerIdentity → PeerSender → Bool
  | replica left, .replica right => left = right
  | client left, .client right => left = right
  | _, _ => false

inductive RequestBody (V : Type) where
  | record (request : RecordRequest V)
  | status (slot : SlotIndex)
  | informDecisions (decisions : List (Decision V))
  | installMembership (change : MembershipChange V)
  | ping

inductive ResponseBody (V : Type) where
  | record (reply : RecordReply V)
  | status (step : Option Step)
  | ack
  | pong
  | error (error : WireError)
  deriving DecidableEq

def wireVersion : Nat := 4

structure NodeRequest (V : Type) where
  version : Nat
  deployment : DeploymentId
  requestId : Nat
  sender : PeerSender
  body : RequestBody V

structure NodeResponse (V : Type) where
  version : Nat
  deployment : DeploymentId
  requestId : Nat
  body : ResponseBody V

class RecorderClient (V R : Type) where
  record : Availability V → RecordRequest V → EStateM QuePaxaError R (RecordReply V)
  informDecisions : List (Decision V) → EStateM QuePaxaError R Unit
  status : SlotIndex → EStateM QuePaxaError R (Option Step)
  installMembership : MembershipChange V → EStateM QuePaxaError R Unit

instance [DecidableEq V] : RecorderClient V (RecorderCore V) where
  record := RecorderCore.record
  informDecisions := RecorderCore.informDecisions
  status slot := fun r => .ok (r.status slot) r
  installMembership := RecorderCore.installMembership

instance [DecidableEq V] [RecorderStateStore V S] : RecorderClient V (DurableRecorderCore V S) where
  record := DurableRecorderCore.record
  informDecisions := DurableRecorderCore.informDecisions
  status slot := fun d => .ok (d.core.status slot) d
  installMembership := DurableRecorderCore.installMembership

structure SharedRecorder (R : Type) where
  recorder : R
  poisoned : Bool

/-- One blocking task on the locked recorder; a panic in it poisons the lock. -/
def SharedRecorder.run {α : Type} (task : String) (x : EStateM QuePaxaError R α) :
    EStateM QuePaxaError (SharedRecorder R) α := fun shared =>
  if shared.poisoned then .error (.transportError "recorder lock was poisoned") shared
  else match x shared.recorder with
    | .ok a r => .ok a { shared with recorder := r }
    | .error (.panicked message) r => .error (.transportError s!"{task} failed: {message}") ⟨r, true⟩
    | .error e r => .error e { shared with recorder := r }

structure ConnectionContext (V : Type) where
  deployment : DeploymentId
  available : Availability V
  /-- What the submission handler makes of decisions the recorder has taken in. -/
  receiveDecisions : List (Decision V) → Result Unit

namespace ConnectionContext
variable [RecorderClient V R]

def dispatch (ctx : ConnectionContext V) (peer : PeerIdentity) (request : NodeRequest V) :
    EStateM QuePaxaError (SharedRecorder R) (ResponseBody V) := do
  let version := request.version
  if version ≠ wireVersion then throw (.transportError s!"unsupported wire version {version}")
  if request.deployment ≠ ctx.deployment then throw .configurationMismatch
  if !peer.matchesSender request.sender then
    throw (.transportError "authenticated peer does not match the protocol sender")
  match peer, request.body with
  | .replica replica, .record record => do
    if record.sender ≠ replica then throw (.invalidSender record.sender)
    let reply ← SharedRecorder.run "recorder task" (RecorderClient.record ctx.available record)
    pure (.record reply)
  | .replica _, .status slot => do
    let step ← SharedRecorder.run "recorder task" (RecorderClient.status V slot)
    pure (.status step)
  | .replica _, .informDecisions decisions => do
    SharedRecorder.run "recorder task" (RecorderClient.informDecisions decisions)
    check (ctx.receiveDecisions decisions)
    pure .ack
  | .replica _, .installMembership change => do
    SharedRecorder.run "membership installation task" (RecorderClient.installMembership change)
    pure .ack
  | _, .ping => pure .pong
  | _, _ => throw (.transportError "authenticated peer is not authorized for this request type")

def serve (ctx : ConnectionContext V) (peer : PeerIdentity) (shared : SharedRecorder R) (request : NodeRequest V) :
    NodeResponse V :=
  { version := wireVersion
    deployment := ctx.deployment
    requestId := request.requestId
    body := match result (ctx.dispatch peer request) shared with
      | .ok body => body
      | .error e => .error (errorToWire e) }

end ConnectionContext

structure TlsRpcClient where
  deployment : DeploymentId
  sender : PeerSender

def TlsRpcClient.callInner (client : TlsRpcClient) (exchange : NodeRequest V → Result (NodeResponse V))
    (requestId : Nat)
    (body : RequestBody V) : Result (ResponseBody V) := do
  let response ← exchange ⟨wireVersion, client.deployment, requestId, client.sender, body⟩
  require (response.version = wireVersion ∧ response.deployment = client.deployment ∧ response.requestId = requestId)
    (.transportError "network response envelope does not match the request")
  pure response.body

namespace TlsRecorderClient
variable (call : RequestBody V → Result (ResponseBody V))

def record (request : RecordRequest V) : Result (RecordReply V) := do
  match ← call (.record request) with
  | .record reply => .ok reply
  | .error error => .error (wireErrorToLocal error (some request.slot))
  | _ => .error (.transportError "recorder returned an unexpected response type")

def informDecisions (decisions : List (Decision V)) : Result Unit := do
  let slot := decisions.head?.map (·.slot)
  match ← call (.informDecisions decisions) with
  | .ack => .ok ()
  | .error error => .error (wireErrorToLocal error slot)
  | _ => .error (.transportError "recorder returned an unexpected decision acknowledgement")

def status (slot : SlotIndex) : Result (Option Step) := do
  match ← call (.status slot) with
  | .status step => .ok step
  | .error error => .error (wireErrorToLocal error (some slot))
  | _ => .error (.transportError "recorder returned an unexpected status response")

def installMembership (change : MembershipChange V) : Result Unit := do
  match ← call (.installMembership change) with
  | .ack => .ok ()
  | .error error => .error (wireErrorToLocal error (some change.anchor.slot))
  | _ => .error (.transportError "recorder returned an unexpected membership acknowledgement")

def ping : Result Unit := do
  match ← call .ping with
  | .pong => .ok ()
  | .error error => .error (wireErrorToLocal error none)
  | _ => .error (.transportError "node returned an unexpected health response")

end TlsRecorderClient
end QuePaxa
