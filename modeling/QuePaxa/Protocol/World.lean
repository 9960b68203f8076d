import QuePaxa.Core.Proposer
import QuePaxa.Library.Runs

/-! Proposers and recorders exchanging messages. A request once sent may be delivered
any number of times, at any later point, or never; a reply may be consumed late or never;
recorders may be informed, pruned and moved to another epoch in between. -/
namespace QuePaxa
open Library
variable {V : Type}

/-- A proposer of either kind; both follow the same loop. -/
inductive Proposer where
  | blocking (core : ProposerCore)
  | async (core : AsyncProposerCore)
  deriving DecidableEq, Repr

namespace Proposer

def replicaId : Proposer → ReplicaId
  | blocking core => core.replicaId
  | async core => core.replicaId

def laneId : Proposer → LaneId
  | blocking core => core.laneId
  | async core => core.laneId

def maxSteps : Proposer → Nat
  | blocking core => core.config.maxSteps
  | async core => core.maxSteps

def cluster : Proposer → Option ClusterIdentity
  | blocking core => core.config.cluster
  | async core => some core.cluster

def begin (p : Proposer) (call : ProposeCall V) : Result (Nat × Proposal V) :=
  match p with
  | blocking core => core.begin call
  | async core => core.begin call

/-- Only the first requests of a blocking proposer carry its known decisions. -/
def known (p : Proposer) (call : ProposeCall V) (iteration : Nat) : List (Decision V) :=
  match p with
  | blocking _ => if iteration = 0 then call.knownDecisions else []
  | async _ => []

/-- The endpoints a request is launched on: the blocking proposer skips busy ones. -/
def launches (p : Proposer) (busy : List ReplicaId) (id : ReplicaId) : Bool :=
  match p with
  | blocking _ => id ∉ busy
  | async _ => true

def collectQuorum (p : Proposer) (quorum launched : Nat) (arrivals : List (Arrival V)) :
    Result (List (RecordReply V)) :=
  match p with
  | blocking core => ProposerCore.collectQuorum quorum core.config.cluster launched arrivals
  | async core => AsyncProposerCore.collectQuorum quorum core.cluster launched arrivals

end Proposer

inductive Progress (V : Type) where
  | ready
  | waiting (targets : List ReplicaId)
  | returned (result : Result (Decision V))

structure Invocation (V : Type) where
  proposer : Proposer
  call : ProposeCall V
  quorum : Nat
  step : Step
  proposal : Proposal V
  iteration : Nat
  progress : Progress V

structure Message (V : Type) where
  invocation : Nat
  iteration : Nat
  target : ReplicaId
  request : RecordRequest V
  deriving DecidableEq, Repr

instance [DecidableEq V] : LawfulBEq (Message V) := inferInstance

structure Delivery (V : Type) where
  message : Message V
  reply : RecordReply V
  deriving DecidableEq, Repr

structure World (V : Type) where
  recorders : ReplicaId → RecorderCore V
  invocations : List (Invocation V)
  sent : List (Message V)
  deliveries : List (Delivery V)
  /-- The quorums of replies that invocations have collected. -/
  collected : List (Nat × List (RecordReply V))

inductive Action (V : Type) where
  | start (proposer : Proposer) (call : ProposeCall V)
  | send (invocation : Nat) (draws : ReplicaId → Result Priority) (busy : List ReplicaId)
  | deliver (message : Message V) (available : Availability V)
  | collect (invocation : Nat) (arrivals : List (Arrival V))
  | inform (target : ReplicaId) (decision : Decision V)
  | prune (target : ReplicaId) (slot : SlotIndex)
  | install (target : ReplicaId) (change : MembershipChange V)

def Arrival.expected : Arrival V → Option ReplicaId
  | .answered expected _ => some expected
  | _ => none

namespace Invocation
variable (inv : Invocation V)

def requests (draws : ReplicaId → Result Priority) : Result (List (ReplicaId × RecordRequest V)) :=
  stepRequests inv.proposer.replicaId inv.call (inv.proposer.known inv.call inv.iteration) inv.step
    inv.proposal draws

def finish (result : Result (Decision V)) : Invocation V := { inv with progress := .returned result }

def send (index : Nat) (draws : ReplicaId → Result Priority) (busy : List ReplicaId) :
    Invocation V × List (Message V) :=
  if inv.proposer.maxSteps < inv.step then (inv.finish (.error (.stepLimitExceeded inv.proposer.maxSteps)), [])
  else match inv.requests draws with
    | .error e => (inv.finish (.error e), [])
    | .ok requests =>
      let launched := requests.filter fun r => inv.proposer.launches busy r.1
      ({ inv with progress := .waiting (launched.map (·.1)) },
        launched.map fun r => ⟨index, inv.iteration, r.1, r.2⟩)

def conclude [DecidableEq V] (replies : List (RecordReply V)) : Invocation V :=
  match concludeStep inv.call.slot inv.call.leader inv.step inv.proposal replies with
  | .error e => inv.finish (.error e)
  | .ok (.decided decision) => inv.finish (.ok decision)
  | .ok (.next step proposal) =>
    { inv with step, proposal, iteration := inv.iteration + 1, progress := .ready }

end Invocation

namespace World

def setRecorder (w : World V) (target : ReplicaId) (r : RecorderCore V) : World V :=
  { w with recorders := Function.update w.recorders target r }

section
variable [DecidableEq V]

/-- A reply arrives only if the recorder sent it; a failure needs no cause. -/
def possible (w : World V) (index iteration : Nat) (targets : List ReplicaId) : Arrival V → Bool
  | .answered expected (.ok reply) => expected ∈ targets ∧
      ∃ d ∈ w.deliveries, d.message.invocation = index ∧ d.message.iteration = iteration ∧
        d.message.target = expected ∧ d.reply = reply
  | .answered expected (.error _) => expected ∈ targets
  | _ => true

/-- What the channel of an iteration can deliver: one answer per launched endpoint. -/
def Genuine (w : World V) (index iteration : Nat) (targets : List ReplicaId) (arrivals : List (Arrival V)) :
    Prop :=
  (arrivals.filterMap Arrival.expected).Nodup ∧
    ∀ arrival ∈ arrivals, w.possible index iteration targets arrival = true

instance (w : World V) (index iteration : Nat) (targets : List ReplicaId) (arrivals : List (Arrival V)) :
    Decidable (w.Genuine index iteration targets arrivals) :=
  inferInstanceAs (Decidable (_ ∧ _))

def step (w : World V) : Action V → World V
  | .start proposer call =>
    match proposer.begin call with
    | .error _ => w
    | .ok (quorum, proposal) =>
      { w with invocations := w.invocations ++
          [⟨proposer, call, quorum, Step.roundOnePhaseZero, proposal, 0, .ready⟩] }
  | .send i draws busy =>
    match w.invocations[i]? with
    | some inv =>
      match inv.progress with
      | .ready =>
        let (inv, messages) := inv.send i draws busy
        { w with invocations := w.invocations.set i inv, sent := w.sent ++ messages }
      | _ => w
    | none => w
  | .deliver message available =>
    if message ∈ w.sent then
      match RecorderCore.record available message.request (w.recorders message.target) with
      | .ok reply r =>
        { w.setRecorder message.target r with deliveries := w.deliveries ++ [⟨message, reply⟩] }
      | .error _ r => w.setRecorder message.target r
    else w
  | .collect i arrivals =>
    match w.invocations[i]? with
    | some inv =>
      match inv.progress with
      | .waiting targets =>
        if w.Genuine i inv.iteration targets arrivals then
          match inv.proposer.collectQuorum inv.quorum targets.length arrivals with
          | .error e => { w with invocations := w.invocations.set i (inv.finish (.error e)) }
          | .ok replies =>
            { w with
              invocations := w.invocations.set i (inv.conclude replies)
              collected := w.collected ++ [(i, replies)] }
        else w
      | _ => w
    | none => w
  | .inform target decision =>
    w.setRecorder target (after (RecorderCore.informDecision decision) (w.recorders target))
  | .prune target slot => w.setRecorder target ((w.recorders target).pruneThrough slot)
  | .install target change =>
    w.setRecorder target (after (RecorderCore.installMembership change) (w.recorders target))

end
end World
end QuePaxa
