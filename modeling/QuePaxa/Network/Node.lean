import QuePaxa.Library.Runs
import QuePaxa.Network.NodeRuntime

/-! A network node: the calls in progress as tasks that run their locked sections in any
order, crashes in the middle of a section, and restarts from the snapshot saved last. A
task may be dropped between its sections, as a caller that goes away does; what it leaves when
it is dropped inside one is told in `Network.Cancellation`. -/
namespace QuePaxa
open Library
variable {V : Type}

def NetworkEvent.stored : NetworkEvent V → Option (RuntimeSnapshot V)
  | .saved snapshot (.ok ()) => some snapshot
  | _ => none

/-- Where a call in progress stands. -/
inductive Task (V : Type) where
  /-- `submit_inner`: before it queues its values, and at the head of its loop. -/
  | submit (valueIds : List V)
  | submitting (valueIds : List V)
  /-- `receive_decisions`: the decisions not accepted yet. -/
  | receiving (decisions : List (Decision V))
  | recovering
  /-- `wait_for_turn`: the head of its loop, after the hedging delay, before and after the
  probes, and with the slot found pending for the last time. -/
  | waiting (slot : SlotIndex) (values : List V)
  | hedging (slot : SlotIndex) (values : List V) (leader : ReplicaId)
  | probing (slot : SlotIndex) (values : List V) (leader : ReplicaId)
  | ready (slot : SlotIndex) (values : List V) (leader : ReplicaId)
  /-- `propose_slot`: the proposal is out, has come back, and is to be accepted. -/
  | proposing (call : ProposeCall V)
  | observing (decision : Decision V)
  | accepting (decision : Decision V)
  /-- `create_state_transfer`: before each of its parts. -/
  | transfer (slot : SlotIndex)
  | disseminating (slot : SlotIndex) (decisions : List (Decision V))
  | exporting (slot : SlotIndex) (checkpointedValueIds : Finset V)
  | sealing (slot : SlotIndex) (checkpointedValueIds : Finset V) (applicationCheckpoint : List UInt8)
  | install (incoming : StateTransferSnapshot V)
  | schedule (agreed : EpochSchedule)
  deriving DecidableEq

def Task.isCall : Task V → Bool
  | .submit _ | .receiving _ | .recovering | .transfer _ | .install _ | .schedule _ => true
  | _ => false

def Task.accepts : Task V → Option (Decision V)
  | .receiving (decision :: _) | .accepting decision => some decision
  | _ => none

namespace Task
variable [DecidableEq V] (env : NetworkEnvironment V)

open NetworkConsensusHandler

/-- One locked section of a task, with the tasks that go on from there. -/
def advance (now : Instant) : Task V → EStateM QuePaxaError (NetworkConsensusHandler V) (List (Task V))
  | .submit valueIds => do
    enqueueSubmission env valueIds
    pure [.submitting valueIds]
  | .submitting valueIds => do
    match ← submissionTurn env valueIds with
    | .committed _ => pure []
    | .propose slot values => pure [.submitting valueIds, .waiting slot values]
    | .wait => pure [.submitting valueIds]
  | .receiving [] => pure [.recovering]
  | .receiving (decision :: rest) => do
    acceptDecision env now decision
    pure [.receiving rest]
  | .recovering => do
    let pending ← recoverLocked env now
    pure (pending.map fun e => .waiting e.1 e.2)
  | .waiting slot values => do
    let h ← get
    if !h.state.pending.contains slot then pure []
    else do
      let (leader, _) ← hedgeFor now slot
      pure [.hedging slot values leader]
  | .hedging slot values leader => do
    let h ← get
    if h.state.hedgeDelay.current = 0 ∨ h.config.replicaId = leader then pure [.ready slot values leader]
    else pure [.probing slot values leader]
  | .probing slot values leader => do
    let deferred ← deferForProgress env slot
    if deferred then pure [.waiting slot values] else pure [.ready slot values leader]
  | .ready slot values leader => do
    let h ← get
    if h.state.pending.contains slot then do
      let call : ProposeCall V := ⟨slot, values, some leader, h.recorders, []⟩
      modify (·.log (.proposed call))
      pure [.proposing call]
    else pure []
  | .proposing call => do
    let h ← get
    let result := env.propose h.trace call
    let decision ← request (.answered call result) result
    pure [.observing decision]
  | .observing decision => do
    let h ← get
    onState fun s => { s with hedgeDelay := s.hedgeDelay.observe (env.elapsed h.trace) }
    pure [.accepting decision]
  | .accepting decision => do
    acceptDecision env now decision
    pure []
  | .transfer slot => do
    let decisions ← beginTransfer slot
    pure [.disseminating slot decisions]
  | .disseminating slot decisions => do
    disseminateAll env decisions
    pure [.exporting slot (decisions.flatMap (·.valueIds)).toFinset]
  | .exporting slot checkpointedValueIds => do
    let applicationCheckpoint ← exportCheckpoint env slot
    pure [.sealing slot checkpointedValueIds applicationCheckpoint]
  | .sealing slot checkpointedValueIds applicationCheckpoint => do
    let outgoing ← sealTransfer env slot checkpointedValueIds applicationCheckpoint
    modify (·.log (.transferred outgoing))
    pure []
  | .install incoming => do
    installStateTransfer env incoming
    pure []
  | .schedule agreed => do
    installEpochSchedule env agreed
    pure []

end Task

inductive Node (V : Type) where
  | up (handler : NetworkConsensusHandler V) (tasks : List (Task V))
  | down (trace : List (NetworkEvent V))

inductive NodeAction (V : Type) where
  | call (task : Task V)
  /-- The task runs its next section. -/
  | run (task : Nat) (now : Instant)
  /-- The wait of a task for its hedging delay is cut short by progress. -/
  | notify (task : Nat)
  | drop (task : Nat)
  /-- The process dies in a section of the task, after some of its requests. -/
  | crash (task : Nat) (now : Instant) (requests : Nat)
  | restart (config : ReplicaRuntimeConfig) (recorders : List ReplicaId) (noop : Option V)
  /-- A membership change gets its turn once no other call is in progress; the process may
  die in it after some of its requests. -/
  | reconfigure (change : MembershipChange V) (nextRecorders : List ReplicaId) (dies : Option Nat)

namespace Node

def trace : Node V → List (NetworkEvent V)
  | .up handler _ => handler.trace
  | .down trace => trace

def upWith (n : Node V) (test : NetworkConsensusHandler V → List (Task V) → Bool) : Bool :=
  match n with
  | .up h tasks => test h tasks
  | .down _ => false

theorem exists_up {n : Node V} {test : NetworkConsensusHandler V → List (Task V) → Bool} (hn : n.upWith test = true) :
    ∃ h tasks, n = .up h tasks ∧ test h tasks = true := by
  cases n with
  | up h tasks => exact ⟨h, tasks, rfl, hn⟩
  | down trace => cases hn

def fresh : Node V := .down []

/-- A failed section ends its task. -/
def resumeWith (tasks : List (Task V)) (task : Nat) :
    EStateM.Result QuePaxaError (NetworkConsensusHandler V) (List (Task V)) → Node V
  | .ok next handler => .up handler (tasks.eraseIdx task ++ next)
  | .error _ handler => .up handler (tasks.eraseIdx task)

variable [DecidableEq V]

def step (env : NetworkEnvironment V) : Node V → NodeAction V → Node V
  | .up h tasks, .call task => if task.isCall then .up h (tasks ++ [task]) else .up h tasks
  | .up h tasks, .run i now =>
    match tasks[i]? with
    | some task => resumeWith tasks i (Task.advance env now task h)
    | none => .up h tasks
  | .up h tasks, .notify i =>
    match tasks[i]? with
    | some (.hedging slot values _) => .up h (tasks.eraseIdx i ++ [.waiting slot values])
    | _ => .up h tasks
  | .up h tasks, .drop i => .up h (tasks.eraseIdx i)
  | .up h tasks, .crash i now requests =>
    match tasks[i]? with
    | some task => .down ((after (Task.advance env now task) h).trace.take (h.trace.length + requests))
    | none => .down h.trace
  | .up h [], .reconfigure change nextRecorders none =>
    .up (after (NetworkConsensusHandler.installMembership env change nextRecorders) h) []
  | .up h [], .reconfigure change nextRecorders (some requests) =>
    .down ((after (NetworkConsensusHandler.installMembership env change nextRecorders) h).trace.take
      (h.trace.length + requests))
  | .down trace, .restart config recorders noop =>
    match NetworkConsensusHandler.new config recorders (latest NetworkEvent.stored trace) (trace ++ [.started]) with
    | .ok h => .up { h with noopValue := noop } []
    | .error _ => .down trace
  | n, _ => n

end Node

/-- Everything succeeds, except that no quorum answers a proposal. -/
def NetworkEnvironment.obliging : NetworkEnvironment V where
  save := fun _ _ => .ok ()
  execute := fun _ _ => .ok ()
  propose := fun _ _ => .error (.quorumNotReached 2 1)
  elapsed := fun _ => 0
  status := fun _ _ _ => none
  informDecisions := fun _ _ _ => .ok ()
  installMembership := fun _ _ _ => .ok ()
  exportCheckpoint := fun _ _ => .ok []
  importCheckpoint := fun _ _ _ => .ok ()

def nodeOne : ReplicaRuntimeConfig := ⟨1, 0, ⟨[1, 2, 3], 1, 0, none⟩, ReplicaConfig.default, 100, 0, true, none⟩

def slotDecision (slot : SlotIndex) : Decision Nat := ⟨slot, [slot], 2, 4⟩

/-- The decision is received, and the task at the given place runs some sections; the recovery
behind it takes two. -/
def Node.receive (decision : Decision Nat) (place sections : Nat) : List (NodeAction Nat) :=
  .call (.receiving [decision]) :: List.replicate sections (.run place 0)

end QuePaxa
