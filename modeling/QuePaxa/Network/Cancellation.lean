import QuePaxa.Library.Interruption
import QuePaxa.Network.Sections

/-! Calls that are dropped inside a locked section. The sections of a node wait for the store and
the state machine with the lock held. A call whose future is dropped there, because its caller
goes away or because `recover_inner` gives up on the other proposals after a failed one, puts
nothing back: memory stays as it is at that point, the requests made before it stand, and the
thread that serves the one in flight runs to its end some time later. -/
namespace QuePaxa
open Library
variable {V α : Type}

inductive BlockingRequest (V : Type) where
  | save (snapshot : RuntimeSnapshot V)
  | execute (decision : Decision V)
  | importCheckpoint (through : SlotIndex) (checkpoint : List UInt8)
  deriving DecidableEq

abbrev LockedSection (V α : Type) := Interruptible QuePaxaError (NetworkConsensusHandler V) (BlockingRequest V) α

/-! The sections again, with the points at which they wait. -/
namespace LockedSection
open Interruptible (atOnce waiting)
open NetworkConsensusHandler (onState onReplica onTuner request armGapNoop noteCommitted)

/-- Whoever drops the section does not get to the rollback. -/
def orRollback (before : ConsensusState V) (x : LockedSection V α) : LockedSection V α :=
  ⟨NetworkConsensusHandler.orRollback before x.run, x.waits⟩

variable (env : NetworkEnvironment V)

def persist : LockedSection V Unit := waiting (.save ·.snapshot) (NetworkConsensusHandler.persist env)

def executeOne (decision : Decision V) : LockedSection V Unit := do
  let h ← atOnce get
  Interruptible.onlyIf (decision.slot ∉ h.state.executed) do
    let result := env.execute h.trace decision
    waiting (fun _ => .execute decision) (request (.executed decision result) result)
    atOnce (onState fun s => { s with executed := insert decision.slot s.executed })
    persist env

def executeDecisions (decisions : List (Decision V)) : LockedSection V Unit := decisions.forM (executeOne env)

def executeReady : LockedSection V Unit := do
  let h ← atOnce get
  let ready := (h.state.decisions.upTo h.state.replica.committedThrough).entries.filter (·.1 ∉ h.state.executed)
  executeDecisions env (ready.map (·.2))

theorem run_executeDecisions (decisions : List (Decision V)) :
    (executeDecisions env decisions).run = NetworkConsensusHandler.executeDecisions env decisions :=
  Interruptible.run_forM _ _

theorem run_executeReady : (executeReady env).run = NetworkConsensusHandler.executeReady env :=
  funext fun _ => congrFun (run_executeDecisions env _) _

variable [DecidableEq V]

def installEpochSchedule (schedule : EpochSchedule) : LockedSection V Unit := do
  let h ← atOnce get
  atOnce (check (require (schedule.proposers.toFinset = h.config.members.toFinset ∧
    schedule.proposers.length = h.config.members.toFinset.card)
    (.policyError "an epoch schedule must contain every configured replica exactly once")))
  let changed ← atOnce (onTuner (EpochTuner.install schedule))
  Interruptible.onlyIf (changed = true) (orRollback h.state (persist env))

def acceptNew (now : Instant) (decision : Decision V) : LockedSection V Unit := do
  let h ← atOnce get
  let before := h.state
  let committed ← atOnce (onReplica (ReplicaCore.applyDecision decision))
  atOnce (onState (·.retainDecision decision))
  let _ ← atOnce (armGapNoop now)
  atOnce (NetworkConsensusHandler.orRollback before noteCommitted)
  orRollback before (persist env)
  executeDecisions env committed

def acceptDecision (now : Instant) (decision : Decision V) : LockedSection V Unit := do
  let h ← atOnce get
  match h.state.decisions.get decision.slot with
  | some existing => do
    atOnce (check (require (existing.valueIds = decision.valueIds) (.conflictingDecision decision.slot)))
    let _ ← atOnce (armGapNoop now)
    executeReady env
  | none => acceptNew env now decision

def recoverLocked (now : Instant) : LockedSection V (List (SlotIndex × List V)) := do
  let h ← atOnce get
  let armed ← atOnce (armGapNoop now)
  Interruptible.onlyIf (armed = true) (orRollback h.state (persist env))
  executeReady env
  let h ← atOnce get
  pure h.state.pending.entries

def enqueueSubmission (valueIds : List V) : LockedSection V Unit := do
  let h ← atOnce get
  atOnce (check (require (valueIds.length ≤ h.config.replica.batchSize)
    (.resourceLimit "values in one network submission" h.config.replica.batchSize)))
  atOnce (check (require valueIds.Nodup (.invalidProposal "network submission contains duplicate value IDs")))
  atOnce (onReplica (ReplicaCore.enqueue valueIds))
  orRollback h.state (persist env)

def claimNext : LockedSection V (NetworkConsensusHandler.SubmissionTurn V) := do
  let h ← atOnce get
  match ← atOnce (onReplica ReplicaCore.nextProposal) with
  | none => pure .wait
  | some (slot, values) => do
    atOnce (onState fun s => { s with pending := s.pending.insert slot values })
    orRollback h.state (persist env)
    pure (.propose slot values)

def submissionTurn (valueIds : List V) : LockedSection V (NetworkConsensusHandler.SubmissionTurn V) := do
  let h ← atOnce get
  match h.state.decisionFor valueIds with
  | some decision => pure (.committed decision)
  | none =>
    match h.state.pending.entries.find? fun e => valueIds.all (· ∈ e.2) with
    | some (slot, values) => pure (.propose slot values)
    | none => claimNext env

def sealTransfer (slot : SlotIndex) (checkpointedValueIds : Finset V) (applicationCheckpoint : List UInt8) :
    LockedSection V (StateTransferSnapshot V) := do
  let h ← atOnce get
  atOnce (check (require (slot ≤ h.state.replica.committedThrough ∧ (h.state.pending.upTo slot).keys = [])
    (.invalidProposal "runtime changed while preparing its state-transfer checkpoint")))
  let before := h.state
  atOnce (onState (·.pruned slot))
  let h ← atOnce get
  orRollback before (persist env)
  pure { through := slot, checkpointedValueIds, applicationCheckpoint, runtime := h.snapshot }

def installStateTransfer (transfer : StateTransferSnapshot V) : LockedSection V Unit := do
  let h ← atOnce get
  atOnce (check (require (transfer.through = transfer.runtime.replica.checkpointedThrough ∧
    transfer.runtime.cluster = h.config.cluster ∧ transfer.runtime.protocol = h.config.protocolIdentity)
    .configurationMismatch))
  let replacement ← atOnce (check (ConsensusState.restore h.config transfer.runtime))
  atOnce (check (replacement.validateState h.config))
  let imported := env.importCheckpoint h.trace transfer.through transfer.applicationCheckpoint
  waiting (fun _ => .importCheckpoint transfer.through transfer.applicationCheckpoint)
    (request (.imported transfer.through transfer.applicationCheckpoint imported) imported)
  let h ← atOnce get
  let result := env.save h.trace transfer.runtime
  waiting (fun _ => .save transfer.runtime) (request (.saved transfer.runtime result) result)
  atOnce (onState fun _ => replacement)

def activate (change : MembershipChange V) (nextRecorders : List ReplicaId) : LockedSection V Unit where
  run := NetworkConsensusHandler.activate env change nextRecorders
  waits h := (persist env).waits (h.reconfigured change nextRecorders)

def installMembership (change : MembershipChange V) (nextRecorders : List ReplicaId) : LockedSection V Unit := do
  atOnce (check change.validateBinding)
  let h ← atOnce get
  if change.next = h.config.cluster then do
    atOnce (check (validateAsyncRecorders change.next nextRecorders))
    atOnce (set { h with recorders := nextRecorders })
  else do
    atOnce (check (require (change.next.isSuccessorOf h.config.cluster)
      (.invalidReconfiguration "membership transition does not follow the network runtime epoch")))
    atOnce (check (validateAsyncRecorders change.next nextRecorders))
    atOnce (check (h.ensureDrained change))
    atOnce (NetworkConsensusHandler.disseminateAll env h.state.decisions.values)
    let results ← atOnce (gather (NetworkConsensusHandler.installOn env change) nextRecorders)
    atOnce (results.forM fun result => check result)
    activate env change nextRecorders

/-! Run to their ends they are the sections of the handler. -/

private theorem run_acceptNew (now : Instant) (decision : Decision V) :
    (acceptNew env now decision).run = NetworkConsensusHandler.acceptNew env now decision := by
  have hexecute : (fun committed => (executeDecisions env committed).run) =
    NetworkConsensusHandler.executeDecisions env :=
    funext (run_executeDecisions env)
  rw [NetworkConsensusHandler.acceptNew, ← hexecute]
  rfl

private theorem run_acceptDecision (now : Instant) (decision : Decision V) :
    (acceptDecision env now decision).run = NetworkConsensusHandler.acceptDecision env now decision := by
  rw [NetworkConsensusHandler.acceptDecision, ← run_acceptNew, ← run_executeReady]
  refine congrArg (get >>= ·) (funext fun h => ?_)
  beta_reduce
  cases h.state.decisions.get decision.slot <;> rfl

private theorem run_recoverLocked (now : Instant) :
    (recoverLocked env now).run = NetworkConsensusHandler.recoverLocked env now := by
  rw [NetworkConsensusHandler.recoverLocked, ← run_executeReady]
  rfl

private theorem run_claimNext : (claimNext env).run = NetworkConsensusHandler.claimNext env := by
  refine congrArg (get >>= ·) (funext fun h => congrArg (onReplica ReplicaCore.nextProposal >>= ·)
    (funext fun claim => ?_))
  cases claim <;> rfl

private theorem run_submissionTurn (valueIds : List V) :
    (submissionTurn env valueIds).run = NetworkConsensusHandler.submissionTurn env valueIds := by
  rw [NetworkConsensusHandler.submissionTurn, ← run_claimNext]
  refine congrArg (get >>= ·) (funext fun h => ?_)
  beta_reduce
  cases h.state.decisionFor valueIds with
  | some decision => rfl
  | none => cases h.state.pending.entries.find? fun e => valueIds.all (· ∈ e.2) <;> rfl

theorem run_installMembership (change : MembershipChange V) (nextRecorders : List ReplicaId) :
    (installMembership env change nextRecorders).run = NetworkConsensusHandler.installMembership env change
      nextRecorders := by
  refine congrArg (check change.validateBinding >>= ·) (funext fun _ => congrArg (get >>= ·) (funext fun h => ?_))
  beta_reduce
  split_ifs <;> rfl

end LockedSection

namespace Task
open Interruptible (atOnce)
variable [DecidableEq V] (env : NetworkEnvironment V)

/-- The section a task runs next; the tasks not named wait for nothing with the lock held. -/
def lockedSection (now : Instant) : Task V → LockedSection V (List (Task V))
  | .submit valueIds => do
    LockedSection.enqueueSubmission env valueIds
    pure [.submitting valueIds]
  | .submitting valueIds => do
    match ← LockedSection.submissionTurn env valueIds with
    | .committed _ => pure []
    | .propose slot values => pure [.submitting valueIds, .waiting slot values]
    | .wait => pure [.submitting valueIds]
  | .receiving (decision :: rest) => do
    LockedSection.acceptDecision env now decision
    pure [.receiving rest]
  | .recovering => do
    let pending ← LockedSection.recoverLocked env now
    pure (pending.map fun e => .waiting e.1 e.2)
  | .accepting decision => do
    LockedSection.acceptDecision env now decision
    pure []
  | .sealing slot checkpointedValueIds applicationCheckpoint => do
    let outgoing ← LockedSection.sealTransfer env slot checkpointedValueIds applicationCheckpoint
    atOnce (modify (·.log (.transferred outgoing)))
    pure []
  | .install incoming => do
    LockedSection.installStateTransfer env incoming
    pure []
  | .schedule agreed => do
    LockedSection.installEpochSchedule env agreed
    pure []
  | task => atOnce (task.advance env now)

theorem run_lockedSection (now : Instant) (task : Task V) :
    (task.lockedSection env now).run = task.advance env now := by
  cases task with
  | submitting valueIds =>
    rw [advance, ← LockedSection.run_submissionTurn]
    refine congrArg (_ >>= ·) (funext fun turn => ?_)
    cases turn <;> rfl
  | receiving decisions =>
    cases decisions with
    | nil => rfl
    | cons decision rest =>
      rw [advance, ← LockedSection.run_acceptDecision]
      rfl
  | recovering =>
    rw [advance, ← LockedSection.run_recoverLocked]
    rfl
  | accepting decision =>
    rw [advance, ← LockedSection.run_acceptDecision]
    rfl
  | _ => rfl

end Task

/-- A node with the threads that have outlived the calls they served. -/
structure NodeProcess (V : Type) where
  node : Node V
  detached : List (BlockingRequest V)

inductive NodeProcessAction (V : Type) where
  | act (action : NodeAction V)
  /-- The task is dropped while the request numbered `wait` of its section is out. -/
  | cancel (task : Nat) (now : Instant) (wait : Nat)
  | cancelChange (change : MembershipChange V) (nextRecorders : List ReplicaId) (wait : Nat)
  /-- A thread whose call is gone comes to its end. -/
  | land (thread : Nat)

def NetworkConsensusHandler.land (env : NetworkEnvironment V) (h : NetworkConsensusHandler V) :
    BlockingRequest V → NetworkConsensusHandler V
  | .save snapshot => h.log (.saved snapshot (env.save h.trace snapshot))
  | .execute decision => h.log (.executed decision (env.execute h.trace decision))
  | .importCheckpoint through checkpoint =>
    h.log (.imported through checkpoint (env.importCheckpoint h.trace through checkpoint))

namespace NodeProcess

def fresh : NodeProcess V := ⟨.fresh, []⟩

def upWith (p : NodeProcess V) (test : NetworkConsensusHandler V → List (Task V) → List (BlockingRequest V) → Bool) :
    Bool :=
  p.node.upWith fun h tasks => test h tasks p.detached

theorem exists_up {p : NodeProcess V}
    {test : NetworkConsensusHandler V → List (Task V) → List (BlockingRequest V) → Bool}
    (hp : p.upWith test = true) : ∃ h tasks detached, p = ⟨.up h tasks, detached⟩ ∧ test h tasks detached = true := by
  obtain ⟨h, tasks, hnode, htest⟩ := Node.exists_up hp
  exact ⟨h, tasks, p.detached, congrArg (NodeProcess.mk · p.detached) hnode, htest⟩

/-- No call is dropped inside a section, and what the node itself does meets the condition. -/
def Uncancelled (c : Node V → NodeAction V → Prop) : NodeProcess V → NodeProcessAction V → Prop
  | p, .act action => c p.node action
  | _, .land _ => True
  | _, .cancel .. | _, .cancelChange .. => False

instance (c : Node V → NodeAction V → Prop) [∀ n a, Decidable (c n a)] (p : NodeProcess V) :
    (a : NodeProcessAction V) → Decidable (Uncancelled c p a)
  | .act action => inferInstanceAs (Decidable (c p.node action))
  | .land _ => .isTrue trivial
  | .cancel .. | .cancelChange .. => .isFalse id

theorem Uncancelled.mono {c c' : Node V → NodeAction V → Prop} (h : ∀ n a, c n a → c' n a) (p : NodeProcess V)
    (a : NodeProcessAction V) (ha : Uncancelled c p a) : Uncancelled c' p a := by
  cases a with
  | act action => exact h _ _ ha
  | land => trivial
  | cancel | cancelChange => exact ha

def acts (actions : List (NodeProcessAction V)) : List (NodeAction V) :=
  actions.filterMap fun
    | .act action => some action
    | _ => none

variable [DecidableEq V]

/-- Threads end with the process. -/
def step (env : NetworkEnvironment V) : NodeProcess V → NodeProcessAction V → NodeProcess V
  | ⟨n, detached⟩, .act action =>
    ⟨n.step env action, if (n.step env action).upWith (fun _ _ => true) then detached else []⟩
  | ⟨.up h tasks, detached⟩, .cancel i now wait =>
    match tasks[i]?.bind fun task => ((task.lockedSection env now).waits h)[wait]? with
    | some (h', request) => ⟨.up h' (tasks.eraseIdx i), detached ++ [request]⟩
    | none => ⟨.up h tasks, detached⟩
  | ⟨.up h [], detached⟩, .cancelChange change nextRecorders wait =>
    match ((LockedSection.installMembership env change nextRecorders).waits h)[wait]? with
    | some (h', request) => ⟨.up h' [], detached ++ [request]⟩
    | none => ⟨.up h [], detached⟩
  | ⟨.up h tasks, detached⟩, .land i =>
    match detached[i]? with
    | some request => ⟨.up (h.land env request) tasks, detached.eraseIdx i⟩
    | none => ⟨.up h tasks, detached⟩
  | p, _ => p

variable {env : NetworkEnvironment V} {c : Node V → NodeAction V → Prop} {n : Node V}

/-- Without such drops no thread is ever left over, and the node runs by itself. -/
theorem run_uncancelled {actions : List (NodeProcessAction V)} (h : Along (step env) (Uncancelled c) ⟨n, []⟩ actions) :
    run (step env) ⟨n, []⟩ actions = ⟨run (Node.step env) n (acts actions), []⟩ ∧
      Along (Node.step env) c n (acts actions) := by
  induction actions generalizing n with
  | nil => exact ⟨rfl, trivial⟩
  | cons a actions ih =>
    cases a with
    | act action =>
      have hstep : step env ⟨n, []⟩ (.act action) = ⟨n.step env action, []⟩ := by simp only [step, ite_self]
      have hrest := h.2
      rw [hstep] at hrest
      obtain ⟨hrun, halong⟩ := ih hrest
      refine ⟨?_, h.1, halong⟩
      rw [run_cons, hstep, hrun]
      rfl
    | land i =>
      have hstep : step env ⟨n, []⟩ (.land i) = ⟨n, []⟩ := by cases n <;> rfl
      have hrest := h.2
      rw [hstep] at hrest
      rw [run_cons, hstep]
      exact ih hrest
    | cancel | cancelChange => exact h.1.elim

end NodeProcess
end QuePaxa
