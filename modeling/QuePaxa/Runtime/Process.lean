import QuePaxa.Library.Runs
import QuePaxa.Runtime.Moves

/-! A replica process over its lifetimes: the calls of a runtime, crashes in the middle of
a call, and restarts from the snapshot saved last. -/
namespace QuePaxa
open Library
variable {V : Type}

namespace ReplicaRuntime
variable [DecidableEq V] (env : Environment V)

def perform : RuntimeOp V → EStateM QuePaxaError (ReplicaRuntime V) Unit
  | .submit valueIds => submit env valueIds
  | .installEpochSchedule schedule => installEpochSchedule env schedule
  | .installMembership change nextRecorders => installMembership env change nextRecorders
  | .armAvailable now => do let _ ← armAvailable env now
  | .poll now => do let _ ← poll env now
  | .receiveDecision decision => do let _ ← receiveDecision env decision
  | .recover => do let _ ← recover env
  | .checkpointThrough slot => checkpointThrough env slot
  | .createStateTransfer slot => do let _ ← createStateTransfer env slot

variable {env} {I : ReplicaRuntime V → Prop} {op : RuntimeOp V} (hM : ∀ r r', I r → Move env op r r' → I r')
include hM

theorem keeps_perform (h : op.arms = false) : Keeps I (perform env op) := by
  cases op with
  | submit values => exact keeps_submit hM
  | installEpochSchedule schedule => exact keeps_installEpochSchedule hM
  | installMembership change next => exact keeps_installMembership hM
  | armAvailable | poll => cases h
  | receiveDecision d => exact Keeps.bind (keeps_acceptDecision hM (.inl rfl)) fun _ => Keeps.pure _
  | recover => exact Keeps.bind (keeps_recover hM) fun _ => Keeps.pure _
  | checkpointThrough slot => exact keeps_checkpointThrough hM (.inl rfl)
  | createStateTransfer slot => exact Keeps.bind (keeps_createStateTransfer hM) fun _ => Keeps.pure _

variable (hA : op.arms = true → ∀ r r', I r → Arming r r' → I r')
include hA

theorem keeps_armAvailable (harms : op.arms = true) (now : Instant) : Keeps I (armAvailable env now) := by
  have hI : ∀ r r', I r → Quiet env r r' → I r' := fun r r' hr hq => hM r r' hr (.quiet hq)
  refine Keeps.bind (keeps_armProposals (hA harms)) fun changed => ?_
  refine Keeps.bind (Keeps.onlyIf fun _ => keeps_persist hI) fun _ => ?_
  exact Keeps.bind (keeps_assignDeadlines hI now) fun _ => Keeps.bind Keeps.get fun _ => Keeps.pure _

/-- What every move and every claim of a call preserves, the call preserves. -/
theorem keeps_every_call : Keeps I (perform env op) := by
  cases op with
  | armAvailable now => exact Keeps.bind (keeps_armAvailable hM hA rfl now) fun _ => Keeps.pure _
  | poll now =>
    have hflush := keeps_flushDecisionNotifications fun r r' hr hq => hM r r' hr (.quiet hq)
    refine Keeps.bind (Keeps.bind hflush fun _ => ?_) fun _ => Keeps.pure _
    exact Keeps.bind (keeps_armAvailable hM hA rfl now) fun armed => keeps_pollLoop hM rfl (armed + 1)
  | _ => exact keeps_perform hM rfl

end ReplicaRuntime

def Environment.obliging : Environment V where
  save _ _ := .ok ()
  execute _ _ := .ok ()
  committed _ _ := .ok ()
  inform _ _ _ := .ok ()
  status _ _ _ := none
  propose _ _ := .error (.quorumNotReached 2 1)
  elapsed _ := 0
  installMembership _ _ _ := .ok ()
  exportCheckpoint _ _ := .ok []
  importCheckpoint _ _ _ := .ok ()

inductive Process (V : Type) where
  | up (runtime : ReplicaRuntime V)
  | down (trace : List (Event V))

def Process.trace : Process V → List (Event V)
  | .up runtime => runtime.trace
  | .down trace => trace

def Process.passes (p : Process V) (test : ReplicaRuntime V → Bool) : Bool :=
  match p with
  | .up r => test r
  | .down _ => false

theorem Process.up_of_passes {p : Process V} {test : ReplicaRuntime V → Bool} (hp : p.passes test = true) :
    ∃ r, p = .up r ∧ test r = true := by
  cases p with
  | up r => exact ⟨r, rfl, hp⟩
  | down trace => cases hp

inductive ProcessAction (V : Type) where
  | call (op : RuntimeOp V)
  /-- The process dies during the call, after some of its requests. -/
  | crash (op : RuntimeOp V) (requests : Nat)
  | restart (config : ReplicaRuntimeConfig) (proposer : ProposerCore) (recorders : List ReplicaId) (noop : Option V)

namespace Process
variable [DecidableEq V]

def step (env : Environment V) : Process V → ProcessAction V → Process V
  | .up r, .call op => .up (after (ReplicaRuntime.perform env op) r)
  | .up r, .crash op requests =>
    .down ((after (ReplicaRuntime.perform env op) r).trace.take (r.trace.length + requests))
  | .down trace, .restart config proposer recorders noop =>
    match ReplicaRuntime.new config proposer recorders (lastSaved trace) (trace ++ [.started]) with
    | .ok r => .up (noop.elim r r.withNoopValue)
    | .error _ => .down trace
  | p, _ => p

def fresh : Process V := .down []

end Process
end QuePaxa
