import Mathlib.Data.Finset.Card
import Mathlib.Data.Finset.SDiff
import QuePaxa.Core.Types
import QuePaxa.Library.Checks
import QuePaxa.Library.Loops

/-! The local pipeline of one replica: queued values, proposals and decisions per slot,
and the contiguous committed prefix. -/
namespace QuePaxa
open Library
variable {V : Type}

structure ReplicaConfig where
  batchSize : Nat
  pipelineLen : Nat
  maxPendingValues : Nat
  maxLogSlots : Nat
  maxTrackedValueIds : Nat
  deriving DecidableEq, Repr

def ReplicaConfig.default : ReplicaConfig := ⟨64, 1, 65536, 4096, 1048576⟩

structure LogSlot (V : Type) where
  proposed : List V
  decision : Option (Decision V)
  committed : Bool
  deriving DecidableEq, Repr

namespace LogSlot

def default : LogSlot V := ⟨[], none, false⟩

def taken (entry : LogSlot V) : Bool := entry.decision.isSome || !entry.proposed.isEmpty

end LogSlot

structure ReplicaSnapshot (V : Type) where
  log : OrderedMap SlotIndex (LogSlot V)
  pending : List V
  lastProposed : SlotIndex
  nextCommit : SlotIndex
  checkpointedThrough : SlotIndex
  seenValueIds : Finset V
  deriving DecidableEq

namespace ReplicaSnapshot

/-- The genesis slot does not count towards the log limit. -/
def retainedSlots (s : ReplicaSnapshot V) : Nat := s.log.keys.countP (· ≠ SlotIndex.genesis)

def valueIds (s : ReplicaSnapshot V) : List V :=
  s.pending ++ s.log.values.flatMap fun entry => entry.proposed ++ (entry.decision.map (·.valueIds)).getD []

end ReplicaSnapshot

/-- The live replica holds what its snapshot holds, under its limits. -/
structure ReplicaCore (V : Type) extends ReplicaSnapshot V where
  config : ReplicaConfig
  deriving DecidableEq

def freshValues [DecidableEq V] (seen : Finset V) : List V → List V
  | [] => []
  | value :: rest =>
    if value ∈ seen then freshValues seen rest else value :: freshValues (insert value seen) rest

namespace ReplicaCore

def new (config : ReplicaConfig) : ReplicaCore V where
  log := OrderedMap.insert ∅ SlotIndex.genesis ⟨[], none, true⟩
  pending := []
  lastProposed := SlotIndex.genesis
  nextCommit := 1
  checkpointedThrough := SlotIndex.genesis
  seenValueIds := ∅
  config

def snapshot (r : ReplicaCore V) : ReplicaSnapshot V := r.toReplicaSnapshot

def committedThrough (r : ReplicaCore V) : SlotIndex := r.nextCommit - 1

def checkCommitted (s : ReplicaSnapshot V) (slot : SlotIndex) : Result (SlotIndex ⊕ Unit) :=
  if slot < s.nextCommit then do
    require ((s.log.get slot).any fun entry => entry.committed && entry.decision.isSome)
      (.invalidProposal "replica snapshot skips a committed slot after its checkpoint")
    match slot.checkedNext with
    | some next => pure (.inl next)
    | none => throw .slotOverflow
  else pure (.inr ())

def restore [DecidableEq V] (config : ReplicaConfig) (s : ReplicaSnapshot V) : Result (ReplicaCore V) := do
  require (s.pending.length ≤ config.maxPendingValues) (.resourceLimit "pending value IDs" config.maxPendingValues)
  require (s.retainedSlots ≤ config.maxLogSlots) (.resourceLimit "retained log slots" config.maxLogSlots)
  require (s.seenValueIds.card ≤ config.maxTrackedValueIds)
    (.resourceLimit "tracked value IDs" config.maxTrackedValueIds)
  require (∀ value ∈ s.valueIds, value ∈ s.seenValueIds)
    (.invalidProposal "replica snapshot contains an untracked value ID")
  require ((s.log.get SlotIndex.genesis).any (·.committed) = true ∧ s.checkpointedThrough < s.nextCommit)
    (.invalidProposal "replica snapshot is missing its committed genesis slot")
  match s.checkpointedThrough.checkedNext with
  | none => throw .slotOverflow
  | some first =>
    loop (checkCommitted s) (fun _ => ()) (s.log.size + 1) first
    require (∀ e ∈ s.log.entries, e.1 ≠ SlotIndex.genesis → s.nextCommit ≤ e.1 → e.2.committed = false)
      (.invalidProposal "replica snapshot marks a future slot committed")
    pure ⟨s, config⟩

def ensureLogCapacity (r : ReplicaCore V) (slot : SlotIndex) : Result Unit :=
  require (r.log.contains slot = true ∨ r.retainedSlots < r.config.maxLogSlots)
    (.resourceLimit "retained log slots" r.config.maxLogSlots)

def nextOpenSlot (r : ReplicaCore V) : Result SlotIndex :=
  loop (fun slot : SlotIndex =>
    if (r.log.get slot).any (·.taken) then
      match slot.checkedNext with
      | some next => .ok (.inl next)
      | none => .error .slotOverflow
    else .ok (.inr slot)) id (r.log.size + 1) r.nextCommit

def inflightCount (r : ReplicaCore V) : Nat :=
  r.log.entries.countP fun e => r.nextCommit ≤ e.1 && !e.2.committed && !e.2.proposed.isEmpty

/-- Drops only committed slots, after the state machine has checkpointed them. -/
def pruneThrough (r : ReplicaCore V) (slot : SlotIndex) : ReplicaCore V :=
  let through := max (min slot r.committedThrough) r.checkpointedThrough
  { r with
    log := r.log.retain fun index entry => index = SlotIndex.genesis || through < index || !entry.committed
    checkpointedThrough := through }

def advance : EStateM QuePaxaError (ReplicaCore V) Unit := fun r =>
  match r.nextCommit.checkedNext with
  | some next => .ok () { r with nextCommit := next }
  | none => .error .slotOverflow r

def commitStep (committed : List (Decision V)) :
    EStateM QuePaxaError (ReplicaCore V) (List (Decision V) ⊕ List (Decision V)) := do
  let r ← get
  match r.log.get r.nextCommit with
  | none => pure (.inr committed)
  | some slot =>
    if slot.committed then
      advance
      pure (.inl committed)
    else match slot.decision with
      | none => pure (.inr committed)
      | some decision =>
        set { r with log := r.log.insert r.nextCommit { slot with committed := true, proposed := [] } }
        advance
        pure (.inl (committed ++ [decision]))

def commitReady : EStateM QuePaxaError (ReplicaCore V) (List (Decision V)) := do
  let r ← get
  loop commitStep id (r.log.size + 1) []

section
variable [DecidableEq V]

def enqueue (valueIds : List V) : EStateM QuePaxaError (ReplicaCore V) Unit := do
  let r ← get
  let fresh := freshValues r.seenValueIds valueIds
  check (require (r.pending.length + fresh.length ≤ r.config.maxPendingValues)
    (.resourceLimit "pending value IDs" r.config.maxPendingValues))
  check (require (r.seenValueIds.card + fresh.length ≤ r.config.maxTrackedValueIds)
    (.resourceLimit "tracked value IDs" r.config.maxTrackedValueIds))
  set { r with seenValueIds := r.seenValueIds ∪ fresh.toFinset, pending := r.pending ++ fresh }

def ensureTracking (r : ReplicaCore V) (valueIds : List V) : Result Unit :=
  require (r.seenValueIds.card + (valueIds.toFinset \ r.seenValueIds).card ≤ r.config.maxTrackedValueIds)
    (.resourceLimit "tracked value IDs" r.config.maxTrackedValueIds)

def admitProposal (r : ReplicaCore V) (slot : SlotIndex) (valueIds : List V) : Result Unit := do
  require (valueIds ≠ []) .emptyProposal
  require valueIds.Nodup (.invalidProposal "proposal contains duplicate value IDs")
  r.ensureTracking valueIds
  r.ensureLogCapacity slot

def noteProposed (slot : SlotIndex) (valueIds : List V) : EStateM QuePaxaError (ReplicaCore V) Unit := do
  let r ← get
  check (r.admitProposal slot valueIds)
  set { r with
    seenValueIds := r.seenValueIds ∪ valueIds.toFinset
    lastProposed := max r.lastProposed slot
    log := r.log.insert slot { (r.log.get slot).getD .default with proposed := valueIds } }

def nextProposal : EStateM QuePaxaError (ReplicaCore V) (Option (SlotIndex × List V)) := do
  let r ← get
  if r.config.pipelineLen ≤ r.inflightCount ∨ r.pending = [] then pure none
  else do
    let slot ← check r.nextOpenSlot
    let take := max (min r.config.batchSize r.pending.length) 1
    set { r with pending := r.pending.drop take }
    noteProposed slot (r.pending.take take)
    pure (some (slot, r.pending.take take))

def admitDecision (r : ReplicaCore V) (decision : Decision V) : Result Unit := do
  require (decision.valueIds ≠ []) .emptyDecision
  require decision.valueIds.Nodup (.invalidProposal "decision contains duplicate value IDs")
  r.ensureTracking decision.valueIds
  r.ensureLogCapacity decision.slot

/-- The own values that lost the slot; they go back to the front of the queue. -/
def requeued (entry : LogSlot V) (decision : Decision V) : List V :=
  if entry.proposed ≠ decision.valueIds then entry.proposed.filter (· ∉ decision.valueIds) else []

def applyDecision (decision : Decision V) : EStateM QuePaxaError (ReplicaCore V) (List (Decision V)) := do
  let r ← get
  check (r.admitDecision decision)
  -- a fresh default entry has no decision and no proposal, so it is always filled below
  let entry := (r.log.get decision.slot).getD .default
  match entry.decision with
  | some existing => do
    check (require (existing.valueIds = decision.valueIds) (.conflictingDecision decision.slot))
    pure []
  | none => do
    if entry.proposed ≠ [] ∧ entry.proposed ≠ decision.valueIds then
      check (require (r.pending.length + (requeued entry decision).length ≤ r.config.maxPendingValues)
        (.resourceLimit "pending value IDs" r.config.maxPendingValues))
    set { r with
      pending := requeued entry decision ++ r.pending
      log := r.log.insert decision.slot { entry with decision := some decision }
      seenValueIds := r.seenValueIds ∪ decision.valueIds.toFinset }
    commitReady

end
end ReplicaCore
end QuePaxa
