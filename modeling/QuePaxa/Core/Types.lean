import Mathlib.Algebra.Group.Nat.Defs
import Mathlib.Data.Prod.Lex
import Mathlib.Order.Basic
import QuePaxa.Library.OrderedMap

/-! Identifiers, proposals, decisions and recorder messages. Every identifier is a
64-bit counter of the source; the checked successors stop at its largest value. -/
namespace QuePaxa

abbrev ReplicaId := Nat
abbrev LaneId := Nat
abbrev SlotIndex := Nat
abbrev Step := Nat
abbrev Priority := Nat

def u64Max : Nat := 2^64 - 1

/-- Failures of the library. A Rust panic unwinding out of a call is `panicked`. -/
inductive QuePaxaError where
  | emptyCluster
  | emptyProposal
  | emptyDecision
  | missingProposal
  | missingValue
  | duplicateReplica (replica : ReplicaId)
  | unknownReplica (replica : ReplicaId)
  | invalidSender (replica : ReplicaId)
  | invalidRecorderReply (expected received : ReplicaId)
  | duplicateRecorderReply (replica : ReplicaId)
  | invalidQuorum (replicas quorum : Nat)
  | quorumNotReached (needed received : Nat)
  | invalidStep (step limit : Nat)
  | stepOverflow
  | slotOverflow
  | resourceLimit (resource : String) (limit : Nat)
  | invalidProposal (message : String)
  | transportError (message : String)
  | storageError (message : String)
  | configurationMismatch
  | configurationEpochOverflow
  | invalidReconfiguration (message : String)
  | conflictingDecision (slot : SlotIndex)
  | scheduleMismatch (slot : SlotIndex)
  | slotAlreadyDecided (slot : SlotIndex)
  | slotPruned (slot : SlotIndex)
  | stepLimitExceeded (limit : Nat)
  | policyError (message : String)
  | panicked (message : String)
  deriving DecidableEq, Repr

abbrev Result := Except QuePaxaError

namespace SlotIndex
def genesis : SlotIndex := 0
def checkedNext (slot : SlotIndex) : Option SlotIndex := if slot < u64Max then some (slot + 1) else none

theorem checkedNext_eq_some {slot next : SlotIndex} :
    slot.checkedNext = some next ↔ slot < u64Max ∧ next = slot + 1 := by
  unfold checkedNext
  split_ifs with h <;> simp [h, eq_comm]
end SlotIndex

namespace Step
def initial : Step := 0
def roundOnePhaseZero : Step := 4
def phase (step : Step) : Nat := step % 4
def checkedNext (step : Step) : Option Step := if step < u64Max then some (step + 1) else none
def isNextAfter (step previous : Step) : Bool := checkedNext previous = some step
end Step

namespace Priority
def max : Priority := u64Max
def isLeaderPriority (priority : Priority) : Bool := priority = max
end Priority

structure ProposalKey where
  priority : Priority
  proposerId : ReplicaId
  laneId : LaneId
  deriving DecidableEq, Repr

namespace ProposalKey
def rank (key : ProposalKey) : ℕ ×ₗ ℕ ×ₗ ℕ := toLex (key.priority, toLex (key.proposerId, key.laneId))

theorem rank_injective : Function.Injective rank := by
  rintro ⟨p, r, l⟩ ⟨p', r', l'⟩ h
  simp only [rank, EmbeddingLike.apply_eq_iff_eq, Prod.mk.injEq] at h
  obtain ⟨rfl, rfl, rfl⟩ := h
  rfl

instance : LinearOrder ProposalKey := LinearOrder.lift' rank rank_injective

theorem priority_le {a b : ProposalKey} (h : a ≤ b) : a.priority ≤ b.priority := by
  have h' : a.rank ≤ b.rank := h
  rcases (Prod.Lex.le_iff).mp h' with h' | h'
  · exact le_of_lt h'
  · exact le_of_eq h'.1
end ProposalKey

structure Proposal (V : Type) where
  key : ProposalKey
  valueIds : List V
  deriving DecidableEq, Repr

structure Decision (V : Type) where
  slot : SlotIndex
  valueIds : List V
  proposer : ReplicaId
  decidedStep : Step
  deriving DecidableEq, Repr

namespace Proposal
variable {V : Type}

def new (key : ProposalKey) (valueIds : List V) : Result (Proposal V) :=
  if valueIds = [] then .error .emptyProposal else .ok ⟨key, valueIds⟩

def withPriority (proposal : Proposal V) (priority : Priority) : Proposal V :=
  { proposal with key := { proposal.key with priority } }

def origin (proposal : Proposal V) : ReplicaId × LaneId := (proposal.key.proposerId, proposal.key.laneId)

@[simp] theorem withPriority_valueIds (p : Proposal V) (q : Priority) :
    (p.withPriority q).valueIds = p.valueIds := rfl
@[simp] theorem withPriority_origin (p : Proposal V) (q : Priority) :
    (p.withPriority q).origin = p.origin := rfl
@[simp] theorem withPriority_priority (p : Proposal V) (q : Priority) :
    (p.withPriority q).key.priority = q := rfl

theorem origin_eq_of_key_eq {p q : Proposal V} (h : p.key = q.key) : p.origin = q.origin := by
  simp [origin, h]
end Proposal

def Decision.new {V : Type} (slot : SlotIndex) (valueIds : List V) (proposer : ReplicaId)
    (decidedStep : Step) : Result (Decision V) :=
  if valueIds = [] then .error .emptyDecision else .ok ⟨slot, valueIds, proposer, decidedStep⟩

/-- The better of a held proposal and a new one; a tie keeps the held proposal. -/
def bestProposal {V : Type} (left : Option (Proposal V)) (right : Proposal V) : Proposal V :=
  match left with
  | some current => if right.key ≤ current.key then current else right
  | none => right

def maxProposalByKey {V : Type} (proposals : List (Proposal V)) : Option (Proposal V) :=
  proposals.foldl (fun best proposal => some (bestProposal best proposal)) none

end QuePaxa
