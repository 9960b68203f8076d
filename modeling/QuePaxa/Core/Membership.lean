import Mathlib.Data.Finset.Card
import Mathlib.Data.List.Dedup
import Mathlib.Data.List.Sort
import QuePaxa.Core.Types

/-! Stable and joint membership epochs, their quorums and their transitions. -/
namespace QuePaxa

structure JointMembership where
  oldMembers : List ReplicaId
  oldMaxFaults : Nat
  newMembers : List ReplicaId
  deriving DecidableEq, Repr

/-- In a joint epoch `members` is the union of both voter sets and `maxFaults`
is the fault budget of the new one. -/
structure ClusterIdentity where
  members : List ReplicaId
  maxFaults : Nat
  epoch : Nat
  joint : Option JointMembership
  deriving DecidableEq, Repr

def validateFaultTolerance (replicaCount maxFaults : Nat) : Result Unit :=
  -- `2 * f + 1` is checked arithmetic on a 64-bit `usize`
  if u64Max < maxFaults * 2 + 1 then .error (.invalidProposal "fault tolerance is too large")
  else if replicaCount < maxFaults * 2 + 1 then
    let required := maxFaults * 2 + 1
    .error (.invalidProposal
      s!"{replicaCount} replicas cannot tolerate {maxFaults} crash faults; require at least {required}")
  else .ok ()

def membersAreNormalized (members : List ReplicaId) : Bool :=
  members ≠ [] ∧ members.IsChain (· < ·)

def adjacentDuplicate : List ReplicaId → Option ReplicaId
  | a :: b :: rest => if a = b then some a else adjacentDuplicate (b :: rest)
  | _ => none

def normalizeMembers (members : List ReplicaId) : Result (List ReplicaId) :=
  let members := members.insertionSort (· ≤ ·)
  if members = [] then .error .emptyCluster
  else match adjacentDuplicate members with
    | some duplicate => .error (.duplicateReplica duplicate)
    | none => .ok members

def unionMembers (old new : List ReplicaId) : List ReplicaId :=
  ((old ++ new).insertionSort (· ≤ ·)).dedup

namespace ClusterIdentity

def stable (epoch : Nat) (members : List ReplicaId) (maxFaults : Nat) : Result ClusterIdentity := do
  let members ← normalizeMembers members
  validateFaultTolerance members.length maxFaults
  pure { members, maxFaults, epoch, joint := none }

def new (members : List ReplicaId) (maxFaults : Nat) : Result ClusterIdentity := stable 0 members maxFaults

def isJoint (c : ClusterIdentity) : Bool := c.joint.isSome

def checkedEpoch (c : ClusterIdentity) : Option Nat := if c.epoch < u64Max then some (c.epoch + 1) else none

def beginJoint (c : ClusterIdentity) (newMembers : List ReplicaId) (newMaxFaults : Nat) :
    Result ClusterIdentity := do
  if c.isJoint then
    throw (.invalidReconfiguration "cannot begin a second reconfiguration from a joint epoch")
  let newMembers ← normalizeMembers newMembers
  validateFaultTolerance newMembers.length newMaxFaults
  match c.checkedEpoch with
  | none => throw .configurationEpochOverflow
  | some epoch =>
    pure { members := unionMembers c.members newMembers
           maxFaults := newMaxFaults
           epoch
           joint := some ⟨c.members, c.maxFaults, newMembers⟩ }

def finalizeJoint (c : ClusterIdentity) : Result ClusterIdentity :=
  match c.joint with
  | none => .error (.invalidReconfiguration "only a joint epoch can be finalized")
  | some joint =>
    match c.checkedEpoch with
    | none => .error .configurationEpochOverflow
    | some epoch => stable epoch joint.newMembers c.maxFaults

/-- Binary search in the source; on the sorted voter lists it is membership. -/
def contains (c : ClusterIdentity) (replica : ReplicaId) : Bool := replica ∈ c.members

def quorumSize (c : ClusterIdentity) : Nat :=
  match c.joint with
  | some joint =>
    let oldQuorum := joint.oldMembers.length - joint.oldMaxFaults
    let newQuorum := joint.newMembers.length - c.maxFaults
    let shared := min (min (joint.oldMembers.countP (· ∈ joint.newMembers)) oldQuorum) newQuorum
    oldQuorum + newQuorum - shared
  | none => c.members.length - c.maxFaults

def hasQuorum (c : ClusterIdentity) (voters : Finset ReplicaId) : Bool :=
  match c.joint with
  | some joint =>
    joint.oldMembers.length - joint.oldMaxFaults ≤ joint.oldMembers.countP (· ∈ voters) ∧
      joint.newMembers.length - c.maxFaults ≤ joint.newMembers.countP (· ∈ voters)
  | none => c.quorumSize ≤ voters.card ∧ ∀ v ∈ voters, c.contains v

def isWellFormed (c : ClusterIdentity) : Bool :=
  membersAreNormalized c.members &&
  match c.joint with
  | none => (validateFaultTolerance c.members.length c.maxFaults).isOk
  | some joint =>
    membersAreNormalized joint.oldMembers && membersAreNormalized joint.newMembers &&
    (validateFaultTolerance joint.oldMembers.length joint.oldMaxFaults).isOk &&
    (validateFaultTolerance joint.newMembers.length c.maxFaults).isOk &&
    unionMembers joint.oldMembers joint.newMembers = c.members

/-- The only two legal transitions: stable to joint and joint to stable. -/
def isSuccessorOf (c previous : ClusterIdentity) : Bool :=
  c.isWellFormed && previous.isWellFormed && previous.checkedEpoch = some c.epoch &&
  match c.joint with
  | some joint =>
    !previous.isJoint && joint.oldMembers = previous.members && joint.oldMaxFaults = previous.maxFaults
  | none =>
    match previous.joint with
    | some joint => c.members = joint.newMembers && c.maxFaults = previous.maxFaults
    | none => false

end ClusterIdentity

structure MembershipChange (V : Type) where
  anchor : Decision V
  next : ClusterIdentity
  /-- The value of the anchor whose content names `next`. -/
  commandId : V
  deriving DecidableEq, Repr

def MembershipChange.validateBinding {V : Type} [DecidableEq V] (change : MembershipChange V) : Result Unit :=
  if change.commandId ∈ change.anchor.valueIds then .ok ()
  else .error (.invalidReconfiguration "membership command ID is not present in its anchor decision")

end QuePaxa
