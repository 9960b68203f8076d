import QuePaxa.Core.Membership
import QuePaxa.Library.Checks
import QuePaxa.Library.PrefixCode

/-! The canonical encoding of a membership command, the input of the digest that consensus
decides on. Different configurations have different encodings: every number has eight bytes,
every list stands behind its length and the joint part behind a tag. -/
namespace QuePaxa
open Library

structure MembershipCommand where
  next : ClusterIdentity
  deriving DecidableEq, Repr

def toBeBytes (value : Nat) : List UInt8 := bigEndian 8 value

def encodeUsize (value : Nat) (bytes : List UInt8) : Result (List UInt8) := do
  require (value ≤ u64Max) (.invalidReconfiguration "membership field is too large for its canonical encoding")
  pure (bytes ++ toBeBytes value)

def encodeMembers (members : List ReplicaId) (bytes : List UInt8) : Result (List UInt8) := do
  let bytes ← encodeUsize members.length bytes
  pure (members.foldl (fun bytes member => bytes ++ toBeBytes member) bytes)

def encodeCluster (cluster : ClusterIdentity) (bytes : List UInt8) : Result (List UInt8) := do
  let bytes ← encodeUsize cluster.maxFaults (bytes ++ toBeBytes cluster.epoch)
  let bytes ← encodeMembers cluster.members bytes
  match cluster.joint with
  | some joint => do
    let bytes ← encodeUsize joint.oldMaxFaults (bytes ++ [1])
    let bytes ← encodeMembers joint.oldMembers bytes
    encodeMembers joint.newMembers bytes
  | none => pure (bytes ++ [0])

def MembershipCommand.canonicalBytes (command : MembershipCommand) : Result (List UInt8) :=
  encodeCluster command.next ("quepaxa-membership-command-v1".toList.map fun c => UInt8.ofNat c.toNat)

/-! What the encoder writes, field after field. -/

def membersCode (members : List ReplicaId) : List UInt8 := toBeBytes members.length ++ members.flatMap toBeBytes

def jointCode (joint : JointMembership) : List UInt8 :=
  toBeBytes joint.oldMaxFaults ++ (membersCode joint.oldMembers ++ membersCode joint.newMembers)

def clusterCode (cluster : ClusterIdentity) : List UInt8 :=
  toBeBytes cluster.epoch ++ (toBeBytes cluster.maxFaults ++ (membersCode cluster.members ++
    PrefixCode.tagged 0 1 jointCode cluster.joint))

def IsWord (value : Nat) : Prop := value ≤ u64Max

instance : DecidablePred IsWord := fun value => inferInstanceAs (Decidable (value ≤ u64Max))

def AreWords (members : List ReplicaId) : Prop := IsWord members.length ∧ ∀ member ∈ members, IsWord member

def JointMembership.InWords (joint : JointMembership) : Prop :=
  IsWord joint.oldMaxFaults ∧ AreWords joint.oldMembers ∧ AreWords joint.newMembers

def ClusterIdentity.InWords (cluster : ClusterIdentity) : Prop :=
  IsWord cluster.epoch ∧ IsWord cluster.maxFaults ∧ AreWords cluster.members ∧ ∀ joint ∈ cluster.joint, joint.InWords

section
variable {bytes out : List UInt8}

theorem encodeUsize_ok {value : Nat} (h : encodeUsize value bytes = .ok out) :
    IsWord value ∧ out = bytes ++ toBeBytes value := by
  simp only [encodeUsize, unit_bind_eq_ok, require_eq_ok, pure, Except.pure, Except.ok.injEq] at h
  exact ⟨h.1, h.2.symm⟩

private theorem foldl_toBeBytes (members : List ReplicaId) (bytes : List UInt8) :
    members.foldl (fun bytes member => bytes ++ toBeBytes member) bytes = bytes ++ members.flatMap toBeBytes := by
  induction members generalizing bytes with
  | nil => rw [List.foldl_nil, List.flatMap_nil, List.append_nil]
  | cons member rest ih => rw [List.foldl_cons, ih, List.flatMap_cons, List.append_assoc]

private theorem encodeMembers_ok {members : List ReplicaId} (h : encodeMembers members bytes = .ok out) :
    IsWord members.length ∧ out = bytes ++ membersCode members := by
  simp only [encodeMembers, except_bind_eq_ok, pure, Except.pure, Except.ok.injEq] at h
  obtain ⟨counted, hcount, rfl⟩ := h
  obtain ⟨hlen, rfl⟩ := encodeUsize_ok hcount
  rw [foldl_toBeBytes, membersCode, List.append_assoc]
  exact ⟨hlen, rfl⟩

end

theorem encodeCluster_ok {cluster : ClusterIdentity} {bytes out : List UInt8}
    (h : encodeCluster cluster bytes = .ok out) :
    out = bytes ++ clusterCode cluster ∧ IsWord cluster.maxFaults ∧ IsWord cluster.members.length ∧
      ∀ joint ∈ cluster.joint, IsWord joint.oldMaxFaults ∧ IsWord joint.oldMembers.length ∧
        IsWord joint.newMembers.length := by
  simp only [encodeCluster, except_bind_eq_ok] at h
  obtain ⟨faults, hfaults, members, hmembers, h⟩ := h
  obtain ⟨hf, rfl⟩ := encodeUsize_ok hfaults
  obtain ⟨hm, rfl⟩ := encodeMembers_ok hmembers
  cases hj : cluster.joint with
  | none =>
    simp only [hj, pure, Except.pure, Except.ok.injEq] at h
    subst h
    refine ⟨?_, hf, hm, fun joint hjoint => nomatch hjoint⟩
    simp only [clusterCode, hj, PrefixCode.tagged, List.append_assoc]
  | some joint =>
    simp only [hj, except_bind_eq_ok] at h
    obtain ⟨oldFaults, holdFaults, old, hold, hnew⟩ := h
    obtain ⟨hof, rfl⟩ := encodeUsize_ok holdFaults
    obtain ⟨ho, rfl⟩ := encodeMembers_ok hold
    obtain ⟨hn, rfl⟩ := encodeMembers_ok hnew
    refine ⟨?_, hf, hm, fun joint' hjoint => ?_⟩
    · simp only [clusterCode, hj, PrefixCode.tagged, jointCode, List.append_assoc, List.cons_append, List.nil_append]
    · cases hjoint
      exact ⟨hof, ho, hn⟩

/-! Each field can be told from what follows it. -/

theorem toBeBytes_code : PrefixCode IsWord toBeBytes := by
  intro a b x y ha hb h
  have hword : ∀ value, IsWord value → value < 256 ^ 8 := fun value hv => lt_of_le_of_lt hv (by decide)
  exact PrefixCode.bigEndian 8 a b x y (hword a ha) (hword b hb) h

theorem membersCode_code : PrefixCode AreWords membersCode := toBeBytes_code.counted toBeBytes_code

private theorem jointCode_code : PrefixCode JointMembership.InWords jointCode := by
  have hfields := toBeBytes_code.pair (membersCode_code.pair membersCode_code)
  have hview : Function.Injective fun j : JointMembership => (j.oldMaxFaults, j.oldMembers, j.newMembers) := by
    rintro ⟨old, faults, new⟩ ⟨old', faults', new'⟩ h
    simp only [Prod.mk.injEq] at h
    obtain ⟨rfl, rfl, rfl⟩ := h
    rfl
  exact hfields.comap hview

private theorem clusterCode_code : PrefixCode ClusterIdentity.InWords clusterCode := by
  have htag : (0 : UInt8) ≠ 1 := by decide
  have hfields := toBeBytes_code.pair (toBeBytes_code.pair (membersCode_code.pair (jointCode_code.optional htag)))
  have hview : Function.Injective fun c : ClusterIdentity => (c.epoch, c.maxFaults, c.members, c.joint) := by
    rintro ⟨members, faults, epoch, joint⟩ ⟨members', faults', epoch', joint'⟩ h
    simp only [Prod.mk.injEq] at h
    obtain ⟨rfl, rfl, rfl, rfl⟩ := h
    rfl
  exact hfields.comap hview

/-- The epoch and all identities are 64-bit integers, as they are in the source; lengths and
budgets are checked by the encoder. -/
structure ClusterIdentity.HasWordIds (cluster : ClusterIdentity) : Prop where
  epoch : IsWord cluster.epoch
  members : ∀ member ∈ cluster.members, IsWord member
  oldMembers : ∀ joint ∈ cluster.joint, ∀ member ∈ joint.oldMembers, IsWord member
  newMembers : ∀ joint ∈ cluster.joint, ∀ member ∈ joint.newMembers, IsWord member

private theorem ClusterIdentity.HasWordIds.inWords {cluster : ClusterIdentity} (h : cluster.HasWordIds)
    {bytes out : List UInt8}
    (hok : encodeCluster cluster bytes = .ok out) : cluster.InWords := by
  obtain ⟨_, hfaults, hmembers, hjoint⟩ := encodeCluster_ok hok
  refine ⟨h.epoch, hfaults, ⟨hmembers, h.members⟩, fun joint hj => ?_⟩
  obtain ⟨hof, ho, hn⟩ := hjoint joint hj
  exact ⟨hof, ⟨ho, h.oldMembers joint hj⟩, hn, h.newMembers joint hj⟩

/-- Two configurations with one canonical encoding are equal. -/
theorem MembershipCommand.canonicalBytes_injective (a b : ClusterIdentity) (ha : a.HasWordIds) (hb : b.HasWordIds)
    (bytes : List UInt8) (hbytes : MembershipCommand.canonicalBytes ⟨a⟩ = .ok bytes)
    (hbytes' : MembershipCommand.canonicalBytes ⟨b⟩ = .ok bytes) : a = b := by
  obtain ⟨hcode, _⟩ := encodeCluster_ok hbytes
  obtain ⟨hcode', _⟩ := encodeCluster_ok hbytes'
  have hsame : clusterCode a = clusterCode b := List.append_cancel_left (hcode.symm.trans hcode')
  exact clusterCode_code.injective (ha.inWords hbytes) (hb.inWords hbytes') hsame

/-- The order in which the new voters are given does not show in the encoding, because it does
not show in the configuration. -/
theorem MembershipCommand.canonicalBytes_injective_reordered :
    let stable : ClusterIdentity := ⟨[1, 2, 3], 1, 0, none⟩
    ∃ a b bytes, stable.beginJoint [2, 3, 4] 1 = .ok a ∧ stable.beginJoint [4, 3, 2] 1 = .ok b ∧
      MembershipCommand.canonicalBytes ⟨a⟩ = .ok bytes ∧ MembershipCommand.canonicalBytes ⟨b⟩ = .ok bytes ∧ a = b := by
  have hwords : (⟨[1, 2, 3, 4], 1, 1, some ⟨[1, 2, 3], 1, [2, 3, 4]⟩⟩ : ClusterIdentity).HasWordIds :=
    ⟨by decide, by decide, by decide, by decide⟩
  have hok : ∃ bytes, MembershipCommand.canonicalBytes ⟨⟨[1, 2, 3, 4], 1, 1, some ⟨[1, 2, 3], 1, [2, 3, 4]⟩⟩⟩ =
    .ok bytes :=
    ⟨_, rfl⟩
  obtain ⟨bytes, hbytes⟩ := hok
  exact ⟨_, _, bytes, by decide, by decide, hbytes, hbytes,
    MembershipCommand.canonicalBytes_injective _ _ hwords hwords bytes hbytes hbytes⟩

end QuePaxa
