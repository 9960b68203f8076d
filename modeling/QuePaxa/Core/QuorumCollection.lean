import QuePaxa.Core.JointQuorum
import QuePaxa.Core.ProposerSpec

/-! The blocking and the async proposer collect the replies of one step with two different
loops. The blocking one asks for the quorum before it waits again, the async one after each
reply; in a stable epoch in which every member answers they come to the same result. -/
namespace QuePaxa
open Library
variable {V : Type}
variable {held replies : List (RecordReply V)} {c : ClusterIdentity} {arrivals : List (Arrival V)}
  {quorum : Nat}

namespace Arrival

def reply : Arrival V → Option (RecordReply V)
  | answered _ (.ok reply) => some reply
  | _ => none

def isSafetySignal : Arrival V → Bool
  | answered _ (.error e) => e.isSafetySignal
  | _ => false

end Arrival

/-- The replies are those that arrived up to the last one of them, and no safety signal came before it. -/
def TakenFrom (arrivals : List (Arrival V)) (held replies : List (RecordReply V)) : Prop :=
  ∃ before last rest, arrivals = before ++ .answered last.recorder (.ok last) :: rest ∧
    replies = held ++ before.filterMap Arrival.reply ++ [last] ∧ ∀ arrival ∈ before, arrival.isSafetySignal = false

section
variable {rest : List (Arrival V)} {held replies : List (RecordReply V)} {reply : RecordReply V}

theorem TakenFrom.last : TakenFrom (.answered reply.recorder (.ok reply) :: rest) held (held ++ [reply]) :=
  ⟨[], reply, rest, rfl, by simp, by simp⟩

theorem TakenFrom.after_reply (h : TakenFrom rest (held ++ [reply]) replies) (recorder : ReplicaId) :
    TakenFrom (.answered recorder (.ok reply) :: rest) held replies := by
  obtain ⟨before, last, more, rfl, rfl, hbefore⟩ := h
  refine ⟨.answered recorder (.ok reply) :: before, last, more, rfl, ?_, ?_⟩
  · simp only [List.filterMap_cons, Arrival.reply, List.append_assoc, List.cons_append, List.nil_append]
  · intro arrival harrival
    rcases List.mem_cons.mp harrival with rfl | harrival
    · rfl
    · exact hbefore arrival harrival

theorem TakenFrom.after_failure {e : QuePaxaError} (h : TakenFrom rest held replies) (recorder : ReplicaId)
    (hsafe : e.isSafetySignal = false) : TakenFrom (.answered recorder (.error e) :: rest) held replies := by
  obtain ⟨before, last, more, rfl, rfl, hbefore⟩ := h
  refine ⟨.answered recorder (.error e) :: before, last, more, rfl, ?_, ?_⟩
  · simp only [List.filterMap_cons, Arrival.reply]
  · intro arrival harrival
    rcases List.mem_cons.mp harrival with rfl | harrival
    · exact hsafe
    · exact hbefore arrival harrival

end

structure SoundQuorum (c : ClusterIdentity) (arrivals : List (Arrival V)) (replies : List (RecordReply V)) : Prop where
  distinct : (replies.map (·.recorder)).Nodup
  members : ∀ reply ∈ replies, reply.recorder ∈ c.members
  quorum : c.hasQuorum (recordersOf replies) = true
  cluster : ∀ reply ∈ replies, reply.cluster = c
  taken : TakenFrom arrivals [] replies

private theorem Gathered.sound
    (h : Gathered (some c) arrivals replies) (hmembers : ∀ id result, .answered id result ∈ arrivals → id ∈ c.members)
    (hq : c.hasQuorum (recordersOf replies) = true) (htaken : TakenFrom arrivals [] replies) :
    SoundQuorum c arrivals replies where
  distinct := h.distinct
  members reply hr := hmembers _ _ (h.collected reply hr).arrived
  quorum := hq
  cluster reply hr := (h.collected reply hr).cluster c rfl
  taken := htaken

namespace ClusterIdentity
variable {c : ClusterIdentity}

private theorem not_hasQuorum_empty (hc : c.isWellFormed = true) : ¬c.hasQuorum ∅ = true := by
  intro hq
  cases hj : c.joint with
  | none =>
    have hmajority := majority_of_stable hc hj
    simp only [hasQuorum, hj, decide_eq_true_eq] at hq
    have hzero : c.quorumSize ≤ 0 := hq.1
    omega
  | some joint =>
    have hnew := (component_normal hc (m := joint.newMembers) (f := c.maxFaults) (by simp [components, hj])).2
    simp only [hasQuorum, hj, decide_eq_true_eq, Finset.notMem_empty, decide_false, List.countP_false] at hq
    have hzero : joint.newMembers.length - c.maxFaults ≤ 0 := hq.2
    omega

private theorem hasQuorum_stable (hj : c.joint = none)
    (hdistinct : (replies.map (·.recorder)).Nodup) (hmembers : ∀ reply ∈ replies, reply.recorder ∈ c.members) :
    c.hasQuorum (recordersOf replies) = true ↔ c.quorumSize ≤ replies.length := by
  have hcard : (recordersOf replies).card = replies.length := by
    rw [recordersOf, List.toFinset_card_of_nodup hdistinct, List.length_map]
  have hall : ∀ v ∈ recordersOf replies, c.contains v = true := by
    intro v hv
    obtain ⟨reply, hreply, rfl⟩ := List.mem_map.mp (List.mem_toFinset.mp hv)
    exact decide_eq_true (hmembers reply hreply)
  simp only [hasQuorum, hj, decide_eq_true_eq, hcard]
  exact ⟨fun h => h.1, fun h => ⟨h, hall⟩⟩

end ClusterIdentity

namespace ProposerCore

theorem collectReplies_reached {cluster : Option ClusterIdentity}
    (hq : quorumReached held quorum cluster = true) (pending : Nat) (arrivals : List (Arrival V)) :
    collectReplies quorum cluster held pending arrivals = .ok held := by
  cases arrivals <;> simp only [collectReplies, hq, if_true]

section
variable {quorum : Nat} {cluster : Option ClusterIdentity} {held held' : List (RecordReply V)} {expected : ReplicaId}

theorem collectReplies_reply {reply : RecordReply V} (hheld : ¬quorumReached held quorum cluster = true)
    (ha : admitReply cluster expected held reply = .ok held') (pending : Nat) (rest : List (Arrival V)) :
    collectReplies quorum cluster held pending (.answered expected (.ok reply) :: rest) =
      collectReplies quorum cluster held' (pending - 1) rest := by
  simp only [collectReplies, hheld, ha, Bool.false_eq_true, if_false]

theorem collectReplies_refused {reply : RecordReply V} {e : QuePaxaError}
    (hheld : ¬quorumReached held quorum cluster = true) (ha : admitReply cluster expected held reply = .error e)
    (pending : Nat) (rest : List (Arrival V)) :
    collectReplies quorum cluster held pending (.answered expected (.ok reply) :: rest) = .error e := by
  simp only [collectReplies, hheld, ha, Bool.false_eq_true, if_false]

theorem collectReplies_failure (hheld : ¬quorumReached held quorum cluster = true) (e : QuePaxaError)
    (pending : Nat) (rest : List (Arrival V)) :
    collectReplies quorum cluster held pending (.answered expected (.error e) :: rest) =
      if e.isSafetySignal then .error e
      else if held.length + (pending - 1) < quorum then .error (.quorumNotReached quorum held.length)
      else collectReplies quorum cluster held (pending - 1) rest := by
  simp only [collectReplies, hheld, Bool.false_eq_true, if_false]

end

private theorem collectReplies_taken {cluster : Option ClusterIdentity}
    {pending : Nat} (hheld : ¬quorumReached held quorum cluster = true)
    (h : collectReplies quorum cluster held pending arrivals = .ok replies) : TakenFrom arrivals held replies := by
  induction arrivals generalizing held pending with
  | nil =>
    rw [collectReplies, if_neg hheld] at h
    cases h
  | cons arrival rest ih =>
    rcases arrival with ⟨expected, e | reply⟩ | _ | _
    · rw [collectReplies_failure hheld] at h
      split_ifs at h with hsafe hshort
      exact (ih hheld h).after_failure expected (Bool.eq_false_iff.mpr hsafe)
    · cases ha : admitReply cluster expected held reply with
      | error e =>
        rw [collectReplies_refused hheld ha] at h
        cases h
      | ok held' =>
        rw [collectReplies_reply hheld ha] at h
        obtain ⟨rfl, rfl, _⟩ := admitReply_ok ha
        -- the loop stops right after the reply that completes the quorum
        by_cases hq : quorumReached (held ++ [reply]) quorum cluster = true
        · rw [collectReplies_reached hq] at h
          cases h
          exact .last
        · exact (ih hq h).after_reply reply.recorder
    · simp only [collectReplies, hheld, Bool.false_eq_true, if_false, reduceCtorEq] at h
    · simp only [collectReplies, hheld, Bool.false_eq_true, if_false, reduceCtorEq] at h

end ProposerCore

namespace AsyncProposerCore

theorem collectReplies_reply {held' : List (RecordReply V)}
    {expected : ReplicaId} {reply : RecordReply V} (ha : admitReply (some c) expected held reply = .ok held')
    (pending : Nat) (rest : List (Arrival V)) :
    collectReplies quorum c held pending (.answered expected (.ok reply) :: rest) =
      if c.hasQuorum (recordersOf held') then .ok held'
      else if held'.length + (pending - 1) < quorum then .error (.quorumNotReached quorum held'.length)
      else collectReplies quorum c held' (pending - 1) rest := by
  simp only [collectReplies, ha, Except.isOk, Except.toBool, true_and]

theorem collectReplies_refused {expected : ReplicaId}
    {reply : RecordReply V} {e : QuePaxaError} (ha : admitReply (some c) expected held reply = .error e)
    (pending : Nat) (rest : List (Arrival V)) :
    collectReplies quorum c held pending (.answered expected (.ok reply) :: rest) = .error e := by
  simp only [collectReplies, ha]

theorem collectReplies_failure (c : ClusterIdentity) (quorum : Nat) (held : List (RecordReply V)) (expected : ReplicaId)
    (e : QuePaxaError) (pending : Nat) (rest : List (Arrival V)) :
    collectReplies quorum c held pending (.answered expected (.error e) :: rest) =
      if e.isSafetySignal then .error e
      else if held.length + (pending - 1) < quorum then .error (.quorumNotReached quorum held.length)
      else collectReplies quorum c held (pending - 1) rest := by
  by_cases hsafe : e.isSafetySignal = true
  · simp only [collectReplies, hsafe, if_true]
  · simp only [collectReplies, hsafe, Bool.false_eq_true, if_false, Except.isOk, Except.toBool, false_and]

private theorem collectReplies_taken {pending : Nat}
    (h : collectReplies quorum c held pending arrivals = .ok replies) : TakenFrom arrivals held replies := by
  induction arrivals generalizing held pending with
  | nil => cases h
  | cons arrival rest ih =>
    rcases arrival with ⟨expected, e | reply⟩ | _ | _
    · rw [collectReplies_failure] at h
      split_ifs at h with hsafe hshort
      exact (ih h).after_failure expected (Bool.eq_false_iff.mpr hsafe)
    · cases ha : admitReply (some c) expected held reply with
      | error e =>
        rw [collectReplies_refused ha] at h
        cases h
      | ok held' =>
        rw [collectReplies_reply ha] at h
        obtain ⟨rfl, rfl, _⟩ := admitReply_ok ha
        split_ifs at h with hq hshort
        · cases h
          exact .last
        · exact (ih h).after_reply reply.recorder
    · cases h
    · cases h

end AsyncProposerCore

def arrivalsOf (results : List (ReplicaId × Result (RecordReply V))) : List (Arrival V) :=
  results.map fun answer => .answered answer.1 answer.2

/-- Where the two loops meet: no quorum yet, and as many replies held or outstanding as one takes. -/
structure StillOpen (c : ClusterIdentity) (held : List (RecordReply V)) (pending : Nat) : Prop where
  distinct : (held.map (·.recorder)).Nodup
  members : ∀ reply ∈ held, reply.recorder ∈ c.members
  short : ¬c.hasQuorum (recordersOf held) = true
  enough : c.quorumSize ≤ held.length + pending

private theorem collectReplies_agree (hj : c.joint = none)
    (results : List (ReplicaId × Result (RecordReply V))) (hmembers : ∀ answer ∈ results, answer.1 ∈ c.members)
    (rest : List (Arrival V)) (hopen : StillOpen c held results.length) :
    ProposerCore.collectReplies c.quorumSize (some c) held results.length (arrivalsOf results ++ rest) =
      AsyncProposerCore.collectReplies c.quorumSize c held results.length (arrivalsOf results) := by
  induction results generalizing held with
  | nil =>
    -- all members are held: they would be a quorum
    exact absurd ((c.hasQuorum_stable hj hopen.distinct hopen.members).mpr hopen.enough) hopen.short
  | cons answer results ih =>
    obtain ⟨expected, result⟩ := answer
    have hexpected : expected ∈ c.members := hmembers _ List.mem_cons_self
    have hlater : ∀ answer ∈ results, answer.1 ∈ c.members := fun a ha => hmembers a (List.mem_cons_of_mem _ ha)
    have hreached : ¬quorumReached held c.quorumSize (some c) = true := hopen.short
    have henough := hopen.enough
    rw [List.length_cons] at henough
    simp only [arrivalsOf, List.map_cons, List.cons_append, List.length_cons]
    cases result with
    | error e =>
      rw [ProposerCore.collectReplies_failure hreached, AsyncProposerCore.collectReplies_failure]
      simp only [Nat.add_sub_cancel]
      by_cases hsafe : e.isSafetySignal = true
      · rw [if_pos hsafe, if_pos hsafe]
      rw [if_neg hsafe, if_neg hsafe]
      by_cases hshort : held.length + results.length < c.quorumSize
      · rw [if_pos hshort, if_pos hshort]
      rw [if_neg hshort, if_neg hshort]
      exact ih hlater ⟨hopen.distinct, hopen.members, hopen.short, by omega⟩
    | ok reply =>
      cases ha : admitReply (some c) expected held reply with
      | error e => rw [ProposerCore.collectReplies_refused hreached ha, AsyncProposerCore.collectReplies_refused ha]
      | ok held' =>
        rw [ProposerCore.collectReplies_reply hreached ha, AsyncProposerCore.collectReplies_reply ha]
        simp only [Nat.add_sub_cancel]
        obtain ⟨rfl, rfl, _, hnew⟩ := admitReply_ok ha
        by_cases hq : c.hasQuorum (recordersOf (held ++ [reply])) = true
        · have hdone : quorumReached (held ++ [reply]) c.quorumSize (some c) = true := hq
          rw [if_pos hq, ProposerCore.collectReplies_reached hdone]
        have hlen : (held ++ [reply]).length = held.length + 1 := by simp
        rw [if_neg hq, if_neg (by omega)]
        refine ih hlater ⟨nodup_recorders_concat hopen.distinct hnew, ?_, hq, by omega⟩
        intro r hr
        rcases List.mem_append.mp hr with hr | hr
        · exact hopen.members r hr
        · rw [List.mem_singleton.mp hr]
          exact hexpected

/-- In a stable epoch both proposers make the same of the members' results, in whatever order
they come and whatever the channel would deliver after them. The replies either of them
returns, in a stable or a joint epoch, are a quorum of the epoch that no safety signal preceded. -/
theorem quorum_collectors_agree (c : ClusterIdentity) (hc : c.isWellFormed = true) :
    (c.joint = none → ∀ results : List (ReplicaId × Result (RecordReply V)), (results.map Prod.fst).Perm c.members →
      ∀ rest : List (Arrival V),
        ProposerCore.collectQuorum c.quorumSize (some c) results.length (arrivalsOf results ++ rest) =
          AsyncProposerCore.collectQuorum c.quorumSize c results.length (arrivalsOf results)) ∧
    ∀ (quorum launched : Nat) (arrivals : List (Arrival V)) (replies : List (RecordReply V)),
      (∀ id result, .answered id result ∈ arrivals → id ∈ c.members) →
      (ProposerCore.collectQuorum quorum (some c) launched arrivals = .ok replies ∨
        AsyncProposerCore.collectQuorum quorum c launched arrivals = .ok replies) →
      SoundQuorum c arrivals replies := by
  constructor
  · intro hj results hperm rest
    have hlen : results.length = c.members.length := by rw [← hperm.length_eq, List.length_map]
    have hle : c.quorumSize ≤ results.length := hlen ▸ ClusterIdentity.quorumSize_le_length hc
    have hmembers : ∀ answer ∈ results, answer.1 ∈ c.members :=
      fun answer ha => hperm.mem_iff.mp (List.mem_map_of_mem ha)
    rw [ProposerCore.collectQuorum, require, if_pos hle, AsyncProposerCore.collectQuorum]
    exact collectReplies_agree hj results hmembers rest
      ⟨List.nodup_nil, (fun r hr => by cases hr), c.not_hasQuorum_empty hc, by simpa using hle⟩
  · intro quorum launched arrivals replies hmembers hok
    rcases hok with hok | hok
    · obtain ⟨hq, hgathered⟩ := ProposerCore.collectQuorum_ok hok
      simp only [ProposerCore.collectQuorum, unit_bind_eq_ok] at hok
      have hempty : ¬quorumReached ([] : List (RecordReply V)) quorum (some c) = true := c.not_hasQuorum_empty hc
      exact hgathered.sound hmembers hq (ProposerCore.collectReplies_taken hempty hok.2)
    · obtain ⟨hq, hgathered⟩ := AsyncProposerCore.collectQuorum_ok hok
      exact hgathered.sound hmembers hq (AsyncProposerCore.collectReplies_taken hok)

/-- One of three recorders fails; the replies of the other two are the quorum. -/
theorem quorum_collectors_agree_one_down :
    let c : ClusterIdentity := ⟨[1, 2, 3], 1, 0, none⟩
    let reply (id : ReplicaId) : RecordReply Nat := ⟨id, c, ⟨4, none, none⟩, none⟩
    let results : List (ReplicaId × Result (RecordReply Nat)) :=
      [(3, .ok (reply 3)), (2, .error (.transportError "down")), (1, .ok (reply 1))]
    ProposerCore.collectQuorum c.quorumSize (some c) results.length (arrivalsOf results ++ [.disconnected]) =
      AsyncProposerCore.collectQuorum c.quorumSize c results.length (arrivalsOf results) ∧
    AsyncProposerCore.collectQuorum c.quorumSize c results.length (arrivalsOf results) = .ok [reply 3, reply 1] ∧
    SoundQuorum c (arrivalsOf results) [reply 3, reply 1] := by
  intro c reply results
  obtain ⟨hagree, hsound⟩ := quorum_collectors_agree (V := Nat) c (by decide)
  have hok : AsyncProposerCore.collectQuorum c.quorumSize c results.length (arrivalsOf results) =
      .ok [reply 3, reply 1] := rfl
  refine ⟨hagree rfl results (by decide) _, hok, hsound _ _ _ _ ?_ (.inr hok)⟩
  intro id result hin
  simp only [arrivalsOf, results, List.map_cons, List.map_nil, List.mem_cons, List.not_mem_nil, or_false,
    Arrival.answered.injEq] at hin
  rcases hin with ⟨rfl, _⟩ | ⟨rfl, _⟩ | ⟨rfl, _⟩ <;> decide

end QuePaxa
