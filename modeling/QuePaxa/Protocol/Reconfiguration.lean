import QuePaxa.Core.QuorumIntersection
import QuePaxa.Core.RecorderRestart
import QuePaxa.Protocol.Effects

/-! A membership change is a barrier. A recorder that has answered a later slot under the
old epoch can no longer install the change, so the two epochs share no recorder there. -/
namespace QuePaxa
open Library
variable {V : Type}
variable {r : RecorderCore V}

namespace RecorderCore

def Touched (r : RecorderCore V) (slot : SlotIndex) : Prop :=
  (r.slots.get slot).isSome ∨ slot ≤ r.prunedThrough

private theorem Touched.pruneThrough {slot : SlotIndex} (h : r.Touched slot) (floor : SlotIndex) :
    (r.pruneThrough floor).Touched slot := by
  rcases h with hslot | hfloor
  · by_cases hlt : floor < slot
    · left
      simp only [RecorderCore.pruneThrough, OrderedMap.get_retain_key]
      rwa [if_pos (by simpa using hlt)]
    · exact .inr (le_max_of_le_right (not_lt.mp hlt))
  · exact .inr (le_max_of_le_left hfloor)

private theorem touched_recorded (m : RecorderCore V) (request : RecordRequest V) :
    (m.recorded request).Touched request.slot := by
  left
  simp only [recorded, OrderedMap.get_insert, if_true, Option.isSome_some]

/-- Neither a later active slot nor a floor above the anchor lets the change in. -/
theorem Touched.not_installs {change : MembershipChange V} {slot : SlotIndex}
    (h : r.Touched slot) (hsound : r.Sound) (hlate : change.anchor.slot < slot) : ¬r.Installs change := by
  intro hi
  rcases h with hslot | hfloor
  · obtain ⟨g, hg⟩ := Option.isSome_iff_exists.mp hslot
    have hdrained := hi.drainedSlots slot ((OrderedMap.mem_keys _ _).mpr ⟨g, hg⟩)
    exact absurd hlate (not_lt.mpr hdrained)
  · have hanchor := (hsound.decisions _ _ hi.anchored).2.1
    exact absurd (hlate.trans_le hfloor) (not_lt.mpr hanchor.le)

variable [DecidableEq V]

private theorem Touched.apply {slot : SlotIndex} (h : r.Touched slot) (op : RecorderOp V) :
    (op.apply r).Touched slot := by
  apply apply_invariant (I := fun m => m.Touched slot) (fun _ _ hm _ => hm) ?_ (fun _ floor hm => hm.pruneThrough floor)
    r op (fun _ _ _ hm _ => hm) h
  intro m request hm _ _
  rcases hm with hslot | hfloor
  · left
    simp only [recorded, OrderedMap.get_insert]
    split_ifs
    · rfl
    · exact hslot
  · exact .inr hfloor

theorem apply_cluster_cases (op : RecorderOp V) (r : RecorderCore V) :
    (op.apply r).config.cluster = r.config.cluster ∨ ∃ change, op = .installMembership change ∧
      r.Installs change ∧ (op.apply r).config.cluster = change.next := by
  by_cases hop : ∃ change, op = .installMembership change ∧ r.Installs change
  · obtain ⟨change, rfl, hi⟩ := hop
    refine .inr ⟨change, rfl, hi, ?_⟩
    rw [apply_installMembership, after_ok (installMembership_of_installs hi)]
    rfl
  · exact .inl ((apply_cluster op r).mpr hop)

private theorem epoch_le_apply (op : RecorderOp V) (r : RecorderCore V) :
    r.config.cluster.epoch ≤ (op.apply r).config.cluster.epoch := by
  rcases apply_cluster_cases op r with hsame | ⟨change, _, hi, hnew⟩
  · exact le_of_eq (congrArg ClusterIdentity.epoch hsame.symm)
  · have hepoch := (ClusterIdentity.isSuccessorOf_wellFormed hi.successor).2.2
    rw [hnew, hepoch]
    exact Nat.le_succ _

/-- The recorder behind a reply: it was in the reply's epoch and now holds the slot. -/
theorem record_ok_touched {available : Availability V} {request : RecordRequest V} {r' : RecorderCore V}
    {reply : RecordReply V} (h : record available request r = .ok reply r') :
    reply.cluster = r.config.cluster ∧ r'.config.cluster = r.config.cluster ∧ r'.Touched request.slot := by
  obtain ⟨_, m, _, hsame, _, rfl, rfl⟩ := record_ok h
  have hcluster : m.config.cluster = r.config.cluster := congrArg RecorderConfig.cluster hsame.config
  exact ⟨hcluster, hcluster, touched_recorded m request⟩

end RecorderCore

namespace World

def BackedBy (w : World V) (c : Proposer × ProposeCall V) (replies : List (RecordReply V)) : Prop :=
  ∀ cluster, c.1.cluster = some cluster → cluster.hasQuorum (recordersOf replies) = true ∧
    ∀ reply ∈ replies, reply.cluster = cluster ∧ ∃ d ∈ w.deliveries,
      d.message.request.slot = c.2.slot ∧ d.message.target = reply.recorder ∧ d.reply = reply

structure Logged (w : World V) : Prop where
  sent : ∀ m ∈ w.sent, ∃ c, w.calls[m.invocation]? = some c ∧ m.request.slot = c.2.slot
  delivered : ∀ d ∈ w.deliveries, d.message ∈ w.sent
  collected : ∀ i replies, (i, replies) ∈ w.collected → ∃ c, w.calls[i]? = some c ∧ w.BackedBy c replies

/-- Where the recorders stand between the epoch `old` and its successor. -/
structure Fenced (old : ClusterIdentity) (change : MembershipChange V) (slot : SlotIndex) (w : World V) : Prop where
  sound : ∀ j, (w.recorders j).Sound
  moved : ∀ d ∈ w.deliveries, d.reply.cluster = change.next →
    change.next.epoch ≤ (w.recorders d.message.target).config.cluster.epoch
  stuck : ∀ d ∈ w.deliveries, d.reply.cluster = old → d.message.request.slot = slot →
    (w.recorders d.message.target).Touched slot ∧ (w.recorders d.message.target).config.cluster ≠ change.next
  apart : ∀ d ∈ w.deliveries, ∀ d' ∈ w.deliveries, d.reply.cluster = old → d.message.request.slot = slot →
    d'.reply.cluster = change.next → d.message.target ≠ d'.message.target

def dormant (config : ReplicaId → RecorderConfig) (past : ReplicaId → List (RecorderOp V)) [DecidableEq V] :
    World V :=
  ⟨fun j => run RecorderOp.apply (RecorderCore.new (config j)) (past j), [], [], [], []⟩

def OneChange (change : MembershipChange V) (_ : World V) : Action V → Prop
  | .install _ other => other.next = change.next → other = change
  | _ => True

variable {old : ClusterIdentity} {change : MembershipChange V} {slot : SlotIndex} {w : World V}
variable [DecidableEq V]

private theorem Logged.step (h : w.Logged) (a : Action V) : (w.step a).Logged := by
  obtain ⟨messages, hsent, hnew⟩ := sent_step w a
  have hcall : ∀ m ∈ w.sent, m ∈ (w.step a).sent := fun m hm => hsent ▸ List.mem_append_left _ hm
  have hkeep : ∀ d ∈ w.deliveries, d ∈ (w.step a).deliveries := by
    intro d hd
    rcases deliveries_step w a with hsame | ⟨m, _, reply, _, _, _, happend, _⟩
    · exact hsame ▸ hd
    · exact happend ▸ List.mem_append_left _ hd
  refine ⟨fun m hm => ?_, fun d hd => ?_, fun i replies hc => ?_⟩
  · rw [hsent] at hm
    rcases List.mem_append.mp hm with hm | hm
    · obtain ⟨c, hc, hslot⟩ := h.sent m hm
      exact ⟨c, calls_getElem hc a, hslot⟩
    · obtain ⟨c, hc, hslot⟩ := hnew m hm
      exact ⟨c, calls_getElem hc a, hslot⟩
  · rcases deliveries_step w a with hsame | ⟨m, _, reply, _, hm, _, happend, _⟩
    · exact hcall _ (h.delivered d (hsame ▸ hd))
    · rw [happend] at hd
      rcases List.mem_append.mp hd with hd | hd
      · exact hcall _ (h.delivered d hd)
      · rw [List.mem_singleton.mp hd]
        exact hcall m hm
  · have hnow : ∃ c, w.calls[i]? = some c ∧ w.BackedBy c replies := by
      rcases collected_step w a with hsame | ⟨i', inv, replies', hi, happend, ⟨quorum, hreach⟩, hall⟩
      · exact h.collected i replies (hsame ▸ hc)
      · rw [happend] at hc
        rcases List.mem_append.mp hc with hc | hc
        · exact h.collected i replies hc
        · cases List.mem_singleton.mp hc
          have hcalls : w.calls[i]? = some (inv.proposer, inv.call) := by
            rw [calls, List.getElem?_map, hi]
            rfl
          refine ⟨_, hcalls, fun cluster hcl => ⟨?_, fun reply hr => ?_⟩⟩
          · rw [show inv.proposer.cluster = some cluster from hcl] at hreach
            exact hreach
          · obtain ⟨hcluster, d, hd, hdi, htarget, hreply⟩ := hall reply hr
            obtain ⟨c, hc, hslot⟩ := h.sent d.message (h.delivered d hd)
            rw [hdi, hcalls] at hc
            cases hc
            exact ⟨hcluster cluster hcl, d, hd, hslot, htarget, hreply⟩
    obtain ⟨c, hcall, hback⟩ := hnow
    refine ⟨c, calls_getElem hcall a, fun cluster hcl => ⟨(hback cluster hcl).1, fun reply hr => ?_⟩⟩
    obtain ⟨heq, d, hd, hrest⟩ := (hback cluster hcl).2 reply hr
    exact ⟨heq, d, hkeep d hd, hrest⟩

/-- A touched recorder outside the successor epoch stays outside it. -/
private theorem stuck_step (hsound : ∀ j, (w.recorders j).Sound) (hlate : change.anchor.slot < slot)
    {a : Action V} (ha : w.OneChange change a) {j : ReplicaId} (ht : (w.recorders j).Touched slot)
    (hne : (w.recorders j).config.cluster ≠ change.next) :
    ((w.step a).recorders j).Touched slot ∧ ((w.step a).recorders j).config.cluster ≠ change.next := by
  rcases recorders_step w a j with hsame | ⟨op, hop, hinstall⟩
  · rw [hsame]
    exact ⟨ht, hne⟩
  · rw [hop]
    refine ⟨ht.apply op, ?_⟩
    rcases RecorderCore.apply_cluster_cases op (w.recorders j) with hkeep | ⟨other, rfl, hi, hnext⟩
    · rwa [hkeep]
    · intro hreached
      obtain rfl := hinstall other rfl
      have hsame : other = change := ha (hnext.symm.trans hreached)
      exact ht.not_installs (hsound j) hlate (hsame ▸ hi)

private theorem Fenced.step (h : w.Fenced old change slot) (hnext : change.next.isSuccessorOf old = true)
    (hlate : change.anchor.slot < slot) {a : Action V} (ha : w.OneChange change a) :
    (w.step a).Fenced old change slot := by
  have hepoch : change.next.epoch = old.epoch + 1 := (ClusterIdentity.isSuccessorOf_wellFormed hnext).2.2
  have hsound : ∀ j, ((w.step a).recorders j).Sound := by
    intro j
    rcases recorders_step w a j with hsame | ⟨op, hop, _⟩
    · exact hsame ▸ h.sound j
    · exact hop ▸ RecorderCore.sound_apply _ op (h.sound j)
  have hmoved : ∀ d ∈ w.deliveries, d.reply.cluster = change.next →
      change.next.epoch ≤ ((w.step a).recorders d.message.target).config.cluster.epoch := by
    intro d hd hc
    refine (h.moved d hd hc).trans ?_
    rcases recorders_step w a d.message.target with hsame | ⟨op, hop, _⟩
    · exact le_of_eq (by rw [hsame])
    · exact hop ▸ RecorderCore.epoch_le_apply op _
  have hstuck : ∀ d ∈ w.deliveries, d.reply.cluster = old → d.message.request.slot = slot →
      ((w.step a).recorders d.message.target).Touched slot ∧
        ((w.step a).recorders d.message.target).config.cluster ≠ change.next := by
    intro d hd hc hs
    obtain ⟨ht, hne⟩ := h.stuck d hd hc hs
    exact stuck_step h.sound hlate ha ht hne
  rcases deliveries_step w a with hsame | ⟨m, _, reply, r, _, hrecord, happend, hr⟩
  · exact ⟨hsound, hsame ▸ hmoved, hsame ▸ hstuck, hsame ▸ h.apart⟩
  · -- one more reply: it shows the epoch its recorder is in
    obtain ⟨hreply, hkept, htouched⟩ := RecorderCore.record_ok_touched hrecord
    have hcur : ((w.step a).recorders m.target).config.cluster = reply.cluster := by
      rw [hr, hkept, hreply]
    have hdiff : old ≠ change.next := by
      intro heq
      rw [← heq] at hepoch
      exact absurd hepoch (Nat.ne_of_lt (Nat.lt_succ_self _))
    refine ⟨hsound, ?_, ?_, ?_⟩
    all_goals rw [happend]
    · intro d hd hc
      rcases List.mem_append.mp hd with hd | hd
      · exact hmoved d hd hc
      · rw [List.mem_singleton.mp hd] at hc ⊢
        rw [hcur, hc]
    · intro d hd hc hs
      rcases List.mem_append.mp hd with hd | hd
      · exact hstuck d hd hc hs
      · rw [List.mem_singleton.mp hd] at hc hs ⊢
        refine ⟨?_, ?_⟩
        · rw [hr]
          exact hs ▸ htouched
        · rw [hcur, hc]
          exact hdiff
    · intro d hd d' hd' hc hs hc' htarget
      rcases List.mem_append.mp hd with hd | hd <;> rcases List.mem_append.mp hd' with hd' | hd'
      · exact h.apart d hd d' hd' hc hs hc' htarget
      · -- an answer under the old epoch came first
        rw [List.mem_singleton.mp hd'] at hc' htarget
        have hne := (hstuck d hd hc hs).2
        rw [htarget, hcur] at hne
        exact hne hc'
      · -- an answer under the successor came first
        rw [List.mem_singleton.mp hd] at hc htarget
        have hle := hmoved d' hd' hc'
        rw [← htarget, hcur, hc, hepoch] at hle
        exact absurd hle (Nat.not_succ_le_self _)
      · rw [List.mem_singleton.mp hd] at hc
        rw [List.mem_singleton.mp hd'] at hc'
        exact hdiff (hc.symm.trans hc')

private theorem logged_dormant (config : ReplicaId → RecorderConfig) (past : ReplicaId → List (RecorderOp V)) :
    (dormant config past).Logged := by
  constructor <;> simp [dormant]

private theorem fenced_dormant (config : ReplicaId → RecorderConfig) (past : ReplicaId → List (RecorderOp V)) :
    (dormant config past).Fenced old change slot :=
  ⟨fun j => RecorderCore.sound_run (config j) (past j), by simp [dormant], by simp [dormant], by simp [dormant]⟩

/-- Above the anchor, a proposer on the old epoch and one on its successor cannot both
collect a quorum for one slot. -/
theorem no_quorums_in_both_epochs (old : ClusterIdentity) (change : MembershipChange V)
    (hnext : change.next.isSuccessorOf old = true) (slot : SlotIndex) (hlate : change.anchor.slot < slot)
    (config : ReplicaId → RecorderConfig) (past : ReplicaId → List (RecorderOp V)) (actions : List (Action V))
    (hrun : Along World.step (fun w a => w.OneChange change a) (dormant config past) actions)
    (i i' : Nat) (replies replies' : List (RecordReply V)) (c c' : Proposer × ProposeCall V)
    (hi : (i, replies) ∈ (run World.step (dormant config past) actions).collected)
    (hi' : (i', replies') ∈ (run World.step (dormant config past) actions).collected)
    (hc : (run World.step (dormant config past) actions).calls[i]? = some c)
    (hc' : (run World.step (dormant config past) actions).calls[i']? = some c') :
    ¬(c.1.cluster = some old ∧ c.2.slot = slot ∧ c'.1.cluster = some change.next ∧ c'.2.slot = slot) := by
  rintro ⟨hold, hslot, hnew, _⟩
  have hlog : (run World.step (dormant config past) actions).Logged :=
    run_invariant_all (fun _ a hw => hw.step a) (logged_dormant config past) actions
  have hfence : (run World.step (dormant config past) actions).Fenced old change slot :=
    run_invariant (fun _ _ hw ha => hw.step hnext hlate ha) (fenced_dormant config past) hrun
  obtain ⟨_, hcall, hquorum⟩ := hlog.collected i replies hi
  obtain ⟨_, hcall', hquorum'⟩ := hlog.collected i' replies' hi'
  cases hc.symm.trans hcall
  cases hc'.symm.trans hcall'
  obtain ⟨hreach, hreplies⟩ := hquorum old hold
  obtain ⟨hreach', hreplies'⟩ := hquorum' change.next hnew
  -- the quorums share a recorder, which has then answered under both epochs
  obtain ⟨j, -, -, hj, hj'⟩ := ClusterIdentity.quorum_inter_successor hnext hreach hreach'
  simp only [recordersOf, List.mem_toFinset, List.mem_map] at hj hj'
  obtain ⟨reply, hr, rfl⟩ := hj
  obtain ⟨reply', hr', hsame⟩ := hj'
  obtain ⟨hcl, d, hd, hds, htarget, hreply⟩ := hreplies reply hr
  obtain ⟨hcl', d', hd', _, htarget', hreply'⟩ := hreplies' reply' hr'
  refine hfence.apart d hd d' hd' ?_ (hds.trans hslot) ?_ ?_
  · rw [hreply, hcl]
  · rw [hreply', hcl']
  · rw [htarget, htarget', hsame]

/-! Slot 1 is decided under the old epoch and anchors a change that lets replica 4 join. Recorder 1
answers for slot 2 under the old epoch and then refuses the change; recorders 2 and 3 install it,
and are a quorum of the joint epoch for slot 2. -/

def stable : ClusterIdentity := ⟨[1, 2, 3], 1, 0, none⟩
def joining : MembershipChange Nat :=
  ⟨⟨1, [10], 1, 4⟩, ⟨[1, 2, 3, 4], 1, 1, some ⟨[1, 2, 3], 1, [2, 3, 4]⟩⟩, 10⟩

def barrier : List (Action Nat) :=
  let proposal (v : Nat) : Proposal Nat := ⟨⟨Priority.max, 1, 1⟩, [v]⟩
  let call (c : ClusterIdentity) (slot : SlotIndex) : Action Nat :=
    .start (.async ⟨1, 1, c, 1027⟩) ⟨slot, [slot * 10], some 1, c.members, []⟩
  let tell (i : Nat) (slot : SlotIndex) (j : ReplicaId) : Action Nat :=
    .deliver ⟨i, 0, j, ⟨1, slot, some 1, 4, proposal (slot * 10), []⟩⟩ fun _ => .ok ()
  let reply (c : ClusterIdentity) (slot : SlotIndex) (j : ReplicaId) : Arrival Nat :=
    .answered j (.ok ⟨j, c, ⟨4, some (proposal (slot * 10)), none⟩, none⟩)
  [call stable 1, .send 0 (fun _ => .ok 1) [], tell 0 1 1, tell 0 1 2, .collect 0 [reply stable 1 1, reply stable 1 2],
    call stable 2, .send 1 (fun _ => .ok 1) [], tell 1 2 1, .inform 1 joining.anchor, .inform 2 joining.anchor,
    .inform 3 joining.anchor, .install 1 joining, .install 2 joining, .install 3 joining,
    call joining.next 2, .send 2 (fun _ => .ok 1) [], tell 2 2 2, tell 2 2 3,
    .collect 2 [reply joining.next 2 2, reply joining.next 2 3]]

def unanchored : World Nat := dormant (fun j => ⟨j, stable, RecorderLimits.default⟩) fun _ => []

theorem no_quorums_in_both_epochs_barrier :
    let w := run World.step unanchored barrier
    (w.recorders 1).config.cluster = stable ∧ (w.recorders 3).config.cluster = joining.next ∧
      w.collected.map (fun e => (e.1, recordersOf e.2)) = [(0, {1, 2}), (2, {2, 3})] ∧
      ¬(some stable = some stable ∧ 1 = 2 ∧ some joining.next = some joining.next ∧ 2 = 2) := by
  have hrun : Along World.step (fun w a => w.OneChange joining a) unanchored barrier :=
    ⟨trivial, trivial, trivial, trivial, trivial, trivial, trivial, trivial, trivial, trivial, trivial, fun _ => rfl,
      fun _ => rfl, fun _ => rfl, trivial, trivial, trivial, trivial, trivial, trivial⟩
  have hlog : (run World.step unanchored barrier).collected.map (fun e => (e.1, recordersOf e.2)) =
      [(0, {1, 2}), (2, {2, 3})] := by decide +kernel
  have hold : (run World.step unanchored barrier).calls[0]? =
      some (.async ⟨1, 1, stable, 1027⟩, ⟨1, [10], some 1, [1, 2, 3], []⟩) := by decide +kernel
  have hjoint : (run World.step unanchored barrier).calls[2]? =
      some (.async ⟨1, 1, joining.next, 1027⟩, ⟨2, [20], some 1, [1, 2, 3, 4], []⟩) := by decide +kernel
  obtain ⟨⟨i, replies⟩, hmem, heq⟩ := List.mem_map.mp (hlog ▸ List.mem_cons_self)
  obtain ⟨⟨i', replies'⟩, hmem', heq'⟩ := List.mem_map.mp (hlog ▸ List.mem_cons_of_mem _ List.mem_cons_self)
  obtain rfl : i = 0 := congrArg Prod.fst heq
  obtain rfl : i' = 2 := congrArg Prod.fst heq'
  exact ⟨by decide +kernel, by decide +kernel, hlog,
    no_quorums_in_both_epochs stable joining (by decide) 2 (by decide) _ _ barrier hrun 0 2 replies replies' _ _
      hmem hmem' hold hjoint⟩

end World
end QuePaxa
