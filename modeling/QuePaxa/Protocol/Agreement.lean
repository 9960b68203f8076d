import QuePaxa.Protocol.Concluding
import QuePaxa.Protocol.Delivery
import QuePaxa.Protocol.Effects

/-! Agreement within one configuration. Two lanes of the round-one leader may hold the
reserved priority with different values; without that, all decisions of a slot agree. -/
namespace QuePaxa
open Library
variable {V : Type}

namespace World

def initial (C : ClusterIdentity) (limits : ReplicaId → RecorderLimits) : World V :=
  ⟨fun j => RecorderCore.new ⟨j, C, limits j⟩, [], [], [], []⟩

/-- The environment of one slot in one configuration: proposers use the cluster, one lane
of a replica proposes one value list, priorities stay below the reserved one, and only
returned decisions are passed on. -/
def Permitted (C : ClusterIdentity) (slot : SlotIndex) (w : World V) : Action V → Prop
  | .start proposer call =>
    (call.slot = slot → proposer.cluster = some C ∧
      ∀ inv ∈ w.invocations, inv.call.slot = slot → inv.proposer.replicaId = proposer.replicaId →
        inv.proposer.laneId = proposer.laneId → inv.call.valueIds = call.valueIds) ∧
    ∀ d ∈ call.knownDecisions, d.slot = slot → w.Returned d
  | .send _ draws _ => ∀ id q, draws id = .ok q → 1 ≤ q ∧ q < Priority.max
  | .inform _ d => d.slot = slot → w.Returned d
  | .install _ _ => False
  | .deliver _ _ => True
  | .collect _ _ => True
  | .prune _ _ => True

def OneLeaderValue (slot : SlotIndex) (w : World V) : Action V → Prop
  | .start proposer call => call.slot = slot → call.leader = some proposer.replicaId →
    ∀ inv ∈ w.invocations, inv.call.slot = slot → inv.call.leader = some inv.proposer.replicaId →
      inv.proposer.replicaId = proposer.replicaId → inv.call.valueIds = call.valueIds
  | _ => True

/-- Two calls of one replica for the slot that share a lane, or both claim the leader's
priority, propose the same values. -/
def Compatible (slot : SlotIndex) (a b : Proposer × ProposeCall V) : Prop :=
  a.2.slot = slot → b.2.slot = slot → a.1.replicaId = b.1.replicaId →
    a.1.laneId = b.1.laneId ∨ (a.2.leader = some a.1.replicaId ∧ b.2.leader = some b.1.replicaId) →
    a.2.valueIds = b.2.valueIds

def Contract (slot : SlotIndex) (w : World V) : Prop := ∀ a ∈ w.calls, ∀ b ∈ w.calls, Compatible slot a b

variable {C : ClusterIdentity} {slot : SlotIndex} {w : World V}

theorem consistent_initial (limits : ReplicaId → RecorderLimits) :
    (initial C limits : World V).Consistent C slot := by
  constructor <;> try simp [initial]
  intro j
  exact ⟨rfl, by simp [RecorderCore.new], by simp [RecorderCore.new], fun _ => .inl rfl, by simp⟩

private theorem Compatible.symm {a b : Proposer × ProposeCall V} (h : Compatible slot a b) : Compatible slot b a :=
  fun hb ha hid hor => (h ha hb hid.symm (hor.imp Eq.symm And.symm)).symm

private theorem Contract.of_invocations (h : w.Contract slot) {x y : Invocation V} (hx : x ∈ w.invocations)
    (hy : y ∈ w.invocations) : Compatible slot (x.proposer, x.call) (y.proposer, y.call) :=
  h _ (List.mem_map_of_mem hx) _ (List.mem_map_of_mem hy)

section
variable [DecidableEq V]

theorem Contract.step (h : w.Contract slot) {a : Action V} (ha : w.Permitted C slot a)
    (hone : w.OneLeaderValue slot a) : (w.step a).Contract slot := by
  rcases calls_step w a with hsame | ⟨proposer, call, rfl, hnew⟩
  · rw [Contract, hsame]
    exact h
  · have hold : ∀ x ∈ w.calls, Compatible slot x (proposer, call) := by
      intro x hx hxs hs hid hor
      obtain ⟨inv, hinv, rfl⟩ := List.mem_map.mp hx
      rcases hor with hlane | ⟨hl, hl'⟩
      · exact (ha.1 hs).2 inv hinv hxs hid hlane
      · exact hone hs hl' inv hinv hxs hl hid
    rw [Contract, hnew]
    intro x hx y hy
    rcases List.mem_append.mp hx with hx | hx <;> rcases List.mem_append.mp hy with hy | hy
    · exact h x hx y hy
    · rw [List.mem_singleton.mp hy]; exact hold x hx
    · rw [List.mem_singleton.mp hx]; exact (hold y hy).symm
    · rw [List.mem_singleton.mp hx, List.mem_singleton.mp hy]; exact fun _ _ _ _ => rfl

theorem Consistent.step (h : w.Consistent C slot) {a : Action V} (ha : w.Permitted C slot a) :
    (w.step a).Consistent C slot := by
  cases a with
  | start proposer call => exact h.start (fun hs => (ha.1 hs).1) ha.2
  | send i draws busy => exact h.send (fun id q hq => (ha id q hq).2) busy
  | deliver m available => exact h.deliver m available
  | collect i arrivals => exact h.collect i arrivals
  | inform j d => exact h.setRecorder ((h.recorders j).inform ha)
  | prune j s => exact h.setRecorder ((h.recorders j).prune s)
  | install j change => exact absurd ha id

end

/-- The reserved priority at the first step: who sent it, and under which leader. -/
private theorem Consistent.leader_of_recorded (h : w.Consistent C slot) {j : ReplicaId} {p : Proposal V}
    (hp : p ∈ (w.history j slot).recorded 4) (hmax : Priority.max ≤ p.key.priority) :
    ∃ inv ∈ w.invocations, inv.call.slot = slot ∧ p = inv.firstProposal ∧
      inv.call.leader = some inv.proposer.replicaId ∧
      ∃ d ∈ w.deliveries, d.message.target = j ∧ d.message.request.slot = slot ∧
        d.message.request.roundOneLeader = some inv.proposer.replicaId := by
  obtain ⟨d, hd, htarget, hslot, _, hstep, hprop⟩ := mem_history.mp (History.mem_recorded.mp hp)
  have hsent := h.sent d.message (h.delivered d hd) hslot
  rcases hsent.leader hstep with hlt | ⟨inv, hinv, hs, hfirst, hlead, hreq⟩
  · rw [hprop] at hlt
    exact absurd hmax (not_le.mpr hlt)
  · exact ⟨inv, hinv, hs, hprop ▸ hfirst, hlead, d, hd, htarget, hslot, hreq.trans hlead⟩

/-- A consistent world under the contract is a sound run of the rounds. -/
theorem Consistent.sound (h : w.Consistent C slot) (hc : w.Contract slot) (hC : C.isWellFormed = true) :
    (w.rounds C slot).Sound := by
  have hinter : ∀ Q Q', (w.rounds C slot).quorum Q → (w.rounds C slot).quorum Q' → ∃ j, j ∈ Q ∧ j ∈ Q' := by
    rintro Q Q' ⟨⟨F, hF, hQ⟩, _⟩ ⟨⟨F', hF', hQ'⟩, _⟩
    obtain ⟨j, -, hj, hj'⟩ := ClusterIdentity.quorum_inter hC hF hF'
    exact ⟨j, (hQ j).mpr hj, (hQ' j).mpr hj'⟩
  refine ⟨hinter, fun j s p hp => h.held_of_recorded hp, ?_, ?_⟩
  · intro j s p hp j' s' q hq hkey
    obtain ⟨x, hx, hxs, hxo, hxv⟩ := h.authentic_of_recorded hp
    obtain ⟨y, hy, hys, hyo, hyv⟩ := h.authentic_of_recorded hq
    have horigin : x.firstProposal.origin = y.firstProposal.origin := by
      rw [← hxo, ← hyo]
      exact Proposal.origin_eq_of_key_eq hkey
    simp only [Proposal.origin, Invocation.firstProposal, Prod.mk.injEq] at horigin
    exact hxv.trans ((hc.of_invocations hx hy hxs hys horigin.1 (.inl horigin.2)).trans hyv.symm)
  · intro p Q hfast Q' hQ' j hj f hf hle
    -- both proposals hold the reserved priority, so each comes from the leader it was sent under
    obtain ⟨i, hi, hfirst⟩ := hfast.some
    obtain ⟨x, hx, hxs, hxp, hxl, dx, hdx, hxt, hxsl, hxlead⟩ :=
      h.leader_of_recorded (History.mem_of_firstAt hfirst) (le_of_eq hfast.reserved.symm)
    obtain ⟨y, hy, hys, hyp, hyl, dy, hdy, hyt, hysl, hylead⟩ :=
      h.leader_of_recorded hf (hfast.reserved ▸ ProposalKey.priority_le hle)
    -- the two quorums meet in a recorder bound to one leader
    obtain ⟨k, hk, hk'⟩ := hinter Q Q' hfast.quorum hQ'
    obtain ⟨_, leader, hall⟩ := hfast.quorum
    obtain ⟨_, leader', hall'⟩ := hQ'
    have hsame : ∀ {q : ReplicaId} {l l' : Option ReplicaId},
        (∃ d ∈ w.deliveries, d.message.target = q ∧ d.message.request.slot = slot ∧
          d.message.request.roundOneLeader = l) →
        (∃ d ∈ w.deliveries, d.message.target = q ∧ d.message.request.slot = slot ∧
          d.message.request.roundOneLeader = l') → l = l' := by
      rintro q l l' ⟨d, hd, ht, hs, rfl⟩ ⟨d', hd', ht', hs', rfl⟩
      exact h.bound d hd d' hd' (ht.trans ht'.symm) hs hs'
    have hx1 : some x.proposer.replicaId = leader := hsame ⟨dx, hdx, hxt, hxsl, hxlead⟩ (hall i hi)
    have hy1 : some y.proposer.replicaId = leader' := hsame ⟨dy, hdy, hyt, hysl, hylead⟩ (hall' j hj)
    have hleaders : leader = leader' := hsame (hall k hk) (hall' k hk')
    have hid : y.proposer.replicaId = x.proposer.replicaId :=
      Option.some.inj (hy1.trans (hleaders.symm.trans hx1.symm))
    have hvalues := hc.of_invocations hy hx hys hxs hid (.inr ⟨hyl, hxl⟩)
    rw [hyp, hxp]
    exact hvalues

/-- Any two decisions returned for the slot carry the same value list. -/
theorem agreement_of_one_leader_value [DecidableEq V] (C : ClusterIdentity) (hC : C.isWellFormed = true)
    (slot : SlotIndex) (limits : ReplicaId → RecorderLimits) (actions : List (Action V))
    (hrun : Along World.step (fun w a => w.Permitted C slot a ∧ w.OneLeaderValue slot a)
      (initial C limits) actions)
    (x y : Invocation V) (hx : x ∈ (run World.step (initial C limits) actions).invocations)
    (hy : y ∈ (run World.step (initial C limits) actions).invocations) (hxs : x.call.slot = slot)
    (hys : y.call.slot = slot) (d e : Decision V) (hd : x.progress = .returned (.ok d))
    (he : y.progress = .returned (.ok e)) : d.valueIds = e.valueIds := by
  have hinv : ∀ (w : World V) (a : Action V), (w.Consistent C slot ∧ w.Contract slot) →
      (w.Permitted C slot a ∧ w.OneLeaderValue slot a) →
      ((w.step a).Consistent C slot ∧ (w.step a).Contract slot) :=
    fun w a hw ha => ⟨hw.1.step ha.1, hw.2.step ha.1 ha.2⟩
  have hempty : (initial C limits : World V).Contract slot := fun a ha => absurd ha List.not_mem_nil
  obtain ⟨hcons, hcontract⟩ := run_invariant hinv ⟨consistent_initial limits, hempty⟩ hrun
  obtain ⟨p, hp, hpd⟩ := (hcons.running x hx hxs).decided d hd
  obtain ⟨q, hq, hqe⟩ := (hcons.running y hy hys).decided e he
  have hval := (hcons.sound hcontract hC).agreement hp hq
  exact hpd.symm.trans (hval.trans hqe)

/-! Two proposers meet in slot 1 of three recorders. The leader, replica 1, reaches
recorders 1 and 2 first and decides at once; the other reaches 2 and 3. -/

def trio : ClusterIdentity := ⟨[1, 2, 3], 1, 0, none⟩
def request (sender : ReplicaId) (step : Step) (p : Proposal Nat) : RecordRequest Nat :=
  ⟨sender, 1, some 1, step, p, []⟩
def replied (recorder : ReplicaId) (step : Step) (first : Proposal Nat) (prior : Option (Proposal Nat)) :
    Arrival Nat := .answered recorder (.ok ⟨recorder, trio, ⟨step, some first, prior⟩, none⟩)
def leading : Proposal Nat := ⟨⟨Priority.max, 1, 1⟩, [10]⟩

def duel (second : AsyncProposerCore) (own best : Proposal Nat) : List (Action Nat) :=
  let draws : ReplicaId → Result Priority := fun _ => .ok 1
  let allow : Availability Nat := fun _ => .ok ()
  let tell (iteration : Nat) (j : ReplicaId) (step : Step) (p : Proposal Nat) : Action Nat :=
    .deliver ⟨1, iteration, j, request second.replicaId step p⟩ allow
  [.start (.async ⟨1, 1, trio, 1027⟩) ⟨1, [10], some 1, [1, 2, 3], []⟩,
    .start (.async second) ⟨1, [20], some 1, [1, 2, 3], []⟩,
    .send 0 draws [], .send 1 draws [],
    .deliver ⟨0, 0, 1, request 1 4 leading⟩ allow, .deliver ⟨0, 0, 2, request 1 4 leading⟩ allow,
    tell 0 2 4 own, tell 0 3 4 own,
    .collect 0 [replied 1 4 leading none, replied 2 4 leading none],
    .collect 1 [replied 2 4 leading none, replied 3 4 own none],
    .send 1 draws [], tell 1 2 5 best, tell 1 3 5 best,
    .collect 1 [replied 2 5 best (some best), replied 3 5 best (some own)],
    .send 1 draws [], tell 2 2 6 best, tell 2 3 6 best,
    .collect 1 [replied 2 6 best (some best), replied 3 6 best (some best)]]

def results (w : World V) : List (SlotIndex × Option (Decision V)) :=
  w.invocations.map fun inv => (inv.call.slot, match inv.progress with
    | .returned (.ok d) => some d
    | _ => none)

theorem mem_results {w : World V} {slot : SlotIndex} {d : Decision V} (h : (slot, some d) ∈ w.results) :
    ∃ inv ∈ w.invocations, inv.call.slot = slot ∧ inv.progress = .returned (.ok d) := by
  obtain ⟨inv, hinv, heq⟩ := List.mem_map.mp h
  simp only [Prod.mk.injEq] at heq
  refine ⟨inv, hinv, heq.1, ?_⟩
  cases hp : inv.progress with
  | ready => simp [hp] at heq
  | waiting targets => simp [hp] at heq
  | returned r =>
    cases r with
    | error e => simp [hp] at heq
    | ok d' =>
      simp only [hp, Option.some.injEq] at heq
      rw [heq.2]

theorem duel_permitted (second : AsyncProposerCore) (own best : Proposal Nat) (hcluster : second.cluster = trio)
    (hother : second.replicaId ≠ 1 ∨ second.laneId ≠ 1) :
    Along World.step (fun w a => w.Permitted trio 1 a) (initial trio fun _ => RecorderLimits.default)
      (duel second own best) := by
  have hdraws : ∀ (id : ReplicaId) (q : Priority), (fun _ : ReplicaId => (.ok 1 : Result Priority)) id = .ok q →
      1 ≤ q ∧ q < Priority.max := by
    intro id q hq
    cases hq
    exact ⟨le_refl _, by decide⟩
  refine ⟨⟨fun _ => ⟨rfl, fun inv hinv => absurd hinv List.not_mem_nil⟩, fun d hd => absurd hd List.not_mem_nil⟩,
    ⟨fun _ => ⟨congrArg some hcluster, fun inv hinv _ hid hlane => ?_⟩, fun d hd => absurd hd List.not_mem_nil⟩,
    hdraws, hdraws, trivial, trivial, trivial, trivial, trivial, trivial, hdraws, trivial, trivial, trivial,
    hdraws, trivial, trivial, trivial, trivial⟩
  have hfirst : inv ∈ [(⟨.async ⟨1, 1, trio, 1027⟩, ⟨1, [10], some 1, [1, 2, 3], []⟩, 2, 4, leading, 0,
    .ready⟩ : Invocation Nat)] := hinv
  rw [List.mem_singleton.mp hfirst] at hid hlane
  exact absurd hlane.symm (hother.resolve_left (not_not.mpr hid.symm))

/-- With another replica as the second proposer both decide the leader's values. -/
theorem agreement_of_one_leader_value_duel :
    (⟨1, [10], 1, 4⟩ : Decision Nat).valueIds = (⟨1, [10], 1, 6⟩ : Decision Nat).valueIds ∧
      (run World.step (initial trio fun _ => RecorderLimits.default)
        (duel ⟨2, 1, trio, 1027⟩ ⟨⟨1, 2, 1⟩, [20]⟩ leading)).results =
        [(1, some ⟨1, [10], 1, 4⟩), (1, some ⟨1, [10], 1, 6⟩)] := by
  have hres : (run World.step (initial trio fun _ => RecorderLimits.default)
      (duel ⟨2, 1, trio, 1027⟩ ⟨⟨1, 2, 1⟩, [20]⟩ leading)).results =
      [(1, some ⟨1, [10], 1, 4⟩), (1, some ⟨1, [10], 1, 6⟩)] := by decide +kernel
  obtain ⟨x, hx, hxs, hxd⟩ := mem_results (hres ▸ List.mem_cons_self)
  obtain ⟨y, hy, hys, hyd⟩ := mem_results (hres ▸ List.mem_cons_of_mem _ List.mem_cons_self)
  have hone : Along World.step (fun w a => w.OneLeaderValue 1 a) (initial trio fun _ => RecorderLimits.default)
      (duel ⟨2, 1, trio, 1027⟩ ⟨⟨1, 2, 1⟩, [20]⟩ leading) := by
    refine ⟨fun _ _ inv hinv => absurd hinv List.not_mem_nil, fun _ hlead => absurd hlead (by decide), ?_⟩
    exact ⟨trivial, trivial, trivial, trivial, trivial, trivial, trivial, trivial, trivial, trivial, trivial,
      trivial, trivial, trivial, trivial, trivial, trivial⟩
  have hrun := (duel_permitted ⟨2, 1, trio, 1027⟩ ⟨⟨1, 2, 1⟩, [20]⟩ leading rfl (.inl (by decide))).and hone
  exact ⟨agreement_of_one_leader_value trio (by decide) 1 (fun _ => RecorderLimits.default) _ hrun x y hx hy
    hxs hys _ _ hxd hyd, hres⟩

/-- With a second lane of the leader itself, both lanes hold the reserved priority: the
first decides on the fast path and the second outranks it for everyone else. -/
theorem two_leader_lanes_disagree :
    trio.isWellFormed = true ∧
    Along World.step (fun w a => w.Permitted trio 1 a) (initial trio fun _ => RecorderLimits.default)
      (duel ⟨1, 2, trio, 1027⟩ ⟨⟨Priority.max, 1, 2⟩, [20]⟩ ⟨⟨Priority.max, 1, 2⟩, [20]⟩) ∧
    (run World.step (initial trio fun _ => RecorderLimits.default)
      (duel ⟨1, 2, trio, 1027⟩ ⟨⟨Priority.max, 1, 2⟩, [20]⟩ ⟨⟨Priority.max, 1, 2⟩, [20]⟩)).results =
      [(1, some ⟨1, [10], 1, 4⟩), (1, some ⟨1, [20], 1, 6⟩)] :=
  ⟨by decide, duel_permitted _ _ _ rfl (.inr (by decide)), by decide +kernel⟩

end World
end QuePaxa
