import Mathlib.Logic.Function.Basic
import QuePaxa.Core.ProposerSpec
import QuePaxa.Core.QuorumIntersection
import QuePaxa.Core.RecorderSpec
import QuePaxa.Core.RegisterHistory
import QuePaxa.Library.RegisterRounds
import QuePaxa.Protocol.World

/-! What the message log of a world says about one slot: the records each recorder
took in, read as a run of the abstract rounds, and how the log grows. -/
namespace QuePaxa
open Library
variable {V : Type}

def Invocation.firstProposal (inv : Invocation V) : Proposal V :=
  ⟨⟨Priority.max, inv.proposer.replicaId, inv.proposer.laneId⟩, inv.call.valueIds⟩

def Delivery.effect (j : ReplicaId) (slot : SlotIndex) (d : Delivery V) : Option (Nat × Proposal V) :=
  if d.message.target = j ∧ d.message.request.slot = slot ∧
      d.reply.summary.step = d.message.request.step then
    some (d.message.request.step, d.message.request.proposal)
  else none

namespace World

def history (w : World V) (j : ReplicaId) (slot : SlotIndex) : History (Proposal V) :=
  w.deliveries.filterMap (Delivery.effect j slot)

def Returned (w : World V) (d : Decision V) : Prop :=
  ∃ inv ∈ w.invocations, inv.progress = .returned (.ok d)

/-- The slot's run of the abstract rounds. A quorum must have replied under one leader. -/
def rounds (C : ClusterIdentity) (slot : SlotIndex) (w : World V) :
    Rounds ReplicaId (Proposal V) ProposalKey (List V) where
  key := Proposal.key
  val := Proposal.valueIds
  start p := ∃ inv ∈ w.invocations, inv.call.slot = slot ∧ p = inv.firstProposal
  reserved p := p.key.priority = Priority.max
  quorum Q := (∃ F : Finset ReplicaId, C.hasQuorum F = true ∧ ∀ j, j ∈ Q ↔ j ∈ F) ∧
    ∃ leader, ∀ j ∈ Q, ∃ d ∈ w.deliveries, d.message.target = j ∧ d.message.request.slot = slot ∧
      d.message.request.roundOneLeader = leader
  hist j := w.history j slot

theorem mem_history {w : World V} {j : ReplicaId} {slot : SlotIndex} {s : Nat} {p : Proposal V} :
    (s, p) ∈ w.history j slot ↔ ∃ d ∈ w.deliveries, d.message.target = j ∧ d.message.request.slot = slot ∧
      d.reply.summary.step = d.message.request.step ∧ d.message.request.step = s ∧
      d.message.request.proposal = p := by
  simp only [history, List.mem_filterMap, Delivery.effect]
  refine exists_congr fun d => and_congr_right fun _ => ?_
  constructor
  · intro h
    split_ifs at h with hc
    cases h
    exact ⟨hc.1, hc.2.1, hc.2.2, rfl, rfl⟩
  · rintro ⟨h1, h2, h3, rfl, rfl⟩
    rw [if_pos ⟨h1, h2, h3⟩]

structure Later (w w' : World V) : Prop where
  invocations : ∀ inv ∈ w.invocations, ∃ inv' ∈ w'.invocations, inv'.proposer = inv.proposer ∧
    inv'.call = inv.call ∧ ∀ r, inv.progress = .returned r → inv'.progress = .returned r
  deliveries : ∃ tail, w'.deliveries = w.deliveries ++ tail

variable {w w' : World V}

theorem Later.returned (h : w.Later w') {d : Decision V} (hd : w.Returned d) : w'.Returned d := by
  obtain ⟨inv, hinv, hret⟩ := hd
  obtain ⟨inv', hinv', _, _, hkeep⟩ := h.invocations inv hinv
  exact ⟨inv', hinv', hkeep _ hret⟩

private theorem Later.delivery (h : w.Later w') {d : Delivery V} (hd : d ∈ w.deliveries) : d ∈ w'.deliveries := by
  obtain ⟨tail, htail⟩ := h.deliveries
  rw [htail]
  exact List.mem_append_left _ hd

/-- The abstract run grows with the log when every history is extended in step order. -/
theorem Later.grows {C : ClusterIdentity} {slot : SlotIndex} (h : w.Later w')
    (hist : ∀ j, (w.history j slot).Extends (w'.history j slot)) :
    (w.rounds C slot).Grows (w'.rounds C slot) := by
  refine ⟨rfl, rfl, ?_, fun _ hp => hp, ?_, hist⟩
  · rintro p ⟨inv, hinv, hslot, rfl⟩
    obtain ⟨inv', hinv', hprop, hcall, _⟩ := h.invocations inv hinv
    refine ⟨inv', hinv', hcall ▸ hslot, ?_⟩
    simp only [Invocation.firstProposal, hprop, hcall]
  · rintro Q ⟨hF, leader, hall⟩
    refine ⟨hF, leader, fun j hj => ?_⟩
    obtain ⟨d, hd, hrest⟩ := hall j hj
    exact ⟨d, h.delivery hd, hrest⟩

/-- Actions that deliver nothing leave every history as it is. -/
theorem Later.grows_of_deliveries {C : ClusterIdentity} {slot : SlotIndex} (h : w.Later w')
    (hd : w'.deliveries = w.deliveries) : (w.rounds C slot).Grows (w'.rounds C slot) := by
  apply h.grows
  intro j
  have hsame : w'.history j slot = w.history j slot := by rw [history, history, hd]
  rw [hsame]
  exact History.Extends.refl _

end World
end QuePaxa
