import QuePaxa.Network.Sections
import QuePaxa.Runtime.Settled

/-! Invariants of a network node in terms of its durable state and its trace. Nothing in
`accept_decision` looks at the checkpoint, so the link between log and retained decisions
holds as long as the replica's own checks refuse decisions at or below it. -/
namespace QuePaxa
open Library
variable {V : Type}

def delivered (trace : List (NetworkEvent V)) : List (Decision V) :=
  trace.filterMap fun
    | .executed d (.ok ()) => some d
    | _ => none

namespace ConsensusState
variable [DecidableEq V] {s s' : ConsensusState V}

theorem Claims.sameOutcome {n : Nat} {slot : SlotIndex} {values : List V} (hs : s.Claims n slot values s') :
    s.replica.SameOutcome s'.replica.snapshot := by
  rw [hs.replica]
  have hdrain := ReplicaCore.sameOutcome_drain s.replica n
  exact hdrain.trans (ReplicaCore.sameOutcome_proposed
    { s.replica with pending := s.replica.pending.drop n } slot values)

theorem MayClaim.sameOutcome (hs : s.MayClaim s') : s.replica.SameOutcome s'.replica.snapshot := by
  rcases hs with hsame | ⟨slot, values, hclaims⟩
  · rw [hsame.replica]
    exact .refl _
  · exact hclaims.sameOutcome

private theorem MayClaim.decisions (hs : s.MayClaim s') : s'.decisions = s.decisions := by
  rcases hs with hsame | ⟨slot, values, hclaims⟩
  · exact hsame.decisions
  · exact hclaims.decisions

private theorem MayClaim.executed (hs : s.MayClaim s') : s'.executed = s.executed := by
  rcases hs with hsame | ⟨slot, values, hclaims⟩
  · exact hsame.executed
  · exact hclaims.executed

end ConsensusState

namespace NetworkConsensusHandler
variable {h h' : NetworkConsensusHandler V}

theorem settled_start [DecidableEq V] {config : ReplicaRuntimeConfig} {recorders : List ReplicaId}
    {stored : Option (RuntimeSnapshot V)} {trace : List (NetworkEvent V)}
    (hnew : new config recorders stored trace = .ok h)
    (hstored : ∀ s, stored = some s → s.Settled) : h.snapshot.Settled := by
  obtain ⟨_, ⟨_, hs⟩ | ⟨s, hsome, hs⟩⟩ := new_ok hnew
  · exact RuntimeSnapshot.settled_new config.replica (by simp only [snapshot, hs]; rfl)
      (by simp only [snapshot, hs]; rfl)
  · have hreplica : h.snapshot.replica = s.replica := by simp only [snapshot, hs.replica]; rfl
    exact (hstored s hsome).same (hreplica ▸ .refl _) hs.decisions

section
variable [DecidableEq V]

def takesLive (h : NetworkConsensusHandler V) (d : Decision V) : Bool :=
  h.state.replica.checkpointedThrough < d.slot || !(h.state.replica.admitDecision d).isOk

private theorem live_of_admitted {d : Decision V} (hlive : h.takesLive d = true)
    (hadm : h.state.replica.admitDecision d = .ok ()) :
    h.state.replica.checkpointedThrough < d.slot := by
  simp only [takesLive, hadm, Except.isOk, Except.toBool, Bool.not_true, Bool.or_false, decide_eq_true_eq] at hlive
  exact hlive

/-- Past the admission, a live decision has been applied. -/
theorem live_of_ok {d : Decision V} {ds : List (Decision V)} {replica : ReplicaCore V} (hlive : h.takesLive d = true)
    (happly : ReplicaCore.applyDecision d h.state.replica = .ok ds replica) :
    h.state.replica.checkpointedThrough < d.slot := by
  rcases ReplicaCore.applyDecision_cases d h.state.replica with ⟨e, heq⟩ | ⟨_, _, _, hadm, _⟩ | ⟨_, _, hadm, _⟩
  · rw [heq] at happly
    cases happly
  · exact live_of_admitted hlive hadm
  · exact live_of_admitted hlive hadm

end

theorem delivered_concat (trace : List (NetworkEvent V)) (event : NetworkEvent V) :
    delivered (trace ++ [event]) = delivered trace ++ delivered [event] := List.filterMap_append

def On (G : RuntimeSnapshot V → List (NetworkEvent V) → Prop) (h : NetworkConsensusHandler V) : Prop :=
  G h.snapshot h.trace

/-- The property does not look at queues, proposals and answers, nor at saves of the present state. -/
structure Observes (G : RuntimeSnapshot V → List (NetworkEvent V) → Prop) : Prop where
  same : ∀ s s' t, G s t → s.replica.SameOutcome s'.replica → s'.decisions = s.decisions → s'.executed = s.executed →
    G s' t
  note : ∀ s t event, G s t → event.isNote = true → G s (t ++ [event])
  saveFailed : ∀ s t s' e, G s t → G s (t ++ [.saved s' (.error e)])
  saved : ∀ s t, G s t → G s (t ++ [.saved s (.ok ())])

section Observes
variable {G : RuntimeSnapshot V → List (NetworkEvent V) → Prop} (hO : Observes G)
include hO

theorem Observes.on_saved (hg : On G h) : On G h.saved := hO.saved _ _ hg

theorem Observes.on_same {s : ConsensusState V} (hg : On G h) (hr : h.state.replica.SameOutcome s.replica.snapshot)
    (hd : s.decisions = h.state.decisions) (he : s.executed = h.state.executed) : On G (h.withState s) :=
  hO.same _ _ _ hg hr hd he

variable [DecidableEq V]

theorem Observes.on_claims {n : Nat} {slot : SlotIndex} {values : List V} {s : ConsensusState V} (hg : On G h)
    (hs : h.state.Claims n slot values s) : On G (h.withState s) :=
  hO.on_same hg hs.sameOutcome hs.decisions hs.executed

/-- After a decision is retained, the gap may be claimed; both are saved together. -/
theorem Observes.on_mayClaim {s s' : ConsensusState V} (hg : On G (h.withState s)) (hs : s.MayClaim s') :
    On G (h.withState s').saved :=
  hO.on_saved (hO.on_same (h := h.withState s) hg hs.sameOutcome hs.decisions hs.executed)

theorem Observes.closed : Closed (On G) where
  quiet := by
    intro h h' hg hq
    cases hq with
    | noted note => exact hO.note _ _ _ hg note
    | timed same =>
      refine hO.on_same hg ?_ same.decisions same.executed
      rw [same.replica]
      exact .refl _
  saved := fun _ hg => hO.on_saved hg
  saveFailed := fun _ _ e hg => hO.saveFailed _ _ _ e hg
  steady := fun _ _ hg _ hsame => hO.on_same hg hsame rfl rfl
  claims := fun _ _ _ _ _ hg hs => hO.on_saved (hO.on_claims hg hs)

theorem Observes.on_installMembership (env : NetworkEnvironment V) (change : MembershipChange V)
    (next : List ReplicaId) :
    Keeps (On G) (installMembership env change next) := by
  apply keeps_installMembership hO.closed.quiet
  · exact fun h hg => hg
  · exact fun h hg _ => hO.on_saved (hO.same _ _ _ hg (.refl _) rfl rfl)
  · exact fun h s e hg => hO.saveFailed _ _ _ e hg

end Observes
end NetworkConsensusHandler
end QuePaxa
