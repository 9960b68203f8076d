import QuePaxa.Network.Sections

/-! Every way a section changes the state of a node. A property that each of these changes
keeps, and each entry of the trace, is kept by every section of every task. -/
namespace QuePaxa
open Library
variable {V : Type}

inductive ConsensusState.Becomes [DecidableEq V] (config : ReplicaRuntimeConfig) (s : ConsensusState V) :
    ConsensusState V → Prop
  | timed {s' : ConsensusState V} (same : SamePipeline s s') : Becomes config s s'
  | steady {replica : ReplicaCore V} (change : ReplicaCore.Change s.replica replica) :
    Becomes config s (s.withReplica replica)
  | claimed {n : Nat} {slot : SlotIndex} {values : List V} {s' : ConsensusState V}
    (claims : s.Claims n slot values s') :
      Becomes config s s'
  | applied {d : Decision V} {ds : List (Decision V)} {replica : ReplicaCore V}
      (returned : ReplicaCore.applyDecision d s.replica = .ok ds replica) :
      Becomes config s ((s.withReplica replica).retainDecision d)
  | refused {d : Decision V} {e : QuePaxaError} {replica : ReplicaCore V}
      (failure : ReplicaCore.applyDecision d s.replica = .error e replica) : Becomes config s (s.withReplica replica)
  | executed (d : Decision V) (fresh : d.slot ∉ s.executed) :
      Becomes config s { s with executed := insert d.slot s.executed }
  | pruned {slot : SlotIndex} (committed : slot ≤ s.replica.committedThrough) (idle : (s.pending.upTo slot).keys = []) :
      Becomes config s (s.pruned slot)
  | restored {snapshot : RuntimeSnapshot V} {s' : ConsensusState V}
    (restored : ConsensusState.restore config snapshot = .ok s')
      (valid : s'.validateState config = .ok ()) : Becomes config s s'

namespace NetworkConsensusHandler
open ConsensusState

/-- The property survives every elementary change, and every entry of the trace. -/
structure Stepwise [DecidableEq V] (I : NetworkConsensusHandler V → Prop) : Prop where
  state : ∀ h s, I h → h.state.Becomes h.config s → I (h.withState s)
  log : ∀ h e, I h → (∀ s, NetworkEvent.stored e = some s → s.cluster = h.config.cluster ∧
    s.protocol = h.config.protocolIdentity) →
    I (h.log e)

namespace Stepwise
variable [DecidableEq V] {I : NetworkConsensusHandler V → Prop} {env : NetworkEnvironment V}
  {h : NetworkConsensusHandler V}
  (hI : Stepwise I)
include hI

theorem unsaved {e : NetworkEvent V} (hh : I h) (he : e.stored = none) : I (h.log e) :=
  hI.log h e hh fun s hs => by rw [he] at hs; cases hs

theorem saved (hh : I h) : I h.saved := hI.log h _ hh fun _ hs => Option.some.inj hs ▸ ⟨rfl, rfl⟩

private theorem mayClaim {s s' : ConsensusState V} (hh : I (h.withState s)) (hmay : s.MayClaim s') :
    I (h.withState s') := by
  rcases hmay with hsame | ⟨slot, values, hclaims⟩
  · exact hI.state (h.withState s) s' hh (.timed hsame)
  · exact hI.state (h.withState s) s' hh (.claimed hclaims)

theorem executeDecisions (ds : List (Decision V)) : Keeps I (executeDecisions env ds) := by
  apply keeps_executeDecisions
  · exact fun h d _ hh hnew => hI.state (h.log _) _ (hI.unsaved hh rfl) (.executed d hnew)
  · exact fun _ _ _ _ hh => hI.unsaved hh rfl
  · exact fun _ hh => hI.saved hh
  · exact fun _ _ _ hh => hI.unsaved hh rfl

theorem executeReady : Keeps I (executeReady env) := Keeps.bind Keeps.get fun _ => hI.executeDecisions _

theorem closed : Closed I where
  quiet := by
    intro h h' hh hq
    cases hq with
    | noted note => exact hI.unsaved hh (NetworkEvent.quiet_of_isNote note).1
    | timed same => exact hI.state _ _ hh (.timed same)
  saved := fun _ hh => hI.saved hh
  saveFailed := fun _ _ _ hh => hI.unsaved hh rfl
  steady := fun _ _ hh hc _ => hI.state _ _ hh (.steady hc)
  claims := fun _ _ _ _ _ hh hs => hI.saved (hI.state _ _ hh (.claimed hs))

private theorem acceptDecision (now : Instant) (d : Decision V) : Keeps I (acceptDecision env now d) := by
  intro h hh
  cases hget : h.state.decisions.get d.slot with
  | some existing =>
    rcases acceptDecision_known env h now hget with ⟨e, heq⟩ | heq | ⟨slot, noop, s, hclaims, _, heq⟩
    · rw [heq]
      exact hh
    · rw [heq]
      exact hI.executeReady h hh
    · rw [heq]
      exact hI.executeReady _ (hI.state _ _ hh (.claimed hclaims))
  | none =>
    rw [acceptDecision_new env h hget]
    rcases acceptNew_cases env h now d with ⟨ds, s, ⟨replica, hok, hmay⟩, heq⟩ | ⟨e, h', heq, hu⟩ |
      ⟨e, replica, herr, heq⟩ |
      ⟨e, ds, replica, hok, _, heq⟩
    · rw [heq]
      exact hI.executeDecisions ds _ (hI.saved (hI.mayClaim (hI.state _ _ hh (.applied hok)) hmay))
    · rw [heq]
      exact hI.closed.undone hh hu
    · rw [heq]
      exact hI.state _ _ hh (.refused herr)
    · rw [heq]
      exact hI.state _ _ hh (.applied hok)

private theorem recoverLocked (now : Instant) : Keeps I (recoverLocked env now) := by
  intro h hh
  rcases recoverLocked_cases env h now with ⟨e, h', heq, hu⟩ | ⟨h₁, hfirst, heq⟩
  · rw [heq]
    exact hI.closed.undone hh hu
  · rw [heq]
    have hstart : I h₁ := by
      rcases hfirst with rfl | ⟨slot, noop, s, hclaims, rfl⟩
      · exact hh
      · exact hI.saved (hI.state _ _ hh (.claimed hclaims))
    exact Keeps.bind hI.executeReady (fun _ => Keeps.bind Keeps.get fun _ => Keeps.pure _) h₁ hstart

private theorem sealTransfer (slot : SlotIndex) (ids : Finset V) (checkpoint : List UInt8) :
    Keeps I (sealTransfer env slot ids checkpoint) := by
  intro h hh
  rcases sealTransfer_cases env h slot ids checkpoint with ⟨e, h', heq, hu⟩ | ⟨hcommitted, hidle, heq⟩
  · rw [heq]
    exact hI.closed.undone hh hu
  · rw [heq]
    exact hI.saved (hI.state _ _ hh (.pruned hcommitted hidle))

private theorem installStateTransfer (incoming : StateTransferSnapshot V) :
    Keeps I (installStateTransfer env incoming) := by
  intro h hh
  rcases installStateTransfer_cases env h incoming with ⟨e, heq⟩ | ⟨e, heq⟩ | ⟨e, heq⟩ |
    ⟨s, hrestore, hvalid, hmatch, heq⟩
  · rw [heq]
    exact hh
  · rw [heq]
    exact hI.unsaved hh rfl
  · rw [heq]
    exact hI.unsaved (hI.unsaved hh rfl) rfl
  · rw [heq]
    refine hI.state _ _ (hI.log _ _ (hI.unsaved hh rfl) fun s hs => Option.some.inj hs ▸ hmatch.2) ?_
    exact .restored hrestore hvalid

theorem advance (now : Instant) (task : Task V) : Keeps I (task.advance env now) := by
  cases hroutine : task.isRoutine with
  | true => exact Task.keeps_advance env hI.closed hroutine now
  | false =>
    cases task with
    | receiving decisions =>
      cases decisions with
      | nil => cases hroutine
      | cons d rest => exact Keeps.bind (hI.acceptDecision now d) fun _ => Keeps.pure _
    | accepting d => exact Keeps.bind (hI.acceptDecision now d) fun _ => Keeps.pure _
    | recovering => exact Keeps.bind (hI.recoverLocked now) fun _ => Keeps.pure _
    | ready slot values leader =>
      refine Keeps.bind Keeps.get fun h => Keeps.ite (fun _ => ?_) fun _ => Keeps.pure _
      exact Keeps.bind (Keeps.modify fun h hh => hI.unsaved hh rfl) fun _ => Keeps.pure _
    | exporting slot ids =>
      exact Keeps.bind (keeps_exportCheckpoint fun h result hh => hI.unsaved hh rfl) fun _ => Keeps.pure _
    | sealing slot ids checkpoint =>
      refine Keeps.bind (hI.sealTransfer slot ids checkpoint) fun outgoing => ?_
      exact Keeps.bind (Keeps.modify fun h hh => hI.unsaved hh rfl) fun _ => Keeps.pure _
    | install incoming => exact Keeps.bind (hI.installStateTransfer incoming) fun _ => Keeps.pure _
    | _ => cases hroutine

end Stepwise
end NetworkConsensusHandler
end QuePaxa
