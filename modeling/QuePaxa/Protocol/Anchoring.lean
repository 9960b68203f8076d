import QuePaxa.Core.RecorderReach
import QuePaxa.Core.Transitions
import QuePaxa.Protocol.Agreement

/-! Two notions of conflict in one recorder. A decision that arrives by gossip conflicts with the
retained one when the values differ; the anchor of a membership change conflicts with it already
when the proposer or the step differ, and honest proposers return such records for one slot. -/
namespace QuePaxa
open Library
variable {V : Type} [DecidableEq V]

namespace RecorderCore
variable {r : RecorderCore V} {change : MembershipChange V} {retained : Decision V}

/-- Once the epoch follows and nothing lies above the anchor, only the binding and the record count. -/
theorem installMembership_retained (hget : r.decisions.get change.anchor.slot = some retained)
    (hsucc : change.next.isSuccessorOf r.config.cluster = true)
    (hslots : ∀ slot ∈ r.slots.keys, slot ≤ change.anchor.slot)
    (hdecisions : ∀ slot ∈ r.decisions.keys, slot ≤ change.anchor.slot) :
    installMembership change r =
      match change.validateBinding with
      | .error e => .error e r
      | .ok () => if retained = change.anchor then .ok () (r.withCluster change.next)
        else .error (.conflictingDecision change.anchor.slot) r := by
  cases hbind : change.validateBinding with
  | error e => simp only [installMembership, hbind]
  | ok u =>
    by_cases hsame : retained = change.anchor
    · have hbound : change.commandId ∈ change.anchor.valueIds := by
        by_contra hno
        simp only [MembershipChange.validateBinding, hno, if_false] at hbind
        cases hbind
      simp only [if_pos hsame]
      exact installMembership_of_installs
        ⟨hbound, ClusterIdentity.ne_of_isSuccessorOf hsucc, hsucc, hsame ▸ hget, hslots, hdecisions⟩
    · simp only [installMembership, hbind, if_neg (ClusterIdentity.ne_of_isSuccessorOf hsucc), hsucc, hget, ne_eq,
        hsame]
      rfl

/-- Gossip of a record with the retained values is never reported as a conflict. -/
theorem informDecision_no_conflict {d : Decision V} (hget : r.decisions.get d.slot = some retained)
    (hvalues : retained.valueIds = d.valueIds) (slot : SlotIndex) (r' : RecorderCore V) :
    informDecision d r ≠ .error (.conflictingDecision slot) r' := by
  have hnever : Never (.conflictingDecision slot) (r.validateDecision d) :=
    .bind (.require (by simp)) fun _ => .bind (.require (by simp)) fun _ => .bind (.require (by simp)) fun _ =>
      .bind (.require (by simp)) fun _ => .require (by simp)
  cases hvalid : r.validateDecision d with
  | error e =>
    simp only [informDecision, hvalid]
    rintro ⟨⟩
    exact hnever hvalid
  | ok u =>
    simp only [informDecision, hvalid, hget, hvalues, ne_eq, not_true, if_false]
    split_ifs <;> simp

/-- A recorder that retains the anchor's values moves to the next epoch exactly when the change
is bound to its anchor and the retained record also names the anchor's proposer and step;
otherwise it reports a conflict that gossip of the very same anchor does not. -/
theorem anchored_change_succeeds_iff (r : RecorderCore V) (hr : r.Reached fun _ => True) (change : MembershipChange V)
    (retained : Decision V) (hget : r.decisions.get change.anchor.slot = some retained)
    (hvalues : retained.valueIds = change.anchor.valueIds) (hsucc : change.next.isSuccessorOf r.config.cluster = true)
    (hslots : ∀ slot ∈ r.slots.keys, slot ≤ change.anchor.slot)
    (hdecisions : ∀ slot ∈ r.decisions.keys, slot ≤ change.anchor.slot) :
    (installMembership change r = .ok () (r.withCluster change.next) ↔ change.validateBinding = .ok () ∧
      retained.proposer = change.anchor.proposer ∧ retained.decidedStep = change.anchor.decidedStep) ∧
    (change.validateBinding = .ok () →
      ¬(retained.proposer = change.anchor.proposer ∧ retained.decidedStep = change.anchor.decidedStep) →
      installMembership change r = .error (.conflictingDecision change.anchor.slot) r) ∧
    ∀ slot r', informDecision change.anchor r ≠ .error (.conflictingDecision slot) r' := by
  have hslot : retained.slot = change.anchor.slot := (hr.sound.decisions _ _ hget).1
  have hrecord : retained = change.anchor ↔
      retained.proposer = change.anchor.proposer ∧ retained.decidedStep = change.anchor.decidedStep := by
    constructor
    · rintro rfl
      exact ⟨rfl, rfl⟩
    · rintro ⟨hproposer, hstep⟩
      cases retained
      cases hanchor : change.anchor
      simp_all
  rw [installMembership_retained hget hsucc hslots hdecisions, ← hrecord]
  refine ⟨?_, ?_, fun slot r' => informDecision_no_conflict hget hvalues slot r'⟩
  · cases change.validateBinding with
    | error e => simp
    | ok u => by_cases hsame : retained = change.anchor <;> simp [hsame]
  · intro hbind hne
    rw [hbind]
    exact if_neg hne

end RecorderCore

namespace World

/-- The two proposers of the duel return one value with different steps. Recorder 3 learns the
record of the second, and refuses the change that is anchored at the record of the first. -/
theorem anchor_of_other_proposer_conflicts :
    let w := run step (initial trio fun _ => RecorderLimits.default)
      (duel ⟨2, 1, trio, 1027⟩ ⟨⟨1, 2, 1⟩, [20]⟩ leading ++ [.inform 3 ⟨1, [10], 1, 6⟩])
    let change : MembershipChange Nat := ⟨⟨1, [10], 1, 4⟩, ⟨[1, 2, 3, 4], 1, 1, some ⟨[1, 2, 3], 1, [2, 3, 4]⟩⟩, 10⟩
    w.results = [(1, some ⟨1, [10], 1, 4⟩), (1, some ⟨1, [10], 1, 6⟩)] ∧
    (w.recorders 3).decisions.get 1 = some ⟨1, [10], 1, 6⟩ ∧ change.validateBinding = .ok () ∧
    change.next.isSuccessorOf (w.recorders 3).config.cluster = true ∧
    (w.recorders 3).slots.keys = [1] ∧ (w.recorders 3).decisions.keys = [1] ∧
    result (RecorderCore.installMembership change) (w.recorders 3) = .error (.conflictingDecision 1) ∧
    result (RecorderCore.informDecision change.anchor) (w.recorders 3) = .ok () := by
  decide +kernel

end World

/-- Anchored at the record it has itself learned, the recorder moves on. -/
theorem RecorderCore.anchored_change_succeeds_iff_learned :
    let r : RecorderCore Nat := RecorderOp.apply (.new ⟨3, World.trio, .default⟩) (.informDecision ⟨1, [10], 1, 6⟩)
    let change : MembershipChange Nat := ⟨⟨1, [10], 1, 6⟩, ⟨[1, 2, 3, 4], 1, 1, some ⟨[1, 2, 3], 1, [2, 3, 4]⟩⟩, 10⟩
    r.decisions.get 1 = some ⟨1, [10], 1, 6⟩ ∧ installMembership change r = .ok () (r.withCluster change.next) := by
  intro r change
  have hreached : r.Reached fun _ => True := .served (.new trivial) _
  have hget : r.decisions.get 1 = some ⟨1, [10], 1, 6⟩ := by decide
  exact ⟨hget, (anchored_change_succeeds_iff r hreached change _ hget rfl (by decide) (by decide) (by decide)).1.mpr
    ⟨by decide, rfl, rfl⟩⟩

end QuePaxa
