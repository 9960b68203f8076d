import QuePaxa.Core.ReplicaPipeline

/-! When the decision of the frontier slot goes in. A full queue or log keeps it out, and with it
every later slot. -/
namespace QuePaxa
open Library
variable {V : Type}
variable {ds : List (Decision V)}

namespace ReplicaCore
open ReplicaSnapshot

structure WellFormed (r : ReplicaCore V) : Prop where
  sound : r.Sound
  ordered : r.Ordered
  jam : r.Jammed → r.nextCommit = u64Max ∧ (r.decisionAt u64Max).isSome = true

private theorem wellFormed_new (config : ReplicaConfig) : (new config : ReplicaCore V).WellFormed where
  sound := sound_new config
  ordered := ordered_new config
  jam hjam := absurd hjam (Pipeline.accounted_start config).short.2

variable {r r' : ReplicaCore V} {d : Decision V}

theorem WellFormed.same (h : r.WellFormed) (hsound : r'.Sound) (hs : SameOutcome r.snapshot r'.snapshot) :
    r'.WellFormed where
  sound := hsound
  ordered := h.ordered.same hs
  jam hjam := by
    obtain ⟨hlast, hdecided⟩ := h.jam (hs.jammed.mp hjam)
    exact ⟨hs.nextCommit.trans hlast, (congrArg Option.isSome (congrFun hs.decisionAt u64Max)).trans hdecided⟩

/-- From the frontier on only the last slot can be committed, and then it is decided. -/
private theorem WellFormed.isClosed_eq (h : r.WellFormed) {slot : SlotIndex} (hle : r.nextCommit ≤ slot) :
    r.isClosed slot = (r.decisionAt slot).isSome := by
  cases hcommitted : r.isCommitted slot with
  | false => rw [ReplicaSnapshot.isClosed, hcommitted, Bool.false_or]
  | true =>
    have hpast : slot ≠ SlotIndex.genesis := (Nat.zero_lt_of_lt (h.sound.frontier.trans_le hle)).ne'
    obtain rfl := h.ordered.future slot hpast hle hcommitted
    rw [ReplicaSnapshot.isClosed, hcommitted, (h.jam hcommitted).2, Bool.true_or]

private theorem WellFormed.applied (h : r.WellFormed) (hsound : r'.Sound) (ha : Applied r d ds r') :
    r'.WellFormed where
  sound := hsound
  ordered := ha.ordered
  jam hjam := by
    have hend : r.Jammed → r'.nextCommit = u64Max := by
      intro hold
      refine le_antisymm hsound.bound ?_
      rw [← (h.jam hold).1, ha.nextCommit]
      exact Nat.le_add_right ..
    have hdecided : r.Jammed → (r'.decisionAt u64Max).isSome = true := by
      intro hold
      by_cases hslot : u64Max = d.slot
      · rw [hslot]
        exact ha.here
      · rw [ha.others _ hslot]
        exact (h.jam hold).2
    exact ⟨(ha.last hjam).elim hend id, (ha.backed hjam).elim hdecided id⟩

variable [DecidableEq V]

private theorem wellFormed_nextProposal (h : r.WellFormed) : (after nextProposal r).WellFormed := by
  have hsound : (after nextProposal r).Sound := (keeps_nextProposal fun _ _ => sound_change).after h.sound
  rcases nextProposal_cases r with ⟨slot, values, r', heq, harm⟩ | heq | ⟨e, r', heq, hr⟩
  · rw [after_ok heq] at hsound ⊢
    obtain ⟨n, _, _, _, rfl⟩ := harm.taken
    have hproposed := sameOutcome_proposed { r with pending := r.pending.drop n } slot values
    exact h.same hsound ((sameOutcome_drain r n).trans hproposed)
  · rw [after_ok heq]
    exact h
  · rw [after_error heq] at hsound ⊢
    rcases hr with rfl | ⟨n, _, rfl⟩
    · exact h
    · exact h.same hsound (sameOutcome_drain r n)

private theorem wellFormed_applyDecision (h : r.WellFormed) (d : Decision V) :
    (after (applyDecision d) r).WellFormed := by
  have hsound := (later_applyDecision h.sound d).sound
  have hcall := triple_applyDecision h.ordered d r rfl
  cases hx : applyDecision d r with
  | ok ds s =>
    rw [hx] at hcall
    rw [after_ok hx] at hsound ⊢
    exact h.applied hsound hcall.1
  | error e s =>
    rw [hx] at hcall
    rw [after_error hx] at hsound ⊢
    rcases hcall with rfl | ⟨⟨ds, ha⟩, _⟩
    · exact h
    · exact h.applied hsound ha

private theorem wellFormed_prune (h : r.WellFormed) (through : SlotIndex) : (r.pruneThrough through).WellFormed where
  sound := h.sound.prune through
  ordered := ordered_prune h.ordered through
  jam hjam := by
    obtain ⟨e, he, hcommitted⟩ := (Option.any_eq_true _ _).mp hjam
    have hold : r.Jammed := by
      rw [ReplicaSnapshot.Jammed, ((OrderedMap.get_retain ..).mp he).1]
      exact hcommitted
    obtain ⟨hlast, hdecided⟩ := h.jam hold
    refine ⟨hlast, ?_⟩
    rw [decisionAt_prune ((checkpoint_lt_prune h.sound.frontier through).trans_le h.sound.bound)]
    exact hdecided

private theorem wellFormed_perform (r : ReplicaCore V) (op : ReplicaOp V) (h : r.WellFormed) :
    (r.perform op).WellFormed := by
  cases op with
  | enqueue values =>
    exact h.same ((keeps_enqueue (fun _ _ => sound_change) values).after h.sound) (sameOutcome_enqueue r values)
  | nextProposal => exact wellFormed_nextProposal h
  | applyDecision d => exact wellFormed_applyDecision h d
  | pruneThrough slot => exact wellFormed_prune h slot

theorem applyDecision_fresh (admitted : r.admitDecision d = .ok ()) (fresh : (r.entry d.slot).decision = none)
    (room : r.pending.length + (requeued (r.entry d.slot) d).length ≤ r.config.maxPendingValues) :
    applyDecision d r = commitReady (r.decided d) := by
  have fresh : ((r.log.get d.slot).getD .default).decision = none := fresh
  have room : r.pending.length + (requeued ((r.log.get d.slot).getD .default) d).length ≤ r.config.maxPendingValues :=
    room
  simp only [applyDecision, bind_apply, get_apply, admitted, check_ok, fresh]
  split_ifs
  · simp only [require, if_pos room, check_ok, bind_apply, set_apply]
    rfl
  · rfl

/-- A slot other than the decision's is left for the frontier to stop at. -/
def StopsShort (r : ReplicaCore V) (d : Decision V) : Prop :=
  ∃ slot, r.nextCommit ≤ slot ∧ slot ≤ u64Max ∧ slot ≠ d.slot ∧ r.isClosed slot = false

private theorem isClosed_decided (slot : SlotIndex) :
    (r.decided d).isClosed slot = (decide (slot = d.slot) || r.isClosed slot) := by
  simp only [ReplicaSnapshot.isClosed, isCommitted_decided, decisionAt_decided]
  by_cases hslot : slot = d.slot <;> simp [hslot]

/-- With the decision stored the frontier moves on, and fails just when it finds no slot to stop at. -/
theorem triple_commitReady_decided (hs : r.Sound) : Triple (· = r.decided d) commitReady
    (fun _ _ => r.StopsShort d) fun _ s => s.decisionAt d.slot = some d ∧ ¬r.StopsShort d := by
  intro start hstart
  have hcommit := triple_commitReady_closed (r := r.decided d) hs.bound start hstart
  cases hx : commitReady start with
  | ok ds s =>
    rw [hx] at hcommit
    obtain ⟨slot, hle, hmax, hopen⟩ := hcommit
    rw [isClosed_decided, Bool.or_eq_false_iff, decide_eq_false_iff_not] at hopen
    exact ⟨slot, hle, hmax, hopen⟩
  | error e s =>
    rw [hx] at hcommit
    refine ⟨by rw [hcommit.1, decisionAt_decided, if_pos rfl], ?_⟩
    rintro ⟨slot, hle, hmax, hne, hopen⟩
    have hclosed := hcommit.2 slot hle hmax
    rw [isClosed_decided, hopen, decide_eq_false hne] at hclosed
    cases hclosed

theorem room_of_decided (hs : r.Sound) (hc : Change r (r.decided d)) :
    r.pending.length + (requeued (r.entry d.slot) d).length ≤ r.config.maxPendingValues := by
  have hroom := (sound_change hs hc).pendingRoom
  rw [Nat.add_comm]
  simpa only [decided, List.length_append] using hroom

structure Admits (r : ReplicaCore V) (d : Decision V) : Prop where
  /-- The slot has an entry already, or the log has room for one. -/
  log : r.ensureLogCapacity d.slot = .ok ()
  /-- The queue has room for the own values that lose the slot. -/
  queue : r.pending.length + (requeued (r.entry d.slot) d).length ≤ r.config.maxPendingValues
  /-- Some later slot is undecided, so that the frontier has a slot to stop at. -/
  gap : ∃ slot, d.slot < slot ∧ slot ≤ u64Max ∧ r.decisionAt slot = none

private theorem Admits.of_ok (h : r.WellFormed) (hfrontier : d.slot = r.nextCommit)
    (hnone : r.decisionAt d.slot = none) (hok : applyDecision d r = .ok ds r') : r.Admits d := by
  rcases applyDecision_cases d r with ⟨e, heq⟩ | ⟨existing, hex, _, _, _⟩ | ⟨hc, _, hadm, heq⟩
  · rw [heq] at hok
    cases hok
  · rw [entry_decision, hnone] at hex
    cases hex
  · rw [heq] at hok
    have hcommit := triple_commitReady_decided (d := d) h.sound _ rfl
    rw [hok] at hcommit
    obtain ⟨slot, hle, hmax, hne, hopen⟩ := hcommit
    rw [h.isClosed_eq hle] at hopen
    exact ⟨require_eq_ok.mpr (admitDecision_eq_ok.mp hadm).2.2.2, room_of_decided h.sound hc, slot,
      lt_of_le_of_ne (hfrontier.trans_le hle) (Ne.symm hne), hmax,
      Option.isNone_iff_eq_none.mp (Option.isSome_eq_false_iff.mp hopen)⟩

private theorem Admits.ok (hadmits : r.Admits d) (h : r.WellFormed) (hfrontier : d.slot = r.nextCommit)
    (hnone : r.decisionAt d.slot = none) (hne : d.valueIds ≠ []) (hnodup : d.valueIds.Nodup)
    (hseen : ∀ v ∈ d.valueIds, v ∈ r.seenValueIds) :
    ∃ ds r', applyDecision d r = .ok ds r' ∧ d.slot < r'.nextCommit := by
  have hknown : d.valueIds.toFinset \ r.seenValueIds = ∅ :=
    Finset.sdiff_eq_empty_iff_subset.mpr fun v hv => hseen v (List.mem_toFinset.mp hv)
  have hadm : r.admitDecision d = .ok () :=
    admitDecision_eq_ok.mpr ⟨hne, hnodup, by rw [hknown]; exact h.sound.trackRoom, require_eq_ok.mp hadmits.log⟩
  have heq := applyDecision_fresh hadm ((entry_decision r d.slot).trans hnone) hadmits.queue
  cases hx : commitReady (r.decided d) with
  | error e s =>
    have hcommit := triple_commitReady_decided (d := d) h.sound _ rfl
    rw [hx] at hcommit
    obtain ⟨slot, hlt, hmax, hopen⟩ := hadmits.gap
    have hle : r.nextCommit ≤ slot := hfrontier ▸ hlt.le
    exact absurd ⟨slot, hle, hmax, hlt.ne', by rw [h.isClosed_eq hle, hopen]; rfl⟩ hcommit.2
  | ok ds s =>
    have hcommit := triple_commitReady (ordered_decided h.ordered d) (r.decided d) rfl
    rw [hx] at hcommit
    obtain ⟨hadv, hwaits⟩ := hcommit
    refine ⟨ds, s, heq.trans hx, ?_⟩
    have hpast : d.slot ≤ s.nextCommit := by
      rw [hfrontier, hadv.nextCommit]
      exact Nat.le_add_right ..
    refine lt_of_le_of_ne hpast fun hstop => ?_
    have hopen := hwaits.1
    rw [hadv.decisionAt, ← hstop, decisionAt_decided, if_pos rfl] at hopen
    cases hopen

/-- The decision of the frontier slot is applied and committed exactly when log and queue
have room for it and the frontier has a slot to stop at. -/
theorem frontier_decision_applies_iff (config : ReplicaConfig) (ops : List (ReplicaOp V)) (d : Decision V)
    (hfrontier : d.slot = (run perform (new config) ops).nextCommit)
    (hnone : (run perform (new config) ops).decisionAt d.slot = none) (hne : d.valueIds ≠ [])
    (hnodup : d.valueIds.Nodup)
    (hseen : ∀ v ∈ d.valueIds, v ∈ (run perform (new config) ops).seenValueIds) :
    (∃ ds r', applyDecision d (run perform (new config) ops) = .ok ds r' ∧ d.slot < r'.nextCommit ∧
      r'.isCommitted d.slot = true) ↔
      (run perform (new config) ops).Admits d := by
  have h : (run perform (new config : ReplicaCore V) ops).WellFormed :=
    run_invariant_all wellFormed_perform (wellFormed_new config) ops
  constructor
  · rintro ⟨ds, r', hok, _⟩
    exact .of_ok h hfrontier hnone hok
  · intro hadmits
    obtain ⟨ds, r', hok, hlt⟩ := hadmits.ok h hfrontier hnone hne hnodup hseen
    refine ⟨ds, r', hok, hlt, ?_⟩
    have hsound := (later_applyDecision h.sound d).sound
    have hcheckpoint := (frontier_applyDecision (run perform (new config) ops) d).2
    rw [after_ok hok] at hsound hcheckpoint
    have hafter : r'.checkpointedThrough < d.slot := by
      rw [hcheckpoint, hfrontier]
      exact h.sound.frontier
    obtain ⟨entry, hget, hcommitted, _⟩ := hsound.committed d.slot hafter hlt
    rw [isCommitted, hget]
    exact hcommitted

/-- Two states that keep the decision of the frontier slot out. In the first the queue has
filled up behind the own proposal that loses the slot; in the second a later decision has
taken the last place in the log. -/
theorem frontier_decision_refused :
    let queued : ReplicaCore Nat := run perform (new ⟨1, 1, 2, 10, 10⟩)
      [.enqueue [10, 20], .nextProposal, .enqueue [30]]
    let logged : ReplicaCore Nat := run perform (new ⟨1, 1, 10, 1, 10⟩) [.enqueue [20], .applyDecision ⟨2, [10], 1, 4⟩]
    (queued.nextCommit = 1 ∧ queued.decisionAt 1 = none ∧ 20 ∈ queued.seenValueIds ∧
      applyDecision ⟨1, [20], 1, 4⟩ queued = .error (.resourceLimit "pending value IDs" 2) queued) ∧
    logged.nextCommit = 1 ∧ logged.decisionAt 1 = none ∧ 20 ∈ logged.seenValueIds ∧
      applyDecision ⟨1, [20], 1, 4⟩ logged = .error (.resourceLimit "retained log slots" 1) logged := by
  intro queued logged
  refine ⟨⟨?_, ?_, ?_, rfl⟩, ?_, ?_, ?_, rfl⟩
  all_goals decide +kernel

/-- With one value less in the queue the first of them takes the decision. -/
theorem frontier_decision_applies_iff_requeued :
    let r : ReplicaCore Nat := run perform (new ⟨1, 1, 2, 10, 10⟩) [.enqueue [10, 20], .nextProposal]
    ∃ ds r', applyDecision ⟨1, [20], 1, 4⟩ r = .ok ds r' ∧ 1 < r'.nextCommit ∧ r'.isCommitted 1 = true := by
  intro r
  have happlies := frontier_decision_applies_iff ⟨1, 1, 2, 10, 10⟩ [.enqueue [10, 20], .nextProposal] ⟨1, [20], 1, 4⟩
    (by decide +kernel) (by decide +kernel) (by decide) (by decide) (by decide +kernel)
  have hadmits : r.Admits ⟨1, [20], 1, 4⟩ := ⟨rfl, by decide +kernel, 2, by decide, by decide, by decide +kernel⟩
  exact happlies.mpr hadmits

end ReplicaCore
end QuePaxa
