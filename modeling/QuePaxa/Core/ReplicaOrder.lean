import QuePaxa.Core.ReplicaPipeline
import QuePaxa.Library.FirstArrivals

/-! All calls of a replica together, slots chosen by the caller included. Decisions may arrive in
any order, repeated or conflicting: what is returned is the contiguous prefix of the decisions that
were applied first, and the replica can be rebuilt from its snapshot at any time. -/
namespace QuePaxa
open Library
variable {V : Type}

inductive ReplicaCall (V : Type) where
  | op (op : ReplicaOp V)
  /-- A proposal for a slot of the caller's choice. -/
  | noteProposed (slot : SlotIndex) (valueIds : List V)

def ReplicaCall.BelowLast : ReplicaCall V → Prop
  | .op (.applyDecision d) => d.slot < u64Max
  | _ => True

instance : DecidablePred (ReplicaCall.BelowLast (V := V))
  | .op (.applyDecision _) => inferInstanceAs (Decidable (_ < _))
  | .op (.enqueue _) | .op .nextProposal | .op (.pruneThrough _) | .noteProposed _ _ => .isTrue trivial

namespace ReplicaCore
open ReplicaSnapshot
variable [DecidableEq V] {r : ReplicaCore V}

def serve (r : ReplicaCore V) : ReplicaCall V → ReplicaCore V
  | .op op => r.perform op
  | .noteProposed slot valueIds => after (noteProposed slot valueIds) r

theorem sameOutcome_nextProposal (r : ReplicaCore V) : SameOutcome r.snapshot (after nextProposal r).snapshot := by
  rcases nextProposal_cases r with ⟨slot, values, r', heq, harm⟩ | heq | ⟨e, r', heq, hr⟩
  · rw [after_ok heq]
    obtain ⟨n, _, _, _, rfl⟩ := harm.taken
    exact (sameOutcome_drain r n).trans (sameOutcome_proposed { r with pending := r.pending.drop n } slot values)
  · rw [after_ok heq]
    exact .refl _
  · rw [after_error heq]
    rcases hr with rfl | ⟨n, _, rfl⟩
    · exact .refl _
    · exact sameOutcome_drain r n

theorem sameOutcome_noteProposed (r : ReplicaCore V) (slot : SlotIndex) (values : List V) :
    SameOutcome r.snapshot (after (noteProposed slot values) r).snapshot := by
  have heq := noteProposed_eq slot values r
  cases hadm : r.admitProposal slot values with
  | error e =>
    rw [hadm] at heq
    rw [after_error heq]
    exact .refl _
  | ok u =>
    rw [hadm] at heq
    rw [after_ok heq]
    exact sameOutcome_proposed r slot values

theorem serve_invariant {I : ReplicaCore V → Prop} (hI : ∀ r r', I r → Change r r' → I r') (r : ReplicaCore V)
    (call : ReplicaCall V) (h : I r) : I (r.serve call) := by
  cases call with
  | op op =>
    cases op with
    | enqueue values => exact (keeps_enqueue hI values).after h
    | nextProposal => exact (keeps_nextProposal hI).after h
    | applyDecision d => exact (keeps_applyDecision hI d).after h
    | pruneThrough slot => exact hI _ _ h (.prune slot)
  | noteProposed slot values => exact (keeps_noteProposed hI slot values).after h

theorem calm_serve (r : ReplicaCore V) (call : ReplicaCall V) (h : r.Calm) (hbelow : call.BelowLast) :
    (r.serve call).Calm := by
  have hsound : (r.serve call).Sound := serve_invariant (fun _ _ => sound_change) r call h.sound
  cases call with
  | op op =>
    cases op with
    | enqueue values => exact h.same hsound (sameOutcome_enqueue r values)
    | nextProposal => exact h.same hsound (sameOutcome_nextProposal r)
    | applyDecision d =>
      show (after (applyDecision d) r).Calm
      rcases h.applyDecision_cases hbelow with ⟨e, heq⟩ | ⟨ds, s, heq, hcalm, _⟩
      · rw [after_error heq]
        exact h
      · rw [after_ok heq]
        exact hcalm
    | pruneThrough slot => exact h.prune hsound
  | noteProposed slot values => exact h.same hsound (sameOutcome_noteProposed r slot values)

end ReplicaCore

structure CommitRecord (V : Type) where
  replica : ReplicaCore V
  /-- The decisions of the calls of `applyDecision` that returned, in this order. -/
  applied : List (Decision V)
  /-- All vectors these calls have returned, one after the other. -/
  committed : List (Decision V)

namespace CommitRecord

def start (config : ReplicaConfig) : CommitRecord V := ⟨.new config, [], []⟩

/-- What is committed is what the applied decisions deliver, and the log ahead of the frontier
holds the first decision applied for each slot. -/
structure InOrder (p : CommitRecord V) : Prop where
  calm : p.replica.Calm
  count : p.replica.nextCommit = p.committed.length + 1
  keys : p.committed.map (·.slot) = List.range' 1 p.committed.length
  first : ∀ d ∈ p.committed, p.applied.find? (fun e => e.slot = d.slot) = some d
  ahead : ∀ slot, p.replica.nextCommit ≤ slot → p.replica.decisionAt slot = p.applied.find? (fun e => e.slot = slot)

theorem inOrder_start (config : ReplicaConfig) : (start config : CommitRecord V).InOrder where
  calm := ReplicaCore.calm_new config
  count := rfl
  keys := rfl
  first _ hd := nomatch hd
  ahead slot hslot := by
    have hne : slot ≠ SlotIndex.genesis := Nat.ne_zero_of_lt hslot
    simp only [start, ReplicaSnapshot.decisionAt, ReplicaCore.new, OrderedMap.get_insert, if_neg hne,
      OrderedMap.get_emptyCollection]
    rfl

theorem InOrder.deliverable {p : CommitRecord V} (h : p.InOrder) : Deliverable (·.slot) p.applied p.committed where
  keys := h.keys
  first := h.first
  stop d hd hslot := by
    have hnone := h.ahead p.replica.nextCommit (le_refl _)
    rw [h.calm.waits.1] at hnone
    have hnot := List.find?_eq_none.mp hnone.symm d hd
    exact hnot (decide_eq_true (hslot.trans h.count.symm))

private theorem InOrder.same {p : CommitRecord V} {r : ReplicaCore V} (h : p.InOrder) (hcalm : r.Calm)
    (hs : ReplicaSnapshot.SameOutcome p.replica.snapshot r.snapshot) : InOrder { p with replica := r } where
  calm := hcalm
  count := hs.nextCommit.trans h.count
  keys := h.keys
  first := h.first
  ahead slot hslot := by
    have hold : p.replica.nextCommit ≤ slot := hs.nextCommit ▸ hslot
    exact (congrFun hs.decisionAt slot).trans (h.ahead slot hold)

variable [DecidableEq V]

def step (p : CommitRecord V) : ReplicaCall V → CommitRecord V
  | .op (.applyDecision d) =>
    match ReplicaCore.applyDecision d p.replica with
    | .ok ds replica => ⟨replica, p.applied ++ [d], p.committed ++ ds⟩
    | .error _ replica => { p with replica }
  | call => { p with replica := p.replica.serve call }

private theorem InOrder.applied {p : CommitRecord V} {d : Decision V} {ds : List (Decision V)} {s : ReplicaCore V}
    (h : p.InOrder)
    (hok : ReplicaCore.applyDecision d p.replica = .ok ds s) (hcalm : s.Calm)
    (ha : ReplicaCore.Applied p.replica d ds s) :
    InOrder ⟨s, p.applied ++ [d], p.committed ++ ds⟩ := by
  obtain ⟨hhere, hstored⟩ := ReplicaCore.applyDecision_stores h.calm.ordered hok
  have hahead : ∀ slot, p.replica.nextCommit ≤ slot →
      s.decisionAt slot = (p.applied ++ [d]).find? (fun e => e.slot = slot) := by
    intro slot hslot
    have hold := h.ahead slot hslot
    rw [List.find?_append, ← hold]
    by_cases heq : slot = d.slot
    · subst heq
      rw [hhere]
      cases p.replica.decisionAt d.slot <;> simp
    · rw [ha.others slot heq]
      have hnone : [d].find? (fun e => e.slot = slot) = none := by simp [Ne.symm heq]
      rw [hnone, Option.or_none]
  refine ⟨hcalm, ?_, ?_, ?_, ?_⟩
  · rw [ha.nextCommit, h.count, List.length_append]
    exact Nat.add_right_comm ..
  · rw [List.map_append, h.keys, ha.slots, h.count, List.length_append, Nat.add_comm p.committed.length 1]
    exact List.range'_append_1 ..
  · intro e he
    rcases List.mem_append.mp he with he | he
    · rw [List.find?_append, h.first e he, Option.some_or]
    · rw [← hahead e.slot (ha.slot_range he).1]
      exact hstored e he
  · intro slot hslot
    refine hahead slot ?_
    rw [ha.nextCommit] at hslot
    exact (Nat.le_add_right _ _).trans hslot

theorem inOrder_step (p : CommitRecord V) (call : ReplicaCall V) (h : p.InOrder) (hbelow : call.BelowLast) :
    (p.step call).InOrder := by
  have hcalm : (p.replica.serve call).Calm := ReplicaCore.calm_serve _ call h.calm hbelow
  cases call with
  | op op =>
    cases op with
    | enqueue values => exact h.same hcalm (ReplicaCore.sameOutcome_enqueue _ values)
    | nextProposal => exact h.same hcalm (ReplicaCore.sameOutcome_nextProposal _)
    | applyDecision d =>
      rcases h.calm.applyDecision_cases hbelow with ⟨e, heq⟩ | ⟨ds, s, heq, hs, ha⟩
      · simp only [step, heq]
        exact h
      · simp only [step, heq]
        exact h.applied heq hs ha
    | pruneThrough slot =>
      have hfrontier := ReplicaCore.checkpoint_lt_prune h.calm.sound.frontier slot
      refine ⟨hcalm, h.count, h.keys, h.first, fun k hk => ?_⟩
      exact (ReplicaCore.decisionAt_prune (hfrontier.trans_le hk)).trans (h.ahead k hk)
  | noteProposed slot values => exact h.same hcalm (ReplicaCore.sameOutcome_noteProposed _ slot values)

private theorem inOrder_run (config : ReplicaConfig) {calls : List (ReplicaCall V)}
    (h : ∀ call ∈ calls, call.BelowLast) :
    (run step (start config) calls).InOrder :=
  run_invariant inOrder_step (inOrder_start config) (Along.of_mem h _)

/-- What has been returned are the decisions of the slots from 1 through the frontier, each of them
the first one applied for its slot, and the next slot has none. Two runs that apply the same
decisions, in whatever order and between whatever other calls, return the same sequence. -/
theorem commits_in_order (config : ReplicaConfig) (calls : List (ReplicaCall V)) (h : ∀ call ∈ calls, call.BelowLast) :
    let p := run step (start config : CommitRecord V) calls
    (p.committed.map (·.slot) = List.range' 1 p.replica.committedThrough ∧
      (∀ d ∈ p.committed, p.applied.find? (fun e => e.slot = d.slot) = some d) ∧
      ∀ d ∈ p.applied, d.slot ≠ p.replica.committedThrough + 1) ∧
    ∀ (config' : ReplicaConfig) (calls' : List (ReplicaCall V)), (∀ call ∈ calls', call.BelowLast) →
      let q := run step (start config' : CommitRecord V) calls'
      (∀ d, d ∈ p.applied ↔ d ∈ q.applied) →
      ((∀ d ∈ p.applied, ∀ e ∈ p.applied, d.slot = e.slot → d.valueIds = e.valueIds) →
        p.committed.map (fun d => (d.slot, d.valueIds)) = q.committed.map fun d => (d.slot, d.valueIds)) ∧
      ((∀ d ∈ p.applied, ∀ e ∈ p.applied, d.slot = e.slot → d = e) → p.committed = q.committed) := by
  intro p
  have hp : p.InOrder := inOrder_run config h
  have hthrough : p.replica.committedThrough = p.committed.length := by
    rw [ReplicaCore.committedThrough, hp.count]
    rfl
  rw [hthrough]
  refine ⟨⟨hp.keys, hp.first, hp.deliverable.stop⟩, ?_⟩
  intro config' calls' h' q hsame
  have hq : q.InOrder := inOrder_run config' h'
  refine ⟨fun hagree => ?_, fun hagree => ?_⟩
  · refine hp.deliverable.map_eq hq.deliverable hsame fun d hd e he hslot => ?_
    rw [hslot, hagree d hd e he hslot]
  · have hmap := hp.deliverable.map_eq (f := id) hq.deliverable hsame hagree
    rwa [List.map_id, List.map_id] at hmap

/-- Slot 2 before slot 1, a repetition, a conflict and one for a pruned slot: returned are the two
first decisions in order, as if they had come in order. -/
theorem commits_in_order_reversed :
    let calls : List (ReplicaCall Nat) := [.op (.applyDecision ⟨2, [20], 1, 4⟩), .noteProposed 1 [30],
      .op (.applyDecision ⟨1, [10], 1, 4⟩), .op (.applyDecision ⟨2, [20], 1, 4⟩), .op (.applyDecision ⟨2, [21], 1, 4⟩),
      .op (.pruneThrough 1), .op (.applyDecision ⟨1, [11], 1, 4⟩)]
    let p := run step (start .default : CommitRecord Nat) calls
    p.committed = [⟨1, [10], 1, 4⟩, ⟨2, [20], 1, 4⟩] ∧ p.applied.length = 4 ∧
      p.committed.map (·.slot) = List.range' 1 p.replica.committedThrough := by
  intro calls p
  have hcommitted : p.committed = [⟨1, [10], 1, 4⟩, ⟨2, [20], 1, 4⟩] := by decide +kernel
  have happlied : p.applied.length = 4 := by decide +kernel
  exact ⟨hcommitted, happlied, (commits_in_order .default calls (by decide)).1.1⟩

end CommitRecord

namespace ReplicaCore
variable [DecidableEq V]

/-- At any time the replica can be rebuilt from its own snapshot, exactly as it was. -/
theorem snapshot_restores (config : ReplicaConfig) (calls : List (ReplicaCall V)) (h : ∀ call ∈ calls, call.BelowLast) :
    let r := run serve (new config) calls
    restore config r.snapshot = .ok r ∧ r.pending.length ≤ config.maxPendingValues ∧
      r.retainedSlots ≤ config.maxLogSlots ∧ r.seenValueIds.card ≤ config.maxTrackedValueIds ∧
      (∀ v ∈ r.valueIds, v ∈ r.seenValueIds) ∧
      ∀ slot, r.checkpointedThrough < slot → slot ≤ r.committedThrough →
        ∃ entry, r.log.get slot = some entry ∧ entry.committed = true ∧ entry.decision.isSome = true := by
  intro r
  have hcalm : r.Calm := run_invariant calm_serve (calm_new config) (Along.of_mem h _)
  have hconfig : r.config = config := by
    refine run_invariant_all (I := fun s : ReplicaCore V => s.config = config) (fun s call hs => ?_) rfl calls
    exact serve_invariant (fun _ _ heq hc => hc.config_eq.trans heq) s call hs
  have hrestore : restore r.config r.snapshot = .ok r := by
    refine (restore_snapshot_iff hcalm.sound).mpr fun e hget => Bool.eq_false_of_not_eq_true fun hcommitted => ?_
    exact hcalm.short.2 (by rw [ReplicaSnapshot.Jammed, hget]; exact hcommitted)
  rw [hconfig] at hrestore
  refine ⟨hrestore, hconfig ▸ hcalm.sound.pendingRoom, hconfig ▸ hcalm.sound.slotRoom, hconfig ▸ hcalm.sound.trackRoom,
    ?_, ?_⟩
  · intro v hv
    rcases ReplicaSnapshot.mem_valueIds.mp hv with hv | ⟨slot, e, hget, hm⟩
    · exact hcalm.sound.queued v hv
    · exact hcalm.sound.logged slot e hget v hm
  · intro slot hlo hhi
    refine hcalm.sound.committed slot hlo (lt_of_le_of_lt hhi ?_)
    exact Nat.sub_lt (Nat.zero_lt_of_lt hcalm.sound.frontier) Nat.one_pos

/-- A replica with a proposal, a decision ahead of the frontier and a late one for a pruned slot. -/
theorem snapshot_restores_after_pruning :
    let calls : List (ReplicaCall Nat) := [.op (.enqueue [10, 20]), .op .nextProposal,
      .op (.applyDecision ⟨1, [30], 2, 4⟩),
      .op (.applyDecision ⟨3, [40], 2, 4⟩), .op (.pruneThrough 1), .op (.applyDecision ⟨1, [50], 2, 4⟩),
        .noteProposed 5 [60]]
    let r := run serve (new ⟨1, 2, 10, 10, 10⟩ : ReplicaCore Nat) calls
    r.log.keys = [0, 1, 3, 5] ∧ restore ⟨1, 2, 10, 10, 10⟩ r.snapshot = .ok r := by
  intro calls r
  exact ⟨by decide +kernel, (snapshot_restores ⟨1, 2, 10, 10, 10⟩ calls (by decide)).1⟩

end ReplicaCore
end QuePaxa
