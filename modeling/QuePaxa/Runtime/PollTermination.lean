import QuePaxa.Runtime.Moves

/-! The loop of `poll` has no counter. Each time it goes around it has put the deadline of one
due proposal past `now`, so it goes around at most once for every pending proposal. -/
namespace QuePaxa
open Library
variable {V : Type}

namespace ReplicaRuntime

def due (r : ReplicaRuntime V) (now : Instant) : Finset SlotIndex :=
  (r.pending.retain fun _ p => p.readyAt.any (· ≤ now)).keys.toFinset

section
variable {r r' : ReplicaRuntime V} {now : Instant} {slot : SlotIndex}

theorem mem_due : slot ∈ r.due now ↔ ∃ p deadline, r.pending.get slot = some p ∧ p.readyAt = some deadline ∧
    deadline ≤ now := by
  simp only [due, List.mem_toFinset, OrderedMap.mem_keys, OrderedMap.get_retain, Option.any_eq_true, decide_eq_true_eq]
  constructor
  · rintro ⟨p, hp, deadline, hready, hle⟩
    exact ⟨p, deadline, hp, hready, hle⟩
  · rintro ⟨p, deadline, hp, hready, hle⟩
    exact ⟨p, hp, deadline, hready, hle⟩

theorem due_subset_pending : r.due now ⊆ r.pending.keys.toFinset := by
  intro slot hslot
  obtain ⟨p, _, hp, _⟩ := mem_due.mp hslot
  exact List.mem_toFinset.mpr (OrderedMap.mem_keys_of_get hp)

private theorem card_due_le : (r.due now).card ≤ r.pending.size := by
  rw [OrderedMap.size_eq_card]
  exact Finset.card_le_card due_subset_pending

private theorem due_deferred {p : PendingProposal V} {deadline : Instant} (hready : p.readyAt = some deadline)
    (hlate : now < deadline)
    (heq : r'.pending = r.pending.insert slot p) : r'.due now = (r.due now).erase slot := by
  ext k
  rw [Finset.mem_erase, mem_due, mem_due, heq]
  simp only [OrderedMap.get_insert]
  by_cases hk : k = slot
  · simp only [hk, if_true, ne_eq, not_true_eq_false, false_and, iff_false]
    rintro ⟨p', deadline', hp', hready', hle⟩
    obtain rfl := Option.some.inj hp'
    rw [hready] at hready'
    obtain rfl := Option.some.inj hready'
    exact absurd hlate (not_lt.mpr hle)
  · simp only [hk, if_false, ne_eq, not_false_eq_true, true_and]

end

section
variable {env : Environment V} {r r' : ReplicaRuntime V} {now : Instant} {slot : SlotIndex}

private theorem ensureScheduleFor_pending {schedule : EpochSchedule} (h : ensureScheduleFor slot r = .ok schedule r') :
    r'.pending = r.pending := by
  have hkeeps : Keeps (fun s : ReplicaRuntime V => s.pending = r.pending) (ensureScheduleFor slot) :=
    Keeps.bind Keeps.get fun _ => keeps_onTuner fun _ hs => hs
  exact hkeeps.ok rfl h

private theorem probeSlotStep_pending {observed : Option Step} (h : probeSlotStep env slot r = .ok observed r') :
    r'.pending = r.pending := by
  have hkeeps : Keeps (fun s : ReplicaRuntime V => s.pending = r.pending) (probeSlotStep env slot) :=
    Keeps.bind Keeps.get fun _ => Keeps.bind (Keeps.gather fun _ _ _ hs => hs) fun _ => Keeps.pure _
  exact hkeeps.ok rfl h

/-- A deferral moves the deadline of its slot past the present. -/
theorem deferForProgress_true {schedule : EpochSchedule} (h : deferForProgress env slot schedule now r = .ok true r') :
    ∃ p deadline, p.readyAt = some deadline ∧ now < deadline ∧ r'.pending = r.pending.insert slot p := by
  simp only [deferForProgress, bind_apply (x := get), get_apply] at h
  split_ifs at h with hskip
  · cases h
  have hdelay : 0 < r.hedgeDelay.current := Nat.pos_of_ne_zero (not_or.mp hskip).1
  obtain ⟨observed, s, hprobe, h⟩ := bind_eq_ok.mp h
  simp only [bind_apply (x := get), get_apply] at h
  cases hget : s.pending.get slot with
  | none =>
    rw [hget] at h
    cases h
  | some p =>
    simp only [hget] at h
    split_ifs at h
    · cases h
      refine ⟨{ p with lastObservedStep := observed, readyAt := some (now + r.hedgeDelay.current) }, _, rfl, ?_, ?_⟩
      · exact Nat.lt_add_of_pos_right hdelay
      · rw [← probeSlotStep_pending hprobe]
    · cases h

variable [DecidableEq V]

/-- The loop goes around once it has put off a proposal that was due. -/
theorem pollStep_continues (h : pollStep env now () r = .ok (.inl ()) r') :
    ∃ slot deadline, r.nextDeadline = some (slot, deadline) ∧ slot ∈ r.due now ∧
      r'.due now = (r.due now).erase slot := by
  simp only [pollStep, bind_apply (x := get), get_apply] at h
  cases hnext : r.nextDeadline with
  | none =>
    rw [hnext] at h
    cases h
  | some e =>
    obtain ⟨slot, deadline⟩ := e
    simp only [hnext] at h
    split_ifs at h with hwait
    · cases h
    obtain ⟨schedule, s, hschedule, h⟩ := bind_eq_ok.mp h
    obtain ⟨deferred, s', hdefer, h⟩ := bind_eq_ok.mp h
    cases deferred with
    | false =>
      simp only [Bool.false_eq_true, if_false] at h
      obtain ⟨_, _, _, h⟩ := bind_eq_ok.mp h
      cases h
    | true =>
      cases h
      obtain ⟨p, hp, hready⟩ := get_of_nextDeadline hnext
      obtain ⟨p', deadline', hready', hlate, hpending⟩ := deferForProgress_true hdefer
      refine ⟨slot, deadline, rfl, mem_due.mpr ⟨p, deadline, hp, hready, not_lt.mp hwait⟩, ?_⟩
      rw [ensureScheduleFor_pending hschedule] at hpending
      exact due_deferred hready' hlate hpending

end

inductive Deferrals [DecidableEq V] (env : Environment V) (now : Instant) :
    ReplicaRuntime V → List SlotIndex → ReplicaRuntime V → Prop
  | none (r : ReplicaRuntime V) : Deferrals env now r [] r
  | next {r r' s : ReplicaRuntime V} {slot : SlotIndex} {deadline : Instant} {slots : List SlotIndex}
      (chosen : r.nextDeadline = some (slot, deadline)) (turn : pollStep env now () r = .ok (.inl ()) r')
      (rest : Deferrals env now r' slots s) : Deferrals env now r (slot :: slots) s

namespace Deferrals
variable [DecidableEq V] {env : Environment V} {now : Instant} {r s : ReplicaRuntime V} {slots : List SlotIndex}

/-- No slot is put off twice, and each of them was due at the beginning. -/
theorem distinct (h : Deferrals env now r slots s) : slots.Nodup ∧ ∀ slot ∈ slots, slot ∈ r.due now := by
  induction h with
  | none r => exact ⟨List.nodup_nil, nofun⟩
  | @next r r' s slot deadline slots chosen turn rest ih =>
    obtain ⟨slot', deadline', hnext, hdue, herase⟩ := pollStep_continues turn
    rw [chosen] at hnext
    cases hnext
    obtain ⟨hnodup, hlater⟩ := ih
    rw [herase] at hlater
    refine ⟨List.nodup_cons.mpr ⟨fun hmem => Finset.notMem_erase slot _ (hlater slot hmem), hnodup⟩, fun k hk => ?_⟩
    rcases List.mem_cons.mp hk with rfl | hk
    · exact hdue
    · exact Finset.mem_of_mem_erase (hlater k hk)

private theorem length_le (h : Deferrals env now r slots s) : slots.length ≤ (r.due now).card := by
  obtain ⟨hnodup, hdue⟩ := h.distinct
  rw [← List.toFinset_card_of_nodup hnodup]
  exact Finset.card_le_card fun slot hslot => hdue slot (List.mem_toFinset.mp hslot)

/-- The bounded loop spends one turn on each deferral. -/
theorem loop_eq (h : Deferrals env now r slots s) (out : Unit → RuntimePoll V) (n : Nat) :
    loop (pollStep env now) out (slots.length + n) () r = loop (pollStep env now) out n () s := by
  induction h with
  | none r => rw [List.length_nil, Nat.zero_add]
  | next chosen turn rest ih =>
    rw [List.length_cons, Nat.add_right_comm, loop, bind_apply, turn]
    exact ih

private theorem exists_last (env : Environment V) (now : Instant) (r : ReplicaRuntime V) :
    ∃ slots s, Deferrals env now r slots s ∧ ∀ s', pollStep env now () s ≠ .ok (.inl ()) s' := by
  generalize hn : (r.due now).card = n
  induction n using Nat.strong_induction_on generalizing r with
  | h n ih =>
    by_cases hgo : ∃ r', pollStep env now () r = .ok (.inl ()) r'
    · obtain ⟨r', turn⟩ := hgo
      obtain ⟨slot, deadline, chosen, hdue, herase⟩ := pollStep_continues turn
      have hless : (r'.due now).card < n := by
        rw [herase, ← hn]
        exact Finset.card_erase_lt_of_mem hdue
      obtain ⟨slots, s, hrest, hlast⟩ := ih _ hless r' rfl
      exact ⟨slot :: slots, s, .next chosen turn hrest, hlast⟩
    · exact ⟨[], r, .none r, fun s' hs' => hgo ⟨s', hs'⟩⟩

end Deferrals

section
variable [DecidableEq V]

def outcome (env : Environment V) (now : Instant) (s : ReplicaRuntime V) :
    EStateM.Result QuePaxaError (ReplicaRuntime V) (RuntimePoll V) :=
  match pollStep env now () s with
  | .ok (.inl ()) s' => .ok .idle s'
  | .ok (.inr poll) s' => .ok poll s'
  | .error e s' => .error e s'

/-- A bound above the number of due proposals is never used up. -/
theorem loop_outcome {env : Environment V} {now : Instant} {r s : ReplicaRuntime V} {slots : List SlotIndex}
    (h : Deferrals env now r slots s) (hlast : ∀ s', pollStep env now () s ≠ .ok (.inl ()) s') {n : Nat}
    (hn : (r.due now).card < n) : loop (pollStep env now) (fun _ => .idle) n () r = outcome env now s := by
  obtain ⟨m, rfl⟩ : ∃ m, n = slots.length + (m + 1) := by
    have hlength := h.length_le
    exact ⟨n - slots.length - 1, by omega⟩
  rw [h.loop_eq, loop, bind_apply, outcome]
  cases hturn : pollStep env now () s with
  | error e s' => rfl
  | ok next s' =>
    cases next with
    | inl u => exact absurd hturn (hlast s')
    | inr poll => rfl

/-- Polling comes to an end: the loop goes around for different pending slots only, each time
with fewer due proposals, and the turn after the last of them returns or fails. -/
theorem polling_terminates (env : Environment V) (now : Instant) :
    (∀ r r' : ReplicaRuntime V, pollStep env now () r = .ok (.inl ()) r' → (r'.due now).card < (r.due now).card) ∧
    (∀ r : ReplicaRuntime V, ∃ slots s, Deferrals env now r slots s ∧ slots.Nodup ∧
      (∀ slot ∈ slots, slot ∈ r.pending.keys) ∧
      (∀ s', pollStep env now () s ≠ .ok (.inl ()) s') ∧
      ∀ n, r.pending.size < n → loop (pollStep env now) (fun _ => .idle) n () r = outcome env now s) ∧
    ∀ (r : ReplicaRuntime V) (extra : Nat), poll env now r = (do
      flushDecisionNotifications env
      let armed ← armAvailable env now
      loop (pollStep env now) (fun _ => .idle) (armed + 1 + extra) ()) r := by
  refine ⟨fun r r' turn => ?_, fun r => ?_, fun r extra => ?_⟩
  · obtain ⟨slot, _, _, hdue, herase⟩ := pollStep_continues turn
    rw [herase]
    exact Finset.card_erase_lt_of_mem hdue
  · obtain ⟨slots, s, h, hlast⟩ := Deferrals.exists_last env now r
    obtain ⟨hnodup, hdue⟩ := h.distinct
    refine ⟨slots, s, h, hnodup, fun slot hslot => ?_, hlast,
      fun n hn => loop_outcome h hlast (card_due_le.trans_lt hn)⟩
    exact List.mem_toFinset.mp (due_subset_pending (hdue slot hslot))
  · simp only [poll, bind_apply]
    cases flushDecisionNotifications env r with
    | error e m => rfl
    | ok u m =>
      simp only
      cases harm : armAvailable env now m with
      | error e m' => rfl
      | ok armed m' =>
        have hsize : armed = m'.pending.size := by
          simp only [armAvailable, bind_eq_ok] at harm
          obtain ⟨_, _, _, _, _, _, _, _, _, _, _, hget, hpure⟩ := harm
          cases hget
          cases hpure
          rfl
        obtain ⟨slots, s, h, hlast⟩ := Deferrals.exists_last env now m'
        have hcard : (m'.due now).card ≤ m'.pending.size := card_due_le
        simp only
        rw [loop_outcome h hlast (by omega), loop_outcome h hlast (by omega)]

end
end ReplicaRuntime
end QuePaxa
