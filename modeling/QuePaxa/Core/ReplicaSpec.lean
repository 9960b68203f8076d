import QuePaxa.Core.Replica
import QuePaxa.Library.Runs

/-! What each replica call can do, as a sequence of elementary changes, and the
well-formedness they preserve. -/
namespace QuePaxa
open Library
variable {V : Type}
variable {r : ReplicaCore V} {slot : SlotIndex} {values : List V}

/-- Closed for new own proposals: behind the commit frontier, decided or already claimed. -/
def ReplicaSnapshot.Claimed (s : ReplicaSnapshot V) (slot : SlotIndex) : Prop :=
  slot < s.nextCommit ∨ (s.log.get slot).any (·.taken) = true

namespace ReplicaCore

def entry (r : ReplicaCore V) (slot : SlotIndex) : LogSlot V := (r.log.get slot).getD .default

section
variable [DecidableEq V]

def proposed (r : ReplicaCore V) (slot : SlotIndex) (valueIds : List V) : ReplicaCore V :=
  { r with
    seenValueIds := r.seenValueIds ∪ valueIds.toFinset
    lastProposed := max r.lastProposed slot
    log := r.log.insert slot { r.entry slot with proposed := valueIds } }

def decided (r : ReplicaCore V) (d : Decision V) : ReplicaCore V :=
  { r with
    pending := requeued (r.entry d.slot) d ++ r.pending
    log := r.log.insert d.slot { r.entry d.slot with decision := some d }
    seenValueIds := r.seenValueIds ∪ d.valueIds.toFinset }

end

def marked (r : ReplicaCore V) (entry : LogSlot V) : ReplicaCore V :=
  { r with log := r.log.insert r.nextCommit { entry with committed := true, proposed := [] } }

inductive Commit : ReplicaCore V → List (Decision V) → ReplicaCore V → Prop
  | commit {r : ReplicaCore V} {entry : LogSlot V} {d : Decision V} (here : r.log.get r.nextCommit = some entry)
      (fresh : entry.committed = false) (decision : entry.decision = some d) (below : r.nextCommit < u64Max) :
      Commit r [d] { r.marked entry with nextCommit := r.nextCommit + 1 }
  | advance {r : ReplicaCore V} {entry : LogSlot V} (here : r.log.get r.nextCommit = some entry)
      (committed : entry.committed = true) (below : r.nextCommit < u64Max) :
      Commit r [] { r with nextCommit := r.nextCommit + 1 }

/-- The largest slot is committed, or was before, and the frontier cannot move past it. -/
inductive Jam : ReplicaCore V → ReplicaCore V → Prop
  | first {r : ReplicaCore V} {entry : LogSlot V} {d : Decision V} (here : r.log.get r.nextCommit = some entry)
      (fresh : entry.committed = false) (decision : entry.decision = some d) (last : ¬r.nextCommit < u64Max) :
      Jam r (r.marked entry)
  | again {r : ReplicaCore V} {entry : LogSlot V} (here : r.log.get r.nextCommit = some entry)
      (committed : entry.committed = true) (last : ¬r.nextCommit < u64Max) : Jam r r

inductive Change [DecidableEq V] : ReplicaCore V → ReplicaCore V → Prop
  | enqueue {r : ReplicaCore V} (fresh : List V) (nodup : fresh.Nodup) (new : ∀ v ∈ fresh, v ∉ r.seenValueIds)
      (room : r.pending.length + fresh.length ≤ r.config.maxPendingValues)
      (tracked : r.seenValueIds.card + fresh.length ≤ r.config.maxTrackedValueIds) :
      Change r { r with seenValueIds := r.seenValueIds ∪ fresh.toFinset, pending := r.pending ++ fresh }
  | drain {r : ReplicaCore V} (n : Nat) : Change r { r with pending := r.pending.drop n }
  | propose {r : ReplicaCore V} {slot : SlotIndex} {valueIds : List V}
      (admitted : r.admitProposal slot valueIds = .ok ()) : Change r (r.proposed slot valueIds)
  | decide {r : ReplicaCore V} {d : Decision V} (admitted : r.admitDecision d = .ok ())
      (fresh : (r.entry d.slot).decision = none)
      (room : requeued (r.entry d.slot) d = [] ∨
        r.pending.length + (requeued (r.entry d.slot) d).length ≤ r.config.maxPendingValues) :
      Change r (r.decided d)
  | commit {r r' : ReplicaCore V} {ds : List (Decision V)} (h : Commit r ds r') : Change r r'
  | jam {r r' : ReplicaCore V} (h : Jam r r') : Change r r'
  | prune {r : ReplicaCore V} (slot : SlotIndex) : Change r (r.pruneThrough slot)

private def scanStep (r : ReplicaCore V) (slot : SlotIndex) : Result (SlotIndex ⊕ SlotIndex) :=
  if (r.log.get slot).any (·.taken) then
    match slot.checkedNext with
    | some next => .ok (.inl next)
    | none => .error .slotOverflow
  else .ok (.inr slot)

private theorem scanStep_inl {a a' : SlotIndex} (h : r.scanStep a = .ok (.inl a')) :
    a' = a + 1 ∧ a < u64Max ∧ (r.log.get a).any (·.taken) = true := by
  simp only [scanStep, SlotIndex.checkedNext] at h
  split_ifs at h with htaken hlast
  · cases h
    exact ⟨rfl, hlast, htaken⟩
  · cases h

private theorem scanStep_inr {a b : SlotIndex} (h : r.scanStep a = .ok (.inr b)) :
    b = a ∧ (r.log.get a).any (·.taken) = false := by
  simp only [scanStep, SlotIndex.checkedNext] at h
  split_ifs at h with htaken hlast
  · cases h
  · cases h
    exact ⟨rfl, Bool.eq_false_of_not_eq_true htaken⟩

structure TakenUpTo (r : ReplicaCore V) (slot : SlotIndex) : Prop where
  frontier : r.nextCommit ≤ slot
  below : ∀ k, r.nextCommit ≤ k → k < slot → k < u64Max ∧ (r.log.get k).any (·.taken) = true

private theorem nextOpenSlot_ok (h : r.nextOpenSlot = .ok slot) :
    r.TakenUpTo slot ∧ (r.log.get slot).any (·.taken) = false := by
  have hturn : ∀ a a', r.TakenUpTo a → r.scanStep a = .ok (.inl a') →
      r.TakenUpTo a' ∧ r.log.keysFrom a' < r.log.keysFrom a := by
    intro a a' hup hstep
    obtain ⟨rfl, hlast, htaken⟩ := scanStep_inl hstep
    refine ⟨⟨Nat.le_succ_of_le hup.frontier, fun k hlo hhi => ?_⟩, ?_⟩
    · rcases Nat.lt_succ_iff_lt_or_eq.mp hhi with hlt | rfl
      · exact hup.below k hlo hlt
      · exact ⟨hlast, htaken⟩
    · obtain ⟨entry, hget, _⟩ := (Option.any_eq_true _ _).mp htaken
      exact OrderedMap.keysFrom_lt hget (Nat.lt_succ_self a)
  have hstart : r.TakenUpTo r.nextCommit := ⟨le_refl _, fun k hlo hhi => absurd hhi (not_lt.mpr hlo)⟩
  obtain ⟨last, hup, hbreak⟩ := loop_ok hturn hstart (r.log.keysFrom_lt_size _) h
  obtain ⟨rfl, hopen⟩ := scanStep_inr hbreak
  exact ⟨hup, hopen⟩

/-- One turn of the commit loop stops, moves the frontier, or finds it at its end. -/
theorem commitStep_cases (committed : List (Decision V)) (r : ReplicaCore V) :
    commitStep committed r = .ok (.inr committed) r ∨
    (∃ ds r', commitStep committed r = .ok (.inl (committed ++ ds)) r' ∧ Commit r ds r') ∨
    ∃ e r', commitStep committed r = .error e r' ∧ Jam r r' := by
  simp only [commitStep, bind_apply, get_apply]
  cases hget : r.log.get r.nextCommit with
  | none => exact .inl rfl
  | some entry =>
    by_cases hcommitted : entry.committed = true
    · simp only [hcommitted, if_true, bind_apply, advance, SlotIndex.checkedNext]
      by_cases hlt : r.nextCommit < u64Max
      · simp only [hlt, if_true, pure_apply]
        exact .inr (.inl ⟨[], _, by rw [List.append_nil], .advance hget hcommitted hlt⟩)
      · simp only [hlt, if_false]
        exact .inr (.inr ⟨_, r, rfl, .again hget hcommitted hlt⟩)
    · have hfresh := Bool.eq_false_of_not_eq_true hcommitted
      simp only [hfresh, Bool.false_eq_true, if_false]
      obtain ⟨proposed, decision, committed⟩ := entry
      cases hd : decision with
      | none => exact .inl rfl
      | some d =>
        subst hd
        simp only [bind_apply, set_apply, advance, SlotIndex.checkedNext]
        by_cases hlt : r.nextCommit < u64Max
        · simp only [hlt, if_true, pure_apply]
          exact .inr (.inl ⟨[d], _, rfl, .commit hget hfresh rfl hlt⟩)
        · simp only [hlt, if_false]
          exact .inr (.inr ⟨_, _, rfl, .first hget hfresh rfl hlt⟩)

private theorem keeps_commitStep {I : ReplicaCore V → Prop} (hC : ∀ r ds r', I r → Commit r ds r' → I r')
    (hJ : ∀ r r', I r → Jam r r' → I r') (committed : List (Decision V)) : Keeps I (commitStep committed) := by
  intro s hs
  rcases commitStep_cases committed s with heq | ⟨ds, s', heq, hc⟩ | ⟨e, s', heq, hjam⟩
  · rw [heq]
    exact hs
  · rw [heq]
    exact hC s ds s' hs hc
  · rw [heq]
    exact hJ s s' hs hjam

theorem keeps_commitReady {I : ReplicaCore V → Prop} (hC : ∀ r ds r', I r → Commit r ds r' → I r')
    (hJ : ∀ r r', I r → Jam r r' → I r') : Keeps I (commitReady (V := V)) := by
  intro s hs
  exact Keeps.loop (keeps_commitStep hC hJ) _ _ s hs

section Calls
variable [DecidableEq V] {r r' : ReplicaCore V} {I : ReplicaCore V → Prop}

theorem mem_freshValues {seen : Finset V} {v : V} (h : v ∈ freshValues seen values) :
    v ∉ seen ∧ v ∈ values := by
  induction values generalizing seen with
  | nil => cases h
  | cons value rest ih =>
    rw [freshValues] at h
    split_ifs at h with hs
    · exact ⟨(ih h).1, List.mem_cons_of_mem _ (ih h).2⟩
    · rcases List.mem_cons.mp h with rfl | h
      · exact ⟨hs, List.mem_cons_self⟩
      · have hrest := ih h
        exact ⟨fun hv => hrest.1 (Finset.mem_insert_of_mem hv), List.mem_cons_of_mem _ hrest.2⟩

theorem seen_or_fresh (seen : Finset V) {v : V} (h : v ∈ values) :
    v ∈ seen ∨ v ∈ freshValues seen values := by
  induction values generalizing seen with
  | nil => cases h
  | cons value rest ih =>
    rw [freshValues]
    split_ifs with hs
    · rcases List.mem_cons.mp h with rfl | h
      · exact .inl hs
      · exact ih seen h
    · rcases List.mem_cons.mp h with rfl | h
      · exact .inr List.mem_cons_self
      · rcases ih (insert value seen) h with hseen | hfresh
        · rcases Finset.mem_insert.mp hseen with rfl | hseen
          · exact .inr List.mem_cons_self
          · exact .inl hseen
        · exact .inr (List.mem_cons_of_mem _ hfresh)

theorem freshValues_nodup (seen : Finset V) (values : List V) : (freshValues seen values).Nodup := by
  induction values generalizing seen with
  | nil => exact List.nodup_nil
  | cons value rest ih =>
    rw [freshValues]
    split_ifs
    · exact ih seen
    · apply List.nodup_cons.mpr
      exact ⟨fun h => (mem_freshValues h).1 (Finset.mem_insert_self ..), ih _⟩

theorem enqueue_cases (values : List V) (r : ReplicaCore V) :
    (∃ e, enqueue values r = .error e r) ∨ ∃ fresh,
      enqueue values r =
        .ok () { r with seenValueIds := r.seenValueIds ∪ fresh.toFinset, pending := r.pending ++ fresh } ∧
      Change r { r with seenValueIds := r.seenValueIds ∪ fresh.toFinset, pending := r.pending ++ fresh } := by
  simp only [enqueue, bind_apply, get_apply, require]
  by_cases hroom : r.pending.length + (freshValues r.seenValueIds values).length ≤ r.config.maxPendingValues
  swap
  · simp only [hroom, if_false, check_error]
    exact .inl ⟨_, rfl⟩
  by_cases htrack : r.seenValueIds.card + (freshValues r.seenValueIds values).length ≤ r.config.maxTrackedValueIds
  swap
  · simp only [hroom, htrack, if_true, if_false, check_ok, check_error]
    exact .inl ⟨_, rfl⟩
  simp only [hroom, htrack, if_true, check_ok, set_apply]
  have hnew : ∀ v ∈ freshValues r.seenValueIds values, v ∉ r.seenValueIds := fun v hv => (mem_freshValues hv).1
  exact .inr ⟨freshValues r.seenValueIds values, rfl, .enqueue _ (freshValues_nodup _ _) hnew hroom htrack⟩

theorem enqueue_ok {u : Unit} (h : enqueue values r = .ok u r') :
    r' = { r with
      seenValueIds := r.seenValueIds ∪ (freshValues r.seenValueIds values).toFinset
      pending := r.pending ++ freshValues r.seenValueIds values } := by
  simp only [enqueue, bind_apply, get_apply, require] at h
  split_ifs at h
  · simp only [check_ok, set_apply] at h
    cases h
    rfl
  all_goals
    simp only [check_ok, check_error] at h
    cases h

theorem keeps_enqueue (hI : ∀ r r', I r → Change r r' → I r') (values : List V) : Keeps I (enqueue values) := by
  intro s hs
  rcases enqueue_cases values s with ⟨e, heq⟩ | ⟨fresh, heq, hc⟩
  · rw [heq]
    exact hs
  · rw [heq]
    exact hI s _ hs hc

theorem noteProposed_eq (slot : SlotIndex) (valueIds : List V) (r : ReplicaCore V) :
    noteProposed slot valueIds r = match r.admitProposal slot valueIds with
      | .ok () => .ok () (r.proposed slot valueIds)
      | .error e => .error e r := by
  simp only [noteProposed, bind_apply, get_apply]
  cases r.admitProposal slot valueIds <;> rfl

theorem keeps_noteProposed (hI : ∀ r r', I r → Change r r' → I r') (slot : SlotIndex) (values : List V) :
    Keeps I (noteProposed slot values) := by
  intro s hs
  rw [noteProposed_eq]
  cases hadm : s.admitProposal slot values with
  | error e => exact hs
  | ok u => exact hI s _ hs (.propose hadm)

structure Armed (r : ReplicaCore V) (slot : SlotIndex) (values : List V) (r' : ReplicaCore V) : Prop where
  spare : r.inflightCount < r.config.pipelineLen
  lowest : r.TakenUpTo slot
  isOpen : (r.log.get slot).any (·.taken) = false
  taken : ∃ n, 0 < n ∧ values = r.pending.take n ∧
    { r with pending := r.pending.drop n }.admitProposal slot values = .ok () ∧
    r' = { r with pending := r.pending.drop n }.proposed slot values

/-- The values taken from the queue are refused for the open slot. -/
structure Refused (r : ReplicaCore V) (n : Nat) (e : QuePaxaError) : Prop where
  spare : r.inflightCount < r.config.pipelineLen
  queued : r.pending ≠ []
  size : n = max (min r.config.batchSize r.pending.length) 1
  refused : ∃ slot, r.nextOpenSlot = .ok slot ∧
    { r with pending := r.pending.drop n }.admitProposal slot (r.pending.take n) = .error e

theorem Refused.pos {n : Nat} {e : QuePaxaError} (h : r.Refused n e) : 0 < n := by
  rw [h.size]
  exact lt_max_of_lt_right Nat.one_pos

/-- A proposal comes from the queue and an open slot; a failure may have drained the queue. -/
theorem nextProposal_cases (r : ReplicaCore V) :
    (∃ slot values r', nextProposal r = .ok (some (slot, values)) r' ∧ r.Armed slot values r') ∨
    nextProposal r = .ok none r ∨
    ∃ e r', nextProposal r = .error e r' ∧ (r' = r ∨ ∃ n, r.Refused n e ∧
      r' = { r with pending := r.pending.drop n }) := by
  simp only [nextProposal, bind_apply, get_apply]
  by_cases hstop : r.config.pipelineLen ≤ r.inflightCount ∨ r.pending = []
  · rw [if_pos hstop]
    exact .inr (.inl rfl)
  rw [if_neg hstop]
  cases hslot : r.nextOpenSlot with
  | error e => exact .inr (.inr ⟨e, r, rfl, .inl rfl⟩)
  | ok slot =>
    obtain ⟨hup, hopen⟩ := nextOpenSlot_ok hslot
    obtain ⟨hspare, hqueued⟩ := not_or.mp hstop
    simp only [bind_apply, check_ok, set_apply, noteProposed_eq]
    generalize htake : max (min r.config.batchSize r.pending.length) 1 = n
    have hpos : 0 < n := htake ▸ lt_max_of_lt_right Nat.one_pos
    cases hadm : ReplicaCore.admitProposal { r with pending := r.pending.drop n } slot (r.pending.take n) with
    | error e =>
      exact .inr (.inr ⟨e, _, rfl, .inr ⟨n, ⟨not_le.mp hspare, hqueued, htake.symm, slot, hslot, hadm⟩, rfl⟩⟩)
    | ok u =>
      exact .inl ⟨slot, _, _, rfl, not_le.mp hspare, hup, hopen, n, hpos, rfl, hadm, rfl⟩

theorem keeps_nextProposal (hI : ∀ r r', I r → Change r r' → I r') : Keeps I (nextProposal (V := V)) := by
  intro s hs
  rcases nextProposal_cases s with ⟨slot, values, r', heq, harm⟩ | heq | ⟨e, r', heq, hr⟩
  · rw [heq]
    obtain ⟨n, _, _, hadm, rfl⟩ := harm.taken
    exact hI _ _ (hI _ _ hs (.drain n)) (.propose hadm)
  · rw [heq]
    exact hs
  · rw [heq]
    rcases hr with rfl | ⟨n, _, rfl⟩
    · exact hs
    · exact hI _ _ hs (.drain n)

/-- Everything `applyDecision` does before it commits the prefix. -/
theorem applyDecision_cases (d : Decision V) (r : ReplicaCore V) :
    (∃ e, applyDecision d r = .error e r) ∨
    (∃ existing, (r.entry d.slot).decision = some existing ∧ existing.valueIds = d.valueIds ∧
      r.admitDecision d = .ok () ∧ applyDecision d r = .ok [] r) ∨
    Change r (r.decided d) ∧ (r.entry d.slot).decision = none ∧ r.admitDecision d = .ok () ∧
      applyDecision d r = commitReady (r.decided d) := by
  simp only [applyDecision, bind_apply, get_apply]
  cases hadm : r.admitDecision d with
  | error e => exact .inl ⟨e, rfl⟩
  | ok u =>
    simp only [check_ok]
    cases hentry : (r.entry d.slot).decision with
    | some existing =>
      have hentry' : ((r.log.get d.slot).getD .default).decision = some existing := hentry
      simp only [hentry']
      by_cases heq : existing.valueIds = d.valueIds
      · exact .inr (.inl ⟨existing, rfl, heq, trivial, by simp [require, heq]⟩)
      · exact .inl ⟨.conflictingDecision d.slot, by simp [require, heq]⟩
    | none =>
      have hentry' : ((r.log.get d.slot).getD .default).decision = none := hentry
      simp only [hentry']
      by_cases hlost : (r.entry d.slot).proposed ≠ [] ∧ (r.entry d.slot).proposed ≠ d.valueIds
      · have hlost' : ((r.log.get d.slot).getD .default).proposed ≠ [] ∧
            ((r.log.get d.slot).getD .default).proposed ≠ d.valueIds := hlost
        by_cases hroom : r.pending.length + (requeued (r.entry d.slot) d).length ≤ r.config.maxPendingValues
        · have hroom' : r.pending.length + (requeued ((r.log.get d.slot).getD .default) d).length ≤
            r.config.maxPendingValues := hroom
          refine .inr (.inr ⟨.decide hadm hentry (.inr hroom), trivial, trivial, ?_⟩)
          rw [if_pos hlost']
          simp only [require, if_pos hroom', bind_apply, check_ok, set_apply]
          rfl
        · refine .inl ⟨.resourceLimit "pending value IDs" r.config.maxPendingValues, ?_⟩
          have hroom' : ¬r.pending.length + (requeued ((r.log.get d.slot).getD .default) d).length ≤
            r.config.maxPendingValues := hroom
          rw [if_pos hlost']
          simp only [require, if_neg hroom', bind_apply, check_error]
      · have hnone : requeued (r.entry d.slot) d = [] := by
          rw [requeued]
          split_ifs with hne
          · have hempty : (r.entry d.slot).proposed = [] := by
              by_contra hne'
              exact hlost ⟨hne', hne⟩
            rw [hempty]
            rfl
          · rfl
        have hlost' : ¬(((r.log.get d.slot).getD .default).proposed ≠ [] ∧
          ((r.log.get d.slot).getD .default).proposed ≠ d.valueIds) := hlost
        refine .inr (.inr ⟨.decide hadm hentry (.inl hnone), trivial, trivial, ?_⟩)
        rw [if_neg hlost']
        rfl

theorem keeps_applyDecision (hI : ∀ r r', I r → Change r r' → I r') (d : Decision V) :
    Keeps I (applyDecision d) := by
  intro s hs
  rcases applyDecision_cases d s with ⟨e, heq⟩ | ⟨_, _, _, _, heq⟩ | ⟨hchange, _, _, heq⟩
  · rw [heq]
    exact hs
  · rw [heq]
    exact hs
  · rw [heq]
    have hcommit := keeps_commitReady (fun r ds r' hr hc => hI r r' hr (.commit hc))
      fun r r' hr hj => hI r r' hr (.jam hj)
    exact hcommit _ (hI _ _ hs hchange)

end Calls

theorem get_entry_of_some {e : LogSlot V} (h : r.log.get slot = some e) :
    r.entry slot = e := by
  simp only [entry, h, Option.getD_some]

theorem admitProposal_eq_ok [DecidableEq V] {u : Unit} :
    r.admitProposal slot values = .ok u ↔ values ≠ [] ∧ values.Nodup ∧
      r.seenValueIds.card + (values.toFinset \ r.seenValueIds).card ≤ r.config.maxTrackedValueIds ∧
      (r.log.contains slot = true ∨ r.retainedSlots < r.config.maxLogSlots) := by
  simp only [admitProposal, ensureTracking, ensureLogCapacity, unit_bind_eq_ok, require_eq_ok]

theorem admitDecision_eq_ok [DecidableEq V] {d : Decision V} {u : Unit} :
    r.admitDecision d = .ok u ↔ d.valueIds ≠ [] ∧ d.valueIds.Nodup ∧
      r.seenValueIds.card + (d.valueIds.toFinset \ r.seenValueIds).card ≤ r.config.maxTrackedValueIds ∧
      (r.log.contains d.slot = true ∨ r.retainedSlots < r.config.maxLogSlots) := by
  simp only [admitDecision, ensureTracking, ensureLogCapacity, unit_bind_eq_ok, require_eq_ok]

theorem restore_eq_ok [DecidableEq V] {config : ReplicaConfig} {s : ReplicaSnapshot V}
    (h : restore config s = .ok r) : r = ⟨s, config⟩ := by
  simp only [restore, unit_bind_eq_ok] at h
  obtain ⟨_, _, _, _, _, h⟩ := h
  cases hfirst : s.checkpointedThrough.checkedNext with
  | none => rw [hfirst] at h; cases h
  | some first =>
    rw [hfirst] at h
    simp only [unit_bind_eq_ok] at h
    exact (Except.ok.inj h.2.2).symm

theorem checkpoint_lt_prune (h : r.checkpointedThrough < r.nextCommit) (slot : SlotIndex) :
    (r.pruneThrough slot).checkpointedThrough < r.nextCommit := by
  apply max_lt ?_ h
  apply min_lt_of_right_lt
  exact Nat.sub_lt (Nat.zero_lt_of_lt h) Nat.one_pos

theorem checkpoint_lt_change [DecidableEq V] {r' : ReplicaCore V} (h : r.checkpointedThrough < r.nextCommit)
    (hc : Change r r') : r'.checkpointedThrough < r'.nextCommit := by
  cases hc with
  | enqueue | drain | propose | decide => exact h
  | commit hf => cases hf <;> exact Nat.lt_succ_of_lt h
  | jam hj => cases hj <;> exact h
  | prune slot => exact checkpoint_lt_prune h slot

theorem claimed_proposed [DecidableEq V]
    (h : r.admitProposal slot values = .ok ()) : (r.proposed slot values).Claimed slot := by
  have hne := (admitProposal_eq_ok.mp h).1
  right
  simp only [proposed, OrderedMap.get_insert, if_true, Option.any_some, LogSlot.taken]
  simp [hne]

end ReplicaCore

theorem ReplicaSnapshot.Claimed.change [DecidableEq V] {r' : ReplicaCore V} (h : r.Claimed slot)
    (hlt : r.checkpointedThrough < r.nextCommit) (hc : ReplicaCore.Change r r') : r'.Claimed slot := by
  have hput : ∀ (log : OrderedMap SlotIndex (LogSlot V)) (k : SlotIndex) (e : LogSlot V), e.taken = true →
      (log.get slot).any (·.taken) = true → ((log.insert k e).get slot).any (·.taken) = true := by
    intro log k e htaken hget
    rw [OrderedMap.get_insert]
    split_ifs
    · exact htaken
    · exact hget
  rcases h with hbehind | htaken
  · cases hc with
    | enqueue | drain | propose | decide | prune => exact .inl hbehind
    | commit hf => cases hf <;> exact .inl (Nat.lt_succ_of_lt hbehind)
    | jam hj => cases hj <;> exact .inl hbehind
  · cases hc with
    | enqueue | drain => exact .inr htaken
    | propose admitted =>
      have hne := (ReplicaCore.admitProposal_eq_ok.mp admitted).1
      exact .inr (hput _ _ _ (by simp [LogSlot.taken, hne]) htaken)
    | decide => exact .inr (hput _ _ _ (by simp [LogSlot.taken]) htaken)
    | commit hf =>
      cases hf with
      | commit _ _ hd => exact .inr (hput _ _ _ (by simp [LogSlot.taken, hd]) htaken)
      | advance => exact .inr htaken
    | jam hj =>
      cases hj with
      | first _ _ hd => exact .inr (hput _ _ _ (by simp [LogSlot.taken, hd]) htaken)
      | again => exact .inr htaken
    | prune through =>
      by_cases hbehind : slot < r.nextCommit
      · exact .inl hbehind
      cases hget : r.log.get slot with
      | none => rw [hget] at htaken; cases htaken
      | some e =>
        -- what pruning drops lies at or below the new checkpoint
        have hthrough : (r.pruneThrough through).checkpointedThrough < slot :=
          (ReplicaCore.checkpoint_lt_change hlt (.prune through)).trans_le (not_lt.mp hbehind)
        have hkept : (r.pruneThrough through).log.get slot = some e :=
          (OrderedMap.get_retain ..).mpr ⟨hget, by
            simp only [Bool.or_eq_true, decide_eq_true_eq]; exact .inl (.inr hthrough)⟩
        rw [hget] at htaken
        exact .inr (hkept ▸ htaken)

end QuePaxa
