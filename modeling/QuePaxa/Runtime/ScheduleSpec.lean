import Mathlib.Data.List.GetD
import QuePaxa.Library.Mutation
import QuePaxa.Runtime.Schedule

/-! What the schedule tuner retains: schedules that are permutations of the members, and
statistics about members, none of it ahead of the committed log. -/
namespace QuePaxa
open Library

theorem duplicateOf_eq_none {replicas : List ReplicaId} : duplicateOf replicas = none ↔ replicas.Nodup := by
  simp only [duplicateOf, List.find?_eq_none, decide_eq_true_eq, not_lt]
  rw [List.nodup_iff_count_le_one]
  constructor
  · intro h r
    by_cases hr : r ∈ replicas
    · exact h r hr
    · rw [List.count_eq_zero.mpr hr]
      exact Nat.zero_le 1
  · exact fun h r _ => h r

structure EpochSchedule.Fits (members : List ReplicaId) (epoch : Nat) (schedule : EpochSchedule) : Prop where
  epoch : schedule.epoch = epoch
  nodup : schedule.proposers.Nodup
  members : schedule.proposers.toFinset = members.toFinset

namespace EpochSchedule
variable {members proposers : List ReplicaId} {epoch : Nat} {schedule : EpochSchedule}

private theorem fits_new (h : EpochSchedule.new epoch proposers = .ok schedule)
    (hmem : ∀ r, r ∈ proposers ↔ r ∈ members) :
    schedule.Fits members epoch := by
  simp only [EpochSchedule.new] at h
  split_ifs at h
  cases hdup : duplicateOf proposers with
  | some r => rw [hdup] at h; cases h
  | none =>
    rw [hdup] at h
    cases h
    exact ⟨rfl, duplicateOf_eq_none.mp hdup, by ext r; simp only [List.mem_toFinset, hmem]⟩

private theorem Fits.leader (h : schedule.Fits members epoch) {leader : ReplicaId} (hl : schedule.leader = .ok leader) :
    leader ∈ members := by
  have hmem : leader ∈ schedule.proposers := by
    unfold EpochSchedule.leader at hl
    split at hl
    · rename_i first rest heq
      cases hl
      rw [heq]
      exact List.mem_cons_self
    · cases hl
  exact List.mem_toFinset.mp (h.members ▸ List.mem_toFinset.mpr hmem)

end EpochSchedule

namespace EpochTuner

private theorem mem_rotated {replicas : List ReplicaId} {offset : Nat} {r : ReplicaId} :
    r ∈ rotated replicas offset ↔ r ∈ replicas := by
  rw [rotated, List.mem_append, or_comm, ← List.mem_append, List.take_append_drop]

theorem mem_ranked {t : EpochTuner} {windowEnd : Nat} {r : ReplicaId} : r ∈ t.ranked windowEnd ↔ r ∈ t.members :=
  List.mem_insertionSort _

theorem derive_fits {t : EpochTuner} {epoch : Nat} {schedule : EpochSchedule} (h : t.derive epoch = .ok schedule) :
    schedule.Fits t.members epoch := by
  simp only [derive] at h
  split_ifs at h with hwarm hnone hsmall hover hbehind hexplore hempty
  · exact EpochSchedule.fits_new h fun r => mem_rotated
  · apply EpochSchedule.fits_new h
    intro r
    generalize hindex : (epoch - (2 * t.members.length + 1)) / autoReexploreEpochs % t.members.length = i
    have hi : i < t.members.length := hindex ▸ Nat.mod_lt _ (Nat.pos_of_ne_zero hempty)
    have hcandidate : t.members.getD i 0 ∈ t.members := by
      rw [List.getD_eq_getElem _ _ hi]
      exact List.getElem_mem hi
    by_cases hr : r = t.members.getD i 0
    · simp only [hr, List.mem_cons, true_or, hcandidate]
    · simp only [List.mem_cons, hr, false_or, List.mem_erase_of_ne hr, mem_ranked]
  · exact EpochSchedule.fits_new h fun r => mem_ranked

structure Serves (config : ReplicaRuntimeConfig) (t : EpochTuner) : Prop where
  epochSize : t.epochSize = max config.epochSize 1
  members : t.members = config.members
  auto : t.auto = config.autoSchedules
  schedules : ∀ epoch s, t.schedules.get epoch = some s → s.Fits config.members epoch
  stats : ∀ epoch s, t.stats.get epoch = some s →
    s.leader ∈ config.members ∧ s.slots ≠ 0 ∧ epoch ≤ t.statsThrough / t.epochSize

section
variable {config : ReplicaRuntimeConfig} {t : EpochTuner}

theorem serves_new (config : ReplicaRuntimeConfig) :
    (new config.epochSize config.members config.autoSchedules).Serves config :=
  ⟨rfl, rfl, rfl, by simp [new], by simp [new]⟩

theorem Serves.insert (h : t.Serves config) {epoch : Nat} {s : EpochSchedule} (hs : s.Fits config.members epoch) :
    Serves config { t with schedules := t.schedules.insert epoch s } := by
  refine ⟨h.epochSize, h.members, h.auto, ?_, h.stats⟩
  intro k s' hget
  rw [OrderedMap.get_insert] at hget
  split_ifs at hget with hk
  · cases hget
    exact hk ▸ hs
  · exact h.schedules k s' hget

theorem Serves.install (h : t.Serves config) {s : EpochSchedule} (hs : s.Fits config.members s.epoch) :
    (after (EpochTuner.install s) t).Serves config := by
  simp only [after, EpochTuner.install, bind_apply, get_apply]
  split_ifs
  · exact h
  · cases hget : t.schedules.get s.epoch with
    | none => exact h.insert hs
    | some existing =>
      simp only [bind_apply, require]
      split_ifs <;> exact h

theorem triple_ensureSchedule (config : ReplicaRuntimeConfig) (epoch : Nat) (through : SlotIndex) :
    Triple (fun t => t.Serves config ∧ t.statsThrough = through) (ensureSchedule epoch)
      (fun s t => (t.Serves config ∧ t.statsThrough = through) ∧ s.Fits config.members epoch)
      fun _ => Serves config := by
  rintro t ⟨h, hthrough⟩
  simp only [ensureSchedule, bind_apply, get_apply]
  cases hget : t.schedules.get epoch with
  | some s => exact ⟨⟨h, hthrough⟩, h.schedules epoch s hget⟩
  | none =>
    by_cases hauto : t.auto = true
    · have hmanual : ¬(!t.auto) = true := by simp only [hauto, Bool.not_true, Bool.false_eq_true, not_false_eq_true]
      simp only [if_neg hmanual, bind_apply]
      cases hderive : t.derive epoch with
      | error e => exact h
      | ok s =>
        have hfits := derive_fits hderive
        rw [h.members] at hfits
        exact ⟨⟨h.insert hfits, hthrough⟩, hfits⟩
    · simp only [hauto, Bool.not_false, if_true]
      exact h

private theorem Serves.counted (h : t.Serves config) {slot : SlotIndex} {leader : ReplicaId} (step : Step)
    (hleader : leader ∈ config.members) (hslot : t.statsThrough ≤ slot) :
    (t.counted slot leader step).Serves config := by
  have hstats : ∀ epoch s, (t.stats.insert (slot / t.epochSize)
      { (t.stats.get (slot / t.epochSize)).getD ⟨leader, 0, 0⟩ with
        slots := min (((t.stats.get (slot / t.epochSize)).getD ⟨leader, 0, 0⟩).slots + 1) u64Max
        decidedStepTotal := min (((t.stats.get (slot / t.epochSize)).getD ⟨leader, 0, 0⟩).decidedStepTotal + step)
          u64Max }).get
        epoch = some s → s.leader ∈ config.members ∧ s.slots ≠ 0 ∧ epoch ≤ slot / t.epochSize := by
    intro epoch s hget
    rw [OrderedMap.get_insert] at hget
    split_ifs at hget with hk
    · cases hget
      refine ⟨?_, ?_, hk.le⟩
      · cases hold : t.stats.get (slot / t.epochSize) with
        | none => exact hleader
        | some old => exact (h.stats _ old hold).1
      · exact (lt_min (Nat.succ_pos _) (by decide)).ne'
    · obtain ⟨hmem, hpos, hle⟩ := h.stats epoch s hget
      exact ⟨hmem, hpos, hle.trans (Nat.div_le_div_right hslot)⟩
  simp only [EpochTuner.counted]
  split_ifs
  · refine ⟨h.epochSize, h.members, h.auto, ?_, ?_⟩
    · exact fun epoch s hget => h.schedules epoch s ((OrderedMap.get_retain ..).mp hget).1
    · exact fun epoch s hget => hstats epoch s ((OrderedMap.get_retain ..).mp hget).1
  · exact ⟨h.epochSize, h.members, h.auto, h.schedules, hstats⟩

end

theorem keeps_ensureSchedule (config : ReplicaRuntimeConfig) (epoch : Nat) :
    Keeps (Serves config) (ensureSchedule epoch) := by
  intro t h
  have hensure := triple_ensureSchedule config epoch t.statsThrough
  exact hensure.conseq (fun _ h => h) (fun _ _ h => h.1.1) (fun _ _ h => h) t ⟨h, rfl⟩

theorem keeps_noteCommitted (config : ReplicaRuntimeConfig) (slot : SlotIndex) (step : Step) :
    Keeps (Serves config) (noteCommitted slot step) := by
  intro t h
  simp only [noteCommitted, bind_apply (x := get), get_apply]
  by_cases hskip : (!t.auto || slot ≤ t.statsThrough) = true
  · rw [if_pos hskip]
    exact h
  rw [if_neg hskip]
  by_cases hnext : some slot = t.statsThrough.checkedNext
  swap
  · simp only [require, hnext, if_false]
    exact h
  simp only [require, if_pos hnext, bind_apply (x := check _), check_ok]
  have hslot : t.statsThrough ≤ slot := by
    rw [(SlotIndex.checkedNext_eq_some.mp hnext.symm).2]
    exact Nat.le_succ _
  refine Triple.bind (triple_ensureSchedule config (slot / t.epochSize) t.statsThrough) (fun schedule => ?_) t ⟨h, rfl⟩
  rintro t' ⟨⟨h', hthrough⟩, hfits⟩
  cases hleader : schedule.leader with
  | error e => exact h'
  | ok leader => exact h'.counted step (hfits.leader hleader) (hthrough.le.trans hslot)

/-- A tuner is restored from schedules of the members only. -/
theorem serves_restore {config : ReplicaRuntimeConfig} {t : EpochTuner} {schedules : OrderedMap Nat EpochSchedule}
    {stats : OrderedMap Nat EpochStat} {through : SlotIndex}
    (h : restore config.epochSize config.members config.autoSchedules schedules stats through = .ok t)
    (hvalid : ∀ s ∈ t.schedules.values, s.proposers.Nodup ∧ s.proposers.toFinset = config.members.toFinset) :
      t.Serves config := by
  simp only [restore, unit_bind_eq_ok, forM_eq_ok, require_eq_ok] at h
  obtain ⟨hstats, hkeys, ht⟩ := h
  obtain rfl := Except.ok.inj ht
  refine ⟨rfl, rfl, rfl, fun epoch s hget => ?_, fun epoch s hget => ?_⟩
  · obtain ⟨hnodup, hmembers⟩ := hvalid s ((OrderedMap.mem_values ..).mpr ⟨epoch, hget⟩)
    exact ⟨(hkeys (epoch, s) ((OrderedMap.get_eq_some ..).mp hget)).symm, hnodup, hmembers⟩
  · exact hstats (epoch, s) ((OrderedMap.get_eq_some ..).mp hget)

theorem restore_serving {config : ReplicaRuntimeConfig} {t : EpochTuner} (h : t.Serves config) :
    restore config.epochSize config.members config.autoSchedules t.schedules t.stats t.statsThrough = .ok t := by
  have hself : { new config.epochSize config.members config.autoSchedules with
      schedules := t.schedules, stats := t.stats, statsThrough := t.statsThrough } = t := by
    rw [new, ← h.epochSize, ← h.members, ← h.auto]
  simp only [restore, unit_bind_eq_ok, forM_eq_ok, require_eq_ok]
  refine ⟨?_, ?_, congrArg Except.ok hself⟩
  · intro e he
    have hstat := h.stats e.1 e.2 ((OrderedMap.get_eq_some ..).mpr he)
    rw [h.epochSize] at hstat
    exact hstat
  · intro e he
    exact (h.schedules e.1 e.2 ((OrderedMap.get_eq_some ..).mpr he)).epoch.symm

theorem install_cases (schedule : EpochSchedule) (t : EpochTuner) :
    (∃ e, install schedule t = .error e t) ∨
    (install schedule t = .ok false t ∧ t.schedules.get schedule.epoch = some schedule) ∨
    install schedule t = .ok true { t with schedules := t.schedules.insert schedule.epoch schedule } := by
  simp only [install, bind_apply, get_apply]
  cases hauto : t.auto with
  | true => exact .inl ⟨_, rfl⟩
  | false =>
    simp only [Bool.false_eq_true, if_false]
    cases hget : t.schedules.get schedule.epoch with
    | none => exact .inr (.inr rfl)
    | some existing =>
      by_cases hsame : existing = schedule
      · exact .inr (.inl ⟨by simp [require, hsame], by rw [hsame]⟩)
      · exact .inl ⟨_, by simp only [require, if_neg hsame, bind_apply, check_error]; rfl⟩

end EpochTuner
end QuePaxa
