import QuePaxa.Library.Averages
import QuePaxa.Runtime.ScheduleHistory

/-! An automatic tuner beside a log of the slots it counted: its statistics are what the log
says of the epochs they are retained for, and a schedule at hand was derived earlier, since the
members last changed. -/
namespace QuePaxa
open Library

structure CountedSlot where
  slot : SlotIndex
  leader : ReplicaId
  decidedStep : Step

abbrev Voters := { members : List ReplicaId // members ≠ [] ∧ members.Nodup }

inductive TunerCall where
  | noteCommitted (slot : SlotIndex) (decidedStep : Step)
  | ensureSchedule (epoch : Nat)
  | reconfigure (members : Voters) (committedThrough : SlotIndex)

def TunerCall.changesMembers : TunerCall → Bool
  | .reconfigure .. => true
  | _ => false

structure LoggedTuner where
  tuner : EpochTuner
  log : List CountedSlot

namespace LoggedTuner

def newlyCounted (t : EpochTuner) (slot : SlotIndex) (decidedStep : Step) : List CountedSlot :=
  match result (EpochTuner.noteCommitted slot decidedStep) t,
    result (EpochTuner.ensureSchedule (slot / t.epochSize)) t >>= EpochSchedule.leader with
  | .ok true, .ok leader => [⟨slot, leader, decidedStep⟩]
  | _, _ => []

def step (r : LoggedTuner) : TunerCall → LoggedTuner
  | .noteCommitted slot decidedStep =>
    ⟨after (EpochTuner.noteCommitted slot decidedStep) r.tuner, r.log ++ newlyCounted r.tuner slot decidedStep⟩
  | .ensureSchedule epoch => ⟨after (EpochTuner.ensureSchedule epoch) r.tuner, r.log⟩
  | .reconfigure members committedThrough => ⟨r.tuner.reconfigure members committedThrough, []⟩

def new (epochSize : Nat) (members : Voters) : LoggedTuner := ⟨.new epochSize members true, []⟩

def epochOf (r : LoggedTuner) (counted : CountedSlot) : Nat := counted.slot / r.tuner.epochSize

def stepsIn (r : LoggedTuner) (epoch : Nat) : List Step :=
  (r.log.filter (r.epochOf · = epoch)).map (·.decidedStep)

/-- The decided steps of the slots a replica led, in the epochs up to `windowEnd` for which the
tuner retains statistics. -/
def samples (r : LoggedTuner) (windowEnd : Nat) (replica : ReplicaId) : List Step :=
  (r.log.filter fun c => r.epochOf c ≤ windowEnd ∧ r.tuner.stats.contains (r.epochOf c) = true ∧ c.leader = replica).map
    (·.decidedStep)

/-! ### What a call can do -/

inductive Asked (epoch : Nat) (r : LoggedTuner) : LoggedTuner → Prop
  | same : Asked epoch r r
  | derived {s : EpochSchedule} (hnone : r.tuner.schedules.get epoch = none) (hderive : r.tuner.derive epoch = .ok s) :
    Asked epoch r ⟨{ r.tuner with schedules := r.tuner.schedules.insert epoch s }, r.log⟩

structure SameHistory (r r' : LoggedTuner) : Prop where
  epochSize : r'.tuner.epochSize = r.tuner.epochSize
  members : r'.tuner.members = r.tuner.members
  stats : r'.tuner.stats = r.tuner.stats
  statsThrough : r'.tuner.statsThrough = r.tuner.statsThrough
  log : r'.log = r.log

theorem Asked.sameHistory {r r' : LoggedTuner} {epoch : Nat} (h : r.Asked epoch r') : r.SameHistory r' := by
  cases h <;> exact ⟨rfl, rfl, rfl, rfl, rfl⟩

inductive Moves (r : LoggedTuner) : LoggedTuner → Prop
  | asked (epoch : Nat) {r' : LoggedTuner} (h : r.Asked epoch r') : Moves r r'
  | counted {slot : SlotIndex} {leader : ReplicaId} {s : EpochSchedule} {r' : LoggedTuner} (step : Step)
    (h : r.Asked (slot / r.tuner.epochSize) r') (hnext : some slot = r.tuner.statsThrough.checkedNext)
    (hget : r'.tuner.schedules.get (slot / r.tuner.epochSize) = some s) (hleader : s.leader = .ok leader) :
    Moves r ⟨r'.tuner.counted slot leader step, r.log ++ [⟨slot, leader, step⟩]⟩

variable {r r' : LoggedTuner}
variable {s : EpochSchedule} {calls : List TunerCall}

private theorem asked_ensureSchedule (hauto : r.tuner.auto = true) (epoch : Nat) :
    r.Asked epoch ⟨after (EpochTuner.ensureSchedule epoch) r.tuner, r.log⟩ := by
  obtain heq | ⟨s, hnone, hderive, heq⟩ := EpochTuner.after_ensureSchedule hauto epoch
  · rw [heq]
    exact .same
  · rw [heq]
    exact .derived hnone hderive

private theorem newlyCounted_other {t : EpochTuner} {slot : SlotIndex} (hnext : ¬some slot = t.statsThrough.checkedNext)
    (step : Step) :
    newlyCounted t slot step = [] := by
  have hresult : result (EpochTuner.noteCommitted slot step) t ≠ .ok true := by
    simp only [result, EpochTuner.noteCommitted, bind_apply (x := get), get_apply]
    split_ifs
    · simp
    · simp [require, if_neg hnext]
  simp only [newlyCounted]
  split
  · contradiction
  · rfl

theorem moves (hauto : r.tuner.auto = true) {call : TunerCall} (hcall : call.changesMembers = false) :
    r.Moves (r.step call) := by
  cases call with
  | reconfigure members through => cases hcall
  | ensureSchedule epoch => exact .asked epoch (asked_ensureSchedule hauto epoch)
  | noteCommitted slot step =>
    simp only [LoggedTuner.step]
    by_cases hnext : some slot = r.tuner.statsThrough.checkedNext
    swap
    · rw [EpochTuner.noteCommitted_other hnext, newlyCounted_other hnext, List.append_nil]
      exact .asked 0 .same
    have hasked := asked_ensureSchedule hauto (slot / r.tuner.epochSize)
    have hcount := EpochTuner.noteCommitted_next hauto hnext step
    cases hask : EpochTuner.ensureSchedule (slot / r.tuner.epochSize) r.tuner with
    | error e t =>
      simp only [hask] at hcount
      simp only [after, newlyCounted, result, hcount, hask, List.append_nil] at hasked ⊢
      exact .asked _ hasked
    | ok s t =>
      simp only [hask] at hcount
      have hget := EpochTuner.ensureSchedule_eq_ok hauto hask
      cases hleader : s.leader with
      | error e =>
        simp only [hleader] at hcount
        simp only [after, newlyCounted, result, hcount, hask, List.append_nil] at hasked ⊢
        exact .asked _ hasked
      | ok leader =>
        simp only [hleader] at hcount
        have hnew : newlyCounted r.tuner slot step = [⟨slot, leader, step⟩] := by
          simp only [newlyCounted, result, hcount, hask, Except.bind, bind, hleader]
        simp only [after, hnew, hcount, hask] at hasked ⊢
        exact .counted step hasked hnext hget hleader

/-! ### The statistics against the log -/

/-- The statistics of an epoch: its schedule is still at hand, all its slots were counted under
the leader of that schedule, and their number and steps are summed up as far as 64 bits go. -/
structure StatOf (r : LoggedTuner) (epoch : Nat) (stat : EpochStat) : Prop where
  schedule : ∃ s, r.tuner.schedules.get epoch = some s ∧ s.leader = .ok stat.leader
  led : ∀ c ∈ r.log, r.epochOf c = epoch → c.leader = stat.leader
  sampled : r.stepsIn epoch ≠ []
  slots : stat.slots = min (r.stepsIn epoch).length u64Max
  total : stat.decidedStepTotal = min (r.stepsIn epoch).sum u64Max

structure Exact (r : LoggedTuner) : Prop where
  auto : r.tuner.auto = true
  members : r.tuner.members ≠ [] ∧ r.tuner.members.Nodup
  stats : ∀ epoch stat, r.tuner.stats.get epoch = some stat → r.StatOf epoch stat
  /-- Only epochs that are behind have lost their statistics. -/
  dropped : ∀ c ∈ r.log, r.tuner.stats.get (r.epochOf c) = none → r.epochOf c < r.tuner.statsThrough / r.tuner.epochSize
  increasing : r.log.Pairwise (·.slot < ·.slot)
  through : ∀ c ∈ r.log, c.slot ≤ r.tuner.statsThrough
  fits : ∀ c ∈ r.log, 0 < c.slot ∧ c.slot ≤ u64Max

theorem exact_of_nothing (hauto : r.tuner.auto = true) (hmembers : r.tuner.members ≠ [] ∧ r.tuner.members.Nodup)
    (hstats : r.tuner.stats = ∅) (hlog : r.log = []) : r.Exact := by
  have hnone : ∀ c, c ∉ r.log := fun c hc => by
    rw [hlog] at hc
    cases hc
  refine ⟨hauto, hmembers, fun epoch stat hget => ?_, fun c hc => absurd hc (hnone c), hlog ▸ .nil,
    fun c hc => absurd hc (hnone c), fun c hc => absurd hc (hnone c)⟩
  rw [hstats] at hget
  cases hget

theorem exact_new (epochSize : Nat) (members : Voters) : (new epochSize members).Exact :=
  exact_of_nothing rfl members.2 rfl rfl

private theorem Exact.reconfigure (h : r.Exact) (members : Voters) (through : SlotIndex) :
    (r.step (.reconfigure members through)).Exact :=
  exact_of_nothing h.auto members.2 rfl rfl

private theorem Exact.asked (h : r.Exact) {epoch : Nat} (hasked : r.Asked epoch r') : r'.Exact := by
  cases hasked with
  | same => exact h
  | @derived s hnone hderive =>
    refine ⟨h.auto, h.members, fun k stat hget => ?_, h.dropped, h.increasing, h.through, h.fits⟩
    have hstat := h.stats k stat hget
    obtain ⟨s', hs', hleader⟩ := hstat.schedule
    have hk : k ≠ epoch := by
      rintro rfl
      rw [hnone] at hs'
      cases hs'
    refine ⟨⟨s', ?_, hleader⟩, hstat.led, hstat.sampled, hstat.slots, hstat.total⟩
    rw [OrderedMap.get_insert, if_neg hk]
    exact hs'

def count (r : LoggedTuner) (c : CountedSlot) : LoggedTuner :=
  ⟨r.tuner.counted c.slot c.leader c.decidedStep, r.log ++ [c]⟩

section
variable {c : CountedSlot}

theorem epochOf_count (c' : CountedSlot) : (r.count c).epochOf c' = r.epochOf c' := by
  simp only [epochOf, count, EpochTuner.counted_epochSize]

private theorem log_count : (r.count c).log = r.log ++ [c] := rfl

private theorem stepsIn_count_self : (r.count c).stepsIn (r.epochOf c) = r.stepsIn (r.epochOf c) ++
    [c.decidedStep] := by
  simp only [stepsIn, epochOf_count, log_count, List.filter_append, List.map_append, List.filter_cons, decide_true,
    if_true,
    List.filter_nil, List.map_cons, List.map_nil]

private theorem stepsIn_count_of_ne {epoch : Nat} (hepoch : epoch ≠ r.epochOf c) :
    (r.count c).stepsIn epoch = r.stepsIn epoch := by
  simp only [stepsIn, epochOf_count, log_count, List.filter_append, List.filter_cons, hepoch.symm, decide_false,
    Bool.false_eq_true, if_false, List.filter_nil, List.append_nil]

theorem get_stats_count_self :
    let stat := (r.tuner.stats.get (r.epochOf c)).getD ⟨c.leader, 0, 0⟩
    (r.count c).tuner.stats.get (r.epochOf c) =
      some ⟨stat.leader, min (stat.slots + 1) u64Max, min (stat.decidedStepTotal + c.decidedStep) u64Max⟩ :=
  EpochTuner.get_stats_counted_self ..

private theorem get_stats_count_of_ne {epoch : Nat} (hepoch : epoch ≠ r.epochOf c) :
    (r.count c).tuner.stats.get epoch =
      if r.epochOf c - retainedStatEpochs ≤ epoch then r.tuner.stats.get epoch else none :=
  EpochTuner.get_stats_counted hepoch

theorem get_schedules_count {epoch : Nat} : (r.count c).tuner.schedules.get epoch =
    if r.epochOf c - retainedStatEpochs ≤ epoch then r.tuner.schedules.get epoch else none :=
  EpochTuner.get_schedules_counted

/-- The counted slot is in the current epoch or the next. -/
theorem through_le_epochOf (hnext : some c.slot = r.tuner.statsThrough.checkedNext) :
    r.tuner.statsThrough / r.tuner.epochSize ≤ r.epochOf c := by
  rw [epochOf, (SlotIndex.checkedNext_eq_some.mp hnext.symm).2]
  exact Nat.div_le_div_right (Nat.le_succ _)

/-- What an epoch has been counted for before one more slot is: its statistics, or nothing. -/
theorem Exact.statOf (h : r.Exact) (hnext : some c.slot = r.tuner.statsThrough.checkedNext)
    (hget : r.tuner.schedules.get (r.epochOf c) = some s) (hleader : s.leader = .ok c.leader) :
    ((r.tuner.stats.get (r.epochOf c)).getD ⟨c.leader, 0, 0⟩) =
      ⟨c.leader, min (r.stepsIn (r.epochOf c)).length u64Max, min (r.stepsIn (r.epochOf c)).sum u64Max⟩ ∧
    ∀ c' ∈ r.log, r.epochOf c' = r.epochOf c → c'.leader = c.leader := by
  cases hold : r.tuner.stats.get (r.epochOf c) with
  | some stat =>
    have hstat := h.stats _ _ hold
    -- The slots counted so far were led by the leader of the same schedule.
    obtain ⟨s', hs', hleader'⟩ := hstat.schedule
    have hsame : stat.leader = c.leader := by
      rw [hget] at hs'
      cases hs'
      rw [hleader] at hleader'
      exact (Except.ok.inj hleader').symm
    refine ⟨?_, fun c' hc' hepoch => (hstat.led c' hc' hepoch).trans hsame⟩
    rw [Option.getD_some, ← hsame, ← hstat.slots, ← hstat.total]
  | none =>
    -- Otherwise it is the first slot of the epoch: an epoch that lost its statistics is behind.
    have hfirst : ∀ c' ∈ r.log, r.epochOf c' ≠ r.epochOf c := by
      intro c' hc' hepoch
      have hbehind := h.dropped c' hc' (hepoch ▸ hold)
      exact absurd hepoch (hbehind.trans_le (through_le_epochOf hnext)).ne
    have hempty : r.stepsIn (r.epochOf c) = [] := by
      simp only [stepsIn, List.map_eq_nil_iff, List.filter_eq_nil_iff, decide_eq_true_eq]
      exact hfirst
    refine ⟨?_, fun c' hc' hepoch => absurd hepoch (hfirst c' hc')⟩
    rw [hempty]
    rfl

private theorem Exact.statOf_count_self (h : r.Exact) {stat : EpochStat}
    (hnext : some c.slot = r.tuner.statsThrough.checkedNext) (hget : r.tuner.schedules.get (r.epochOf c) = some s)
    (hleader : s.leader = .ok c.leader) (hstat : (r.count c).tuner.stats.get (r.epochOf c) = some stat) :
    (r.count c).StatOf (r.epochOf c) stat := by
  obtain ⟨hold, hled⟩ := h.statOf hnext hget hleader
  rw [get_stats_count_self, hold] at hstat
  cases hstat
  refine ⟨⟨s, ?_, hleader⟩, fun c' hc' hepoch => ?_, ?_, ?_, ?_⟩
  · rw [get_schedules_count, if_pos (Nat.sub_le _ _)]
    exact hget
  · rw [epochOf_count] at hepoch
    rcases List.mem_append.mp hc' with hc' | hc'
    · exact hled c' hc' hepoch
    · rw [List.mem_singleton.mp hc']
  · rw [stepsIn_count_self]
    exact List.concat_ne_nil _ _
  · rw [stepsIn_count_self, List.length_append, List.length_singleton]
    dsimp only
    omega
  · rw [stepsIn_count_self, List.sum_append, List.sum_singleton]
    dsimp only
    omega

private theorem StatOf.count {epoch : Nat} {stat : EpochStat} (h : r.StatOf epoch stat) (hepoch : epoch ≠ r.epochOf c)
    (hretained : r.epochOf c - retainedStatEpochs ≤ epoch) : (r.count c).StatOf epoch stat := by
  obtain ⟨s, hs, hleader⟩ := h.schedule
  refine ⟨⟨s, ?_, hleader⟩, fun c' hc' hc => ?_, ?_, ?_, ?_⟩
  · rw [get_schedules_count, if_pos hretained]
    exact hs
  · rw [epochOf_count] at hc
    rcases List.mem_append.mp hc' with hc' | hc'
    · exact h.led c' hc' hc
    · rw [List.mem_singleton.mp hc'] at hc
      exact absurd hc.symm hepoch
  all_goals rw [stepsIn_count_of_ne hepoch]
  · exact h.sampled
  · exact h.slots
  · exact h.total

/-- Counting one more slot keeps the statistics those of the log. -/
theorem Exact.count (h : r.Exact) (hnext : some c.slot = r.tuner.statsThrough.checkedNext)
    (hget : r.tuner.schedules.get (r.epochOf c) = some s) (hleader : s.leader = .ok c.leader) : (r.count c).Exact := by
  obtain ⟨hroom, hslot⟩ := SlotIndex.checkedNext_eq_some.mp hnext.symm
  have hthrough : (r.count c).tuner.statsThrough = c.slot := EpochTuner.counted_statsThrough ..
  have hlater : ∀ c' ∈ r.log, c'.slot < c.slot := fun c' hc' => hslot ▸ Nat.lt_succ_of_le (h.through c' hc')
  refine ⟨?_, ?_, fun epoch stat hstat => ?_, fun c' hc' hnone => ?_, ?_, fun c' hc' => ?_, fun c' hc' => ?_⟩
  · exact (EpochTuner.counted_auto ..).trans h.auto
  · rw [LoggedTuner.count, EpochTuner.counted_members]
    exact h.members
  · by_cases hepoch : epoch = r.epochOf c
    · subst hepoch
      exact h.statOf_count_self hnext hget hleader hstat
    · rw [get_stats_count_of_ne hepoch] at hstat
      split_ifs at hstat with hretained
      exact (h.stats epoch stat hstat).count hepoch hretained
  · rw [epochOf_count] at hnone ⊢
    have hcurrent : (r.count c).tuner.statsThrough / (r.count c).tuner.epochSize = r.epochOf c := by
      rw [hthrough, epochOf, LoggedTuner.count, EpochTuner.counted_epochSize]
    rw [hcurrent]
    by_cases hepoch : r.epochOf c' = r.epochOf c
    · rw [hepoch, get_stats_count_self] at hnone
      cases hnone
    rcases List.mem_append.mp hc' with hc' | hc'
    swap
    · exact absurd (congrArg r.epochOf (List.mem_singleton.mp hc')) hepoch
    rw [get_stats_count_of_ne hepoch] at hnone
    split_ifs at hnone with hretained
    · exact (h.dropped c' hc' hnone).trans_le (through_le_epochOf hnext)
    · omega
  · rw [log_count, List.pairwise_append]
    refine ⟨h.increasing, List.pairwise_singleton .., fun c' hc' last hlast => ?_⟩
    rw [List.mem_singleton.mp hlast]
    exact hlater c' hc'
  · rw [hthrough]
    rcases List.mem_append.mp hc' with hc' | hc'
    · exact (hlater c' hc').le
    · rw [List.mem_singleton.mp hc']
  · rcases List.mem_append.mp hc' with hc' | hc'
    · exact h.fits c' hc'
    · rw [List.mem_singleton.mp hc', hslot]
      exact ⟨Nat.succ_pos _, hroom⟩

end

private theorem Exact.moves (h : r.Exact) (hmoves : r.Moves r') : r'.Exact := by
  cases hmoves with
  | asked epoch hasked => exact h.asked hasked
  | @counted slot leader s r₁ step hasked hnext hget hleader =>
    rw [← hasked.sameHistory.log]
    rw [← hasked.sameHistory.statsThrough] at hnext
    rw [← hasked.sameHistory.epochSize] at hget
    exact (h.asked hasked).count (c := ⟨slot, leader, step⟩) hnext hget hleader

theorem Exact.step (h : r.Exact) (call : TunerCall) : (r.step call).Exact := by
  cases hcall : call.changesMembers with
  | false => exact h.moves (LoggedTuner.moves h.auto hcall)
  | true =>
    cases call with
    | reconfigure members through => exact h.reconfigure members through
    | _ => cases hcall

theorem Exact.run (h : r.Exact) (calls : List TunerCall) : (run LoggedTuner.step r calls).Exact :=
  run_invariant_all (I := Exact) (fun _ call h => h.step call) h calls

/-! ### Schedules that are at hand -/

structure Continues (r r' : LoggedTuner) : Prop where
  epochSize : r'.tuner.epochSize = r.tuner.epochSize
  members : r'.tuner.members = r.tuner.members
  log : r.log <+: r'.log

private theorem Continues.trans {r'' : LoggedTuner} (h : r.Continues r') (h' : r'.Continues r'') : r.Continues r'' :=
  ⟨h'.epochSize.trans h.epochSize, h'.members.trans h.members, h.log.trans h'.log⟩

private theorem Moves.continues (h : r.Moves r') : r.Continues r' := by
  cases h with
  | asked epoch hasked =>
    exact ⟨hasked.sameHistory.epochSize, hasked.sameHistory.members, hasked.sameHistory.log ▸ List.prefix_rfl⟩
  | counted step hasked hnext hget hleader =>
    refine ⟨?_, ?_, List.prefix_append ..⟩
    · exact (EpochTuner.counted_epochSize ..).trans hasked.sameHistory.epochSize
    · exact (EpochTuner.counted_members ..).trans hasked.sameHistory.members

theorem Exact.continues (h : r.Exact) (hcalls : ∀ call ∈ calls, call.changesMembers = false) :
    r.Continues (Library.run LoggedTuner.step r calls) := by
  induction calls generalizing r with
  | nil => exact ⟨rfl, rfl, List.prefix_rfl⟩
  | cons call calls ih =>
    have hfirst := LoggedTuner.moves h.auto (hcalls call List.mem_cons_self)
    exact hfirst.continues.trans (ih (h.step call) fun c hc => hcalls c (List.mem_cons_of_mem _ hc))

theorem Continues.sum_le (h : r.Continues r') (epoch : Nat) : (r.stepsIn epoch).sum ≤ (r'.stepsIn epoch).sum := by
  obtain ⟨later, hlog⟩ := h.log
  simp only [stepsIn, epochOf, h.epochSize, ← hlog, List.filter_append, List.map_append, List.sum_append]
  exact Nat.le_add_right _ _

def DerivedIn (epochSize : Nat) (members : Voters) (calls : List TunerCall) (epoch : Nat) (s : EpochSchedule) : Prop :=
  ∃ before since, calls = before ++ since ∧ (∀ call ∈ since, call.changesMembers = false) ∧
    (run step (new epochSize members) before).tuner.schedules.get epoch = none ∧
    (run step (new epochSize members) before).tuner.derive epoch = .ok s

private theorem Asked.schedules {epoch k : Nat} (h : r.Asked k r') (hget : r'.tuner.schedules.get epoch = some s) :
    r.tuner.schedules.get epoch = some s ∨ r.tuner.schedules.get epoch = none ∧ r.tuner.derive epoch = .ok s := by
  cases h with
  | same => exact .inl hget
  | derived hnone hderive =>
    rw [OrderedMap.get_insert] at hget
    split_ifs at hget with hepoch
    · cases hget
      subst hepoch
      exact .inr ⟨hnone, hderive⟩
    · exact .inl hget

private theorem Moves.schedules {epoch : Nat} (h : r.Moves r') (hget : r'.tuner.schedules.get epoch = some s) :
    r.tuner.schedules.get epoch = some s ∨ r.tuner.schedules.get epoch = none ∧ r.tuner.derive epoch = .ok s := by
  cases h with
  | asked k hasked => exact hasked.schedules hget
  | counted step hasked hnext hscheduled hleader =>
    rw [EpochTuner.get_schedules_counted] at hget
    split_ifs at hget
    exact hasked.schedules hget

private theorem derivedIn_of_get {epochSize : Nat} {members : Voters} {epoch : Nat}
    (hget : (run step (new epochSize members) calls).tuner.schedules.get epoch = some s) :
    DerivedIn epochSize members calls epoch s := by
  induction calls using List.reverseRecOn with
  | nil => cases hget
  | append_singleton calls call ih =>
    rw [run_append] at hget
    have hexact := (exact_new epochSize members).run calls
    cases hcall : call.changesMembers with
    | true =>
      cases call with
      | reconfigure members through => cases hget
      | _ => cases hcall
    | false =>
      rcases (moves hexact.auto hcall).schedules hget with hbefore | ⟨hnone, hderive⟩
      · obtain ⟨before, since, rfl, hsince, hderived⟩ := ih hbefore
        refine ⟨before, since ++ [call], List.append_assoc .., fun c hc => ?_, hderived⟩
        rcases List.mem_append.mp hc with hc | hc
        · exact hsince c hc
        · rw [List.mem_singleton.mp hc]
          exact hcall
      · refine ⟨calls, [call], rfl, fun c hc => ?_, hnone, hderive⟩
        rw [List.mem_singleton.mp hc]
        exact hcall

/-- Every schedule that is returned was derived by one of the calls, or is derived now. -/
theorem derivedIn_of_ok {epochSize : Nat} {members : Voters} {epoch : Nat}
    (h : result (EpochTuner.ensureSchedule epoch) (run step (new epochSize members) calls).tuner = .ok s) :
    DerivedIn epochSize members calls epoch s := by
  have hexact := (exact_new epochSize members).run calls
  rw [result, EpochTuner.ensureSchedule_apply hexact.auto] at h
  cases hget : (run step (new epochSize members) calls).tuner.schedules.get epoch with
  | some s' =>
    simp only [hget, Except.ok.injEq] at h
    exact derivedIn_of_get (h ▸ hget)
  | none =>
    refine ⟨calls, [], (List.append_nil _).symm, fun c hc => absurd hc List.not_mem_nil, hget, ?_⟩
    cases hderive : (run step (new epochSize members) calls).tuner.derive epoch with
    | ok s' =>
      simp only [hget, hderive, Except.ok.injEq] at h
      rw [h]
    | error e => simp only [hget, hderive, reduceCtorEq] at h

end LoggedTuner
end QuePaxa
