import QuePaxa.Library.Runs
import QuePaxa.Runtime.ScheduleSpec

/-! Tuners that count the same committed slots. A derived schedule ranks the epochs up to
two before it that are still retained, and what is retained depends on the latest counted
slot: the schedule is a function of the history only for tuners that ask for it while the
window of retained epochs begins at the same place. -/
namespace QuePaxa
open Library

inductive TunerOp where
  | noteCommitted (slot : SlotIndex)
  | ensureSchedule (epoch : Nat)
  | restore (kept : List Nat)
  deriving DecidableEq

namespace EpochTuner

def perform (steps : SlotIndex → Step) (t : EpochTuner) : TunerOp → EpochTuner
  | .noteCommitted slot => after (noteCommitted slot (steps slot)) t
  | .ensureSchedule epoch => after (ensureSchedule epoch) t
  | .restore kept =>
    match EpochTuner.restore t.epochSize t.members t.auto (t.schedules.retain fun epoch _ => epoch ∈ kept) t.stats
      t.statsThrough with
    | .ok t' => t'
    | .error _ => t

def replay (steps : SlotIndex → Step) (size : Nat) (voters : List ReplicaId) : Nat → EpochTuner
  | 0 => new size voters true
  | n + 1 => after (noteCommitted (n + 1) (steps (n + 1))) (replay steps size voters n)

def HasHistory (t : EpochTuner) (epoch : Nat) : Prop :=
  epoch < 2 * t.members.length + 1 ∨ (epoch - 1) * t.epochSize ≤ t.statsThrough + 1

instance (t : EpochTuner) (epoch : Nat) : Decidable (t.HasHistory epoch) := inferInstanceAs (Decidable (_ ∨ _))

/-- The tuner has the schedule at hand, does not rank for it, cannot rank yet, or finds the
window of retained epochs where it is while the epoch before is counted. -/
def Timely (t : EpochTuner) (epoch : Nat) : Prop :=
  t.schedules.contains epoch = true ∨ epoch < 2 * t.members.length + 1 ∨ ¬t.HasHistory epoch ∨
    t.statsThrough / t.epochSize - retainedStatEpochs = epoch - 1 - retainedStatEpochs

instance (t : EpochTuner) (epoch : Nat) : Decidable (t.Timely epoch) :=
  inferInstanceAs (Decidable (_ ∨ _ ∨ _ ∨ _))

def AsksInTime (t : EpochTuner) : TunerOp → Prop
  | .noteCommitted slot => slot = t.statsThrough + 1 → t.Timely (slot / t.epochSize)
  | .ensureSchedule epoch => t.Timely epoch
  | .restore _ => True

instance (t : EpochTuner) : (op : TunerOp) → Decidable (t.AsksInTime op)
  | .noteCommitted slot => inferInstanceAs (Decidable (slot = t.statsThrough + 1 → t.Timely (slot / t.epochSize)))
  | .ensureSchedule epoch => inferInstanceAs (Decidable (t.Timely epoch))
  | .restore _ => inferInstanceAs (Decidable True)

/-! ### What the calls compute -/

section
variable {t t' : EpochTuner} {epoch : Nat}
variable {slot : SlotIndex}

private theorem ranked_congr {windowEnd : Nat} (hmem : t.members = t'.members)
    (hstats : ∀ k ≤ windowEnd, t.stats.get k = t'.stats.get k) : t.ranked windowEnd = t'.ranked windowEnd := by
  have hwindow : t.stats.upTo windowEnd = t'.stats.upTo windowEnd := by
    apply OrderedMap.ext_get
    intro k
    simp only [OrderedMap.upTo, OrderedMap.get_retain_key]
    by_cases hk : k ≤ windowEnd
    · simp only [hk, hstats k hk]
    · simp only [hk, decide_false, Bool.false_eq_true, if_false]
  have htotals : t.totals windowEnd = t'.totals windowEnd := by
    have hentries := congrArg OrderedMap.entries hwindow
    simp only [OrderedMap.upTo, OrderedMap.retain] at hentries
    simp only [totals, hentries]
  simp only [ranked, htotals, hmem]

/-- The first epochs are scheduled without looking at the history. -/
theorem derive_warmup (hmem : t.members = t'.members) (h : epoch < 2 * t.members.length + 1) :
    t.derive epoch = t'.derive epoch := by
  simp only [derive, ← hmem, if_pos h]

/-- Later ones depend on the retained statistics up to two epochs before. -/
theorem derive_congr (hmem : t.members = t'.members) (hsize : t.epochSize = t'.epochSize)
    (hstats : ∀ k, k + 1 < epoch → t.stats.get k = t'.stats.get k)
    (hthrough : (epoch - 1) * t.epochSize ≤ t.statsThrough + 1)
    (hthrough' : (epoch - 1) * t.epochSize ≤ t'.statsThrough + 1) : t.derive epoch = t'.derive epoch := by
  by_cases hwarm : epoch < 2 * t.members.length + 1
  · exact derive_warmup hmem hwarm
  by_cases hsmall : epoch < 2
  · simp only [derive, ← hmem, if_neg hwarm, if_pos hsmall]
  have hwindow : epoch - 2 + 1 = epoch - 1 := by omega
  have hretained : ∀ k ≤ epoch - 2, t.stats.get k = t'.stats.get k := fun k hk => hstats k (by omega)
  have hbehind : ¬t.statsThrough < (epoch - 1) * t.epochSize - 1 := by lia
  have hbehind' : ¬t'.statsThrough < (epoch - 1) * t.epochSize - 1 := by lia
  simp only [derive, ← hmem, ← hsize, hwindow, if_neg hwarm, if_neg hbehind, if_neg hbehind',
    ranked_congr hmem hretained]

/-- A ranking is derived from a complete history only. -/
theorem derive_eq_ok {s : EpochSchedule} (h : t.derive epoch = .ok s) : t.HasHistory epoch := by
  simp only [derive] at h
  split_ifs at h with hwarm _ hsmall _ hbehind
  · exact .inl hwarm
  all_goals
    right
    have hwindow : epoch - 2 + 1 = epoch - 1 := by omega
    rw [hwindow] at hbehind
    lia

theorem ensureSchedule_apply (hauto : t.auto = true) :
    ensureSchedule epoch t = match t.schedules.get epoch with
      | some s => .ok s t
      | none => match t.derive epoch with
        | .ok s => .ok s { t with schedules := t.schedules.insert epoch s }
        | .error e => .error e t := by
  simp only [ensureSchedule, bind_apply, get_apply]
  cases t.schedules.get epoch with
  | some s => rfl
  | none =>
    have hmanual : ¬(!t.auto) = true := by simp only [hauto, Bool.not_true, Bool.false_eq_true, not_false_eq_true]
    simp only [if_neg hmanual, bind_apply]
    cases t.derive epoch <;> rfl

theorem ensureSchedule_eq_ok (hauto : t.auto = true) {s : EpochSchedule} (h : ensureSchedule epoch t = .ok s t') :
    t'.schedules.get epoch = some s := by
  rw [ensureSchedule_apply hauto] at h
  cases hget : t.schedules.get epoch with
  | some s' =>
    simp only [hget, EStateM.Result.ok.injEq] at h
    obtain ⟨rfl, rfl⟩ := h
    exact hget
  | none =>
    cases hderive : t.derive epoch with
    | error e => simp only [hget, hderive, reduceCtorEq] at h
    | ok s' =>
      simp only [hget, hderive, EStateM.Result.ok.injEq] at h
      obtain ⟨rfl, rfl⟩ := h
      exact OrderedMap.get_insert_self ..

theorem noteCommitted_next (hauto : t.auto = true) (hnext : some slot = t.statsThrough.checkedNext)
    (step : Step) :
    noteCommitted slot step t = match ensureSchedule (slot / t.epochSize) t with
      | .ok s t' => match s.leader with
        | .ok leader => .ok true (t'.counted slot leader step)
        | .error e => .error e t'
      | .error e t' => .error e t' := by
  have hslot := (SlotIndex.checkedNext_eq_some.mp hnext.symm).2
  have hskip : ¬(!t.auto || slot ≤ t.statsThrough) = true := by
    simp [hauto, hslot]
  simp only [noteCommitted, bind_apply (x := get), get_apply, if_neg hskip, require, if_pos hnext,
    bind_apply (x := check _), check_ok, bind_apply (x := ensureSchedule _)]
  cases ensureSchedule (slot / t.epochSize) t with
  | error e t' => rfl
  | ok s t' =>
    simp only [bind_apply]
    cases s.leader <;> rfl

theorem noteCommitted_other (hnext : ¬some slot = t.statsThrough.checkedNext) (step : Step) :
    after (noteCommitted slot step) t = t := by
  simp only [after, noteCommitted, bind_apply (x := get), get_apply]
  split_ifs
  · rfl
  · simp only [require, if_neg hnext, bind_apply, check_error]

theorem get_stats_counted {leader : ReplicaId} {step : Step} {k : Nat} (hk : k ≠ slot / t.epochSize) :
    (t.counted slot leader step).stats.get k =
      if slot / t.epochSize - retainedStatEpochs ≤ k then t.stats.get k else none := by
  simp only [counted]
  by_cases hfull : retainedStatEpochs ≤ slot / t.epochSize
  · simp only [if_pos hfull, OrderedMap.get_retain_key, OrderedMap.get_insert, if_neg hk, decide_eq_true_eq]
  · have hfloor : slot / t.epochSize - retainedStatEpochs = 0 := Nat.sub_eq_zero_of_le (Nat.le_of_not_le hfull)
    simp only [if_neg hfull, OrderedMap.get_insert, if_neg hk, hfloor, Nat.zero_le, if_true]

theorem get_stats_counted_self (t : EpochTuner) (slot : SlotIndex) (leader : ReplicaId) (step : Step) :
    let stat := (t.stats.get (slot / t.epochSize)).getD ⟨leader, 0, 0⟩
    (t.counted slot leader step).stats.get (slot / t.epochSize) =
      some ⟨stat.leader, min (stat.slots + 1) u64Max, min (stat.decidedStepTotal + step) u64Max⟩ := by
  simp only [counted]
  by_cases hfull : retainedStatEpochs ≤ slot / t.epochSize
  · simp only [if_pos hfull, OrderedMap.get_retain_key, OrderedMap.get_insert_self, Nat.sub_le, decide_true, if_true]
  · simp only [if_neg hfull, OrderedMap.get_insert_self]

@[simp] theorem counted_epochSize (t : EpochTuner) (slot : SlotIndex) (leader : ReplicaId) (step : Step) :
    (t.counted slot leader step).epochSize = t.epochSize := by
  simp only [counted]
  split_ifs <;> rfl

@[simp] theorem counted_members (t : EpochTuner) (slot : SlotIndex) (leader : ReplicaId) (step : Step) :
    (t.counted slot leader step).members = t.members := by
  simp only [counted]
  split_ifs <;> rfl

@[simp] theorem counted_auto (t : EpochTuner) (slot : SlotIndex) (leader : ReplicaId) (step : Step) :
    (t.counted slot leader step).auto = t.auto := by
  simp only [counted]
  split_ifs <;> rfl

@[simp] theorem counted_statsThrough (t : EpochTuner) (slot : SlotIndex) (leader : ReplicaId) (step : Step) :
    (t.counted slot leader step).statsThrough = slot := by
  simp only [counted]
  split_ifs <;> rfl

private theorem counted_stats_congr (slot : SlotIndex) (leader : ReplicaId) (step : Step)
    (hsize : t.epochSize = t'.epochSize)
    (hstats : t.stats = t'.stats) : (t.counted slot leader step).stats = (t'.counted slot leader step).stats := by
  simp only [counted, hsize, hstats]
  split_ifs <;> rfl

theorem get_schedules_counted {leader : ReplicaId} {step : Step} {k : Nat} :
    (t.counted slot leader step).schedules.get k =
      if slot / t.epochSize - retainedStatEpochs ≤ k then t.schedules.get k else none := by
  simp only [counted]
  by_cases hfull : retainedStatEpochs ≤ slot / t.epochSize
  · simp only [if_pos hfull, OrderedMap.get_retain_key, decide_eq_true_eq]
  · have hfloor : slot / t.epochSize - retainedStatEpochs = 0 := Nat.sub_eq_zero_of_le (Nat.le_of_not_le hfull)
    simp only [if_neg hfull, hfloor, Nat.zero_le, if_true]

theorem after_ensureSchedule (hauto : t.auto = true) (epoch : Nat) :
    after (ensureSchedule epoch) t = t ∨ ∃ s, t.schedules.get epoch = none ∧ t.derive epoch = .ok s ∧
      after (ensureSchedule epoch) t = { t with schedules := t.schedules.insert epoch s } := by
  rw [after, ensureSchedule_apply hauto]
  cases hget : t.schedules.get epoch with
  | some s => exact .inl rfl
  | none =>
    cases hderive : t.derive epoch with
    | error e => exact .inl rfl
    | ok s => exact .inr ⟨s, rfl, rfl, rfl⟩

/-- A slot is counted under the leader of the schedule asked for, or the tuner is left as
the question about the schedule left it. -/
theorem after_noteCommitted (hauto : t.auto = true) (slot : SlotIndex) (step : Step) :
    after (noteCommitted slot step) t = t ∨ some slot = t.statsThrough.checkedNext ∧
      (after (noteCommitted slot step) t = after (ensureSchedule (slot / t.epochSize)) t ∨
      ∃ s leader, ensureSchedule (slot / t.epochSize) t = .ok s (after (ensureSchedule (slot / t.epochSize)) t) ∧
        s.leader = .ok leader ∧
        after (noteCommitted slot step) t =
          (after (ensureSchedule (slot / t.epochSize)) t).counted slot leader step) := by
  by_cases hnext : some slot = t.statsThrough.checkedNext
  swap
  · exact .inl (noteCommitted_other hnext step)
  refine .inr ⟨hnext, ?_⟩
  simp only [after, noteCommitted_next hauto hnext]
  cases hask : ensureSchedule (slot / t.epochSize) t with
  | error e t' => exact .inl rfl
  | ok s t' =>
    cases hleader : s.leader with
    | error e => exact .inl (by simp only [hleader])
    | ok leader => exact .inr ⟨s, leader, rfl, hleader, by simp only [hleader]⟩

end

/-! ### Tuners with a common history -/

structure IsAuto (size : Nat) (voters : List ReplicaId) (t : EpochTuner) : Prop where
  epochSize : t.epochSize = max size 1
  members : t.members = voters
  auto : t.auto = true

section
variable {steps : SlotIndex → Step} {size : Nat} {voters : List ReplicaId}

theorem isAuto_new : IsAuto size voters (new size voters true) := ⟨rfl, rfl, rfl⟩

theorem IsAuto.ensureSchedule {t : EpochTuner} (h : IsAuto size voters t) (epoch : Nat) :
    IsAuto size voters (after (ensureSchedule epoch) t) := by
  obtain heq | ⟨s, _, _, heq⟩ := after_ensureSchedule h.auto epoch
  · rw [heq]
    exact h
  · rw [heq]
    exact ⟨h.epochSize, h.members, h.auto⟩

theorem IsAuto.counted {t : EpochTuner} (h : IsAuto size voters t) (slot : SlotIndex) (leader : ReplicaId)
    (step : Step) : IsAuto size voters (t.counted slot leader step) :=
  ⟨(counted_epochSize ..).trans h.epochSize, (counted_members ..).trans h.members, (counted_auto ..).trans h.auto⟩

theorem IsAuto.noteCommitted {t : EpochTuner} (h : IsAuto size voters t) (slot : SlotIndex) (step : Step) :
    IsAuto size voters (after (noteCommitted slot step) t) := by
  obtain heq | ⟨_, heq | ⟨s, leader, _, _, heq⟩⟩ := after_noteCommitted h.auto slot step
  · rw [heq]
    exact h
  · rw [heq]
    exact h.ensureSchedule _
  · rw [heq]
    exact (h.ensureSchedule _).counted ..

theorem isAuto_replay (steps : SlotIndex → Step) (size : Nat) (voters : List ReplicaId) (n : Nat) :
    IsAuto size voters (replay steps size voters n) := by
  induction n with
  | zero => exact isAuto_new
  | succ n ih => exact ih.noteCommitted ..

/-- A replay that got past a slot has counted it. -/
theorem replay_succ {n : Nat} (h : (replay steps size voters n).statsThrough = n)
    (hn : (replay steps size voters (n + 1)).statsThrough = n + 1) :
    ∃ s leader, ensureSchedule ((n + 1) / max size 1) (replay steps size voters n) =
        .ok s (after (ensureSchedule ((n + 1) / max size 1)) (replay steps size voters n)) ∧
      s.leader = .ok leader ∧
      replay steps size voters (n + 1) =
        (after (ensureSchedule ((n + 1) / max size 1)) (replay steps size voters n)).counted (n + 1) leader
          (steps (n + 1)) := by
  have hauto := isAuto_replay steps size voters n
  have hcases := after_noteCommitted hauto.auto (n + 1) (steps (n + 1))
  rw [hauto.epochSize] at hcases
  have hstays : (after (ensureSchedule ((n + 1) / max size 1)) (replay steps size voters n)).statsThrough = n := by
    obtain heq | ⟨s, _, _, heq⟩ := after_ensureSchedule hauto.auto ((n + 1) / max size 1)
    · rw [heq, h]
    · rw [heq]
      exact h
  obtain heq | ⟨_, heq | hcounted⟩ := hcases
  · rw [replay, heq, h] at hn
    exact absurd hn (Nat.succ_ne_self n).symm
  · rw [replay, heq, hstays] at hn
    exact absurd hn (Nat.succ_ne_self n).symm
  · exact hcounted

theorem get_stats_replay_succ {n k : Nat} (h : (replay steps size voters n).statsThrough = n)
    (hn : (replay steps size voters (n + 1)).statsThrough = n + 1) (hk : k ≠ (n + 1) / max size 1) :
    (replay steps size voters (n + 1)).stats.get k =
      if (n + 1) / max size 1 - retainedStatEpochs ≤ k then (replay steps size voters n).stats.get k
      else none := by
  have hauto := isAuto_replay steps size voters n
  obtain ⟨s, leader, _, _, heq⟩ := replay_succ h hn
  have hsize := (hauto.ensureSchedule ((n + 1) / max size 1)).epochSize
  have hkept : (after (ensureSchedule ((n + 1) / max size 1)) (replay steps size voters n)).stats =
      (replay steps size voters n).stats := by
    obtain heq | ⟨s, _, _, heq⟩ := after_ensureSchedule hauto.auto ((n + 1) / max size 1) <;> rw [heq]
  rw [heq, get_stats_counted (by rwa [hsize]), hsize, hkept]

variable {n : Nat} (hreached : ∀ m ≤ n, (replay steps size voters m).statsThrough = m)
include hreached

private theorem stats_floor {k : Nat} {stat : EpochStat} (hget : (replay steps size voters n).stats.get k = some stat) :
    n / max size 1 - retainedStatEpochs ≤ k := by
  induction n with
  | zero => simp [replay, new] at hget
  | succ n ih =>
    by_cases hk : k = (n + 1) / max size 1
    · exact hk ▸ Nat.sub_le ..
    · rw [get_stats_replay_succ (hreached n (Nat.le_succ n)) (hreached (n + 1) le_rfl) hk] at hget
      split_ifs at hget with hfloor
      exact hfloor

/-- Once an epoch is behind, its statistics no longer change until they are dropped. -/
theorem stats_settled {epoch k : Nat} (hk : k + 1 < epoch) (hn : (epoch - 1) * max size 1 - 1 ≤ n) :
    (replay steps size voters n).stats.get k =
      if n / max size 1 - retainedStatEpochs ≤ k then
        (replay steps size voters ((epoch - 1) * max size 1 - 1)).stats.get k
      else none := by
  induction n, hn using Nat.le_induction with
  | base =>
    split_ifs with hfloor
    · rfl
    · by_contra hget
      obtain ⟨stat, hstat⟩ := Option.ne_none_iff_exists'.mp hget
      exact hfloor (stats_floor hreached hstat)
  | succ n hn ih =>
    have hpos : 0 < (epoch - 1) * max size 1 := Nat.mul_pos (by omega) (by omega)
    have hlate : epoch - 1 ≤ (n + 1) / max size 1 := by
      rw [Nat.le_div_iff_mul_le (by omega)]
      omega
    have hmono : n / max size 1 ≤ (n + 1) / max size 1 := Nat.div_le_div_right (Nat.le_succ n)
    rw [get_stats_replay_succ (hreached n (Nat.le_succ n)) (hreached (n + 1) le_rfl) (by omega),
      ih fun m hm => hreached m (hm.trans (Nat.le_succ n))]
    split_ifs with hnew hold
    · rfl
    · omega
    · rfl

end

section
variable (steps : SlotIndex → Step) (size : Nat) (voters : List ReplicaId)

/-- The replay of the slots that an epoch's ranking rests on, cut to the window. -/
def rankingBase (epoch : Nat) : EpochTuner :=
  let t := replay steps size voters ((epoch - 1) * max size 1 - 1)
  { t with stats := t.stats.retain fun k _ => epoch - 1 - retainedStatEpochs ≤ k }

def agreed (epoch : Nat) : Result EpochSchedule := (rankingBase steps size voters epoch).derive epoch

structure Tracks (t : EpochTuner) : Prop extends IsAuto size voters t where
  reached : ∀ n ≤ t.statsThrough, (replay steps size voters n).statsThrough = n
  stats : t.stats = (replay steps size voters t.statsThrough).stats
  schedules : ∀ epoch s, t.schedules.get epoch = some s → agreed steps size voters epoch = .ok s

end

section
variable {steps : SlotIndex → Step} {size : Nat} {voters : List ReplicaId} {t : EpochTuner} {epoch : Nat}

theorem isAuto_rankingBase (steps : SlotIndex → Step) (size : Nat) (voters : List ReplicaId) (epoch : Nat) :
    IsAuto size voters (rankingBase steps size voters epoch) := by
  obtain ⟨hsize, hmembers, hauto⟩ := isAuto_replay steps size voters ((epoch - 1) * max size 1 - 1)
  exact ⟨hsize, hmembers, hauto⟩

theorem tracks_new : Tracks steps size voters (new size voters true) := by
  refine ⟨isAuto_new, ?_, rfl, by simp [new]⟩
  intro n hn
  cases Nat.le_zero.mp hn
  rfl

/-- In time and with enough history, the derived schedule is the agreed one. -/
theorem Tracks.derive (h : Tracks steps size voters t) (henough : (epoch - 1) * t.epochSize ≤ t.statsThrough + 1)
    (hwindow : t.statsThrough / t.epochSize - retainedStatEpochs = epoch - 1 - retainedStatEpochs) :
    t.derive epoch = agreed steps size voters epoch := by
  rw [h.epochSize] at henough hwindow
  have hsettled : (epoch - 1) * max size 1 - 1 ≤ t.statsThrough := by lia
  have hauto := isAuto_rankingBase steps size voters epoch
  refine derive_congr (h.members.trans hauto.members.symm) (h.epochSize.trans hauto.epochSize.symm) ?_ ?_ ?_
  · intro k hk
    rw [h.stats, stats_settled h.reached hk hsettled, hwindow]
    simp only [rankingBase, OrderedMap.get_retain_key, decide_eq_true_eq]
  · rw [h.epochSize]
    exact henough
  · rw [h.epochSize, rankingBase, h.reached _ hsettled]
    exact Nat.le_add_of_sub_le le_rfl

/-- A timely call with enough history derives what is agreed. -/
theorem Tracks.derive_timely (h : Tracks steps size voters t) (htimely : t.Timely epoch)
    (hget : t.schedules.get epoch = none) (hhistory : t.HasHistory epoch) :
    t.derive epoch = agreed steps size voters epoch := by
  have hauto := isAuto_rankingBase steps size voters epoch
  by_cases hwarm : epoch < 2 * t.members.length + 1
  · exact derive_warmup (h.members.trans hauto.members.symm) hwarm
  have henough := hhistory.resolve_left hwarm
  obtain hcached | hwarm' | hbehind | hwindow := htimely
  · rw [OrderedMap.contains, hget] at hcached
    cases hcached
  · exact absurd hwarm' hwarm
  · exact absurd hhistory hbehind
  · exact h.derive henough hwindow

theorem Tracks.ensureSchedule (h : Tracks steps size voters t) (htimely : t.Timely epoch) :
    Tracks steps size voters (after (ensureSchedule epoch) t) := by
  obtain heq | ⟨s, hget, hs, heq⟩ := after_ensureSchedule h.auto epoch
  · rw [heq]
    exact h
  · rw [heq]
    refine ⟨⟨h.epochSize, h.members, h.auto⟩, h.reached, h.stats, ?_⟩
    intro k s' hk
    rw [OrderedMap.get_insert] at hk
    split_ifs at hk with hsame
    · cases hk
      rw [hsame, ← h.derive_timely htimely hget (derive_eq_ok hs), hs]
    · exact h.schedules k s' hk

/-- The answer to a timely call is the agreed schedule. -/
theorem Tracks.result_ensureSchedule (h : Tracks steps size voters t) (htimely : t.Timely epoch)
    (hhistory : t.HasHistory epoch) :
    result (EpochTuner.ensureSchedule epoch) t = agreed steps size voters epoch := by
  rw [result, ensureSchedule_apply h.auto]
  cases hget : t.schedules.get epoch with
  | some s => exact (h.schedules epoch s hget).symm
  | none =>
    rw [h.derive_timely htimely hget hhistory]
    cases agreed steps size voters epoch <;> rfl

/-- The epoch of the next slot is either the current one or the one after it. -/
theorem timely_next {n : Nat} (hn : t.statsThrough = n)
    (hcached : 0 < n → t.schedules.contains (n / t.epochSize) = true) : t.Timely ((n + 1) / t.epochSize) := by
  rw [Nat.succ_div]
  split_ifs with hfirst
  · right; right; right
    rw [hn, Nat.add_sub_cancel]
  · rw [Nat.add_zero]
    obtain rfl | hpos := Nat.eq_zero_or_pos n
    · rw [Nat.zero_div]
      exact .inr (.inl (Nat.succ_pos _))
    · exact .inl (hcached hpos)

/-- Counting a slot under the agreed leader keeps a tuner on track once the replay is. -/
theorem Tracks.counted {n : Nat} (h : Tracks steps size voters t) (hn : t.statsThrough = n) {leader : ReplicaId}
    (hreached : (replay steps size voters (n + 1)).statsThrough = n + 1)
    (hstats : (t.counted (n + 1) leader (steps (n + 1))).stats = (replay steps size voters (n + 1)).stats) :
    Tracks steps size voters (t.counted (n + 1) leader (steps (n + 1))) := by
  refine ⟨h.toIsAuto.counted .., ?_, ?_, ?_⟩
  · intro m hm
    rw [counted_statsThrough] at hm
    obtain hm | rfl := Nat.le_succ_iff.mp hm
    · exact h.reached m (hn ▸ hm)
    · exact hreached
  · rw [counted_statsThrough]
    exact hstats
  · intro epoch s hget
    rw [get_schedules_counted] at hget
    split_ifs at hget
    exact h.schedules epoch s hget

theorem hasHistory_next {n : Nat} (hn : t.statsThrough = n) : t.HasHistory ((n + 1) / t.epochSize) := by
  right
  rw [hn]
  exact (Nat.mul_le_mul_right _ (Nat.sub_le ..)).trans (Nat.div_mul_le_self ..)

/-- The replay stays on track by itself: it asks for a schedule at the first slot of each epoch. -/
theorem tracks_replay {n : Nat} (hreached : ∀ m ≤ n, (replay steps size voters m).statsThrough = m) :
    Tracks steps size voters (replay steps size voters n) ∧
      (0 < n → (replay steps size voters n).schedules.contains (n / max size 1) = true) := by
  induction n with
  | zero => exact ⟨tracks_new, fun h => absurd h (Nat.lt_irrefl 0)⟩
  | succ n ih =>
    obtain ⟨htracks, hcached⟩ := ih fun m hm => hreached m (hm.trans (Nat.le_succ n))
    have hn := hreached n (Nat.le_succ n)
    obtain ⟨s, leader, hask, _, heq⟩ := replay_succ hn (hreached (n + 1) le_rfl)
    have htimely : (replay steps size voters n).Timely ((n + 1) / max size 1) := by
      rw [← htracks.epochSize] at hcached ⊢
      exact timely_next hn hcached
    have hthrough : (after (EpochTuner.ensureSchedule ((n + 1) / max size 1))
      (replay steps size voters n)).statsThrough = n := by
      obtain h | ⟨_, _, _, h⟩ := after_ensureSchedule htracks.auto ((n + 1) / max size 1) <;> rw [h] <;> exact hn
    have hsched := ensureSchedule_eq_ok htracks.auto hask
    constructor
    · have htracks' := (htracks.ensureSchedule htimely).counted hthrough (hreached (n + 1) le_rfl) (congrArg _ heq.symm)
      rwa [← heq] at htracks'
    · intro _
      rw [heq, OrderedMap.contains, get_schedules_counted, hsched, (htracks.ensureSchedule htimely).epochSize,
        if_pos (Nat.sub_le ..)]
      rfl

theorem Tracks.noteCommitted (h : Tracks steps size voters t) (slot : SlotIndex)
    (htimely : slot = t.statsThrough + 1 → t.Timely (slot / t.epochSize)) :
    Tracks steps size voters (after (noteCommitted slot (steps slot)) t) := by
  obtain heq | ⟨hnext, heq⟩ := after_noteCommitted h.auto slot (steps slot)
  · rw [heq]
    exact h
  have hslot : slot = t.statsThrough + 1 := (SlotIndex.checkedNext_eq_some.mp hnext.symm).2
  have hensured := h.ensureSchedule (htimely hslot)
  obtain heq | ⟨s, leader, hask, hleader, heq⟩ := heq
  · rw [heq]
    exact hensured
  rw [heq]
  -- the replay of the slots before derives the same schedule, so it counts the slot under the same leader
  obtain ⟨hreplay, hcached⟩ := tracks_replay h.reached
  have hthrough := h.reached _ le_rfl
  generalize hn : t.statsThrough = n at *
  subst hslot
  have hagreed := hensured.schedules _ s (ensureSchedule_eq_ok h.auto hask)
  have hsize := hreplay.epochSize.trans h.epochSize.symm
  have hsame : result (EpochTuner.ensureSchedule ((n + 1) / t.epochSize)) (replay steps size voters n) = .ok s := by
    rw [← hsize, hreplay.result_ensureSchedule (timely_next hthrough (by rwa [hreplay.epochSize]))
      (hasHistory_next hthrough), hsize, hagreed]
  have hkept : ∀ t : EpochTuner, t.auto = true → ∀ epoch,
      (after (EpochTuner.ensureSchedule epoch) t).stats = t.stats ∧
      (after (EpochTuner.ensureSchedule epoch) t).statsThrough = t.statsThrough := by
    intro t hauto epoch
    obtain h | ⟨_, _, _, h⟩ := after_ensureSchedule hauto epoch <;> rw [h] <;> exact ⟨rfl, rfl⟩
  have hcounted : replay steps size voters (n + 1) =
      (after (EpochTuner.ensureSchedule ((n + 1) / t.epochSize)) (replay steps size voters n)).counted (n + 1) leader
        (steps (n + 1)) := by
    have hnote := noteCommitted_next hreplay.auto (by rw [hthrough]; exact hnext) (steps (n + 1))
    rw [hsize] at hnote
    simp only [replay, after, hnote]
    simp only [result] at hsame
    split at hsame
    · rename_i s' t' heq'
      cases hsame
      simp only [heq', hleader]
    · cases hsame
  refine hensured.counted ((hkept t h.auto _).2.trans hn) ?_ ?_
  · rw [hcounted, counted_statsThrough]
  · rw [hcounted]
    apply counted_stats_congr
    · exact hensured.epochSize.trans (hreplay.toIsAuto.ensureSchedule _).epochSize.symm
    · rw [(hkept t h.auto _).1, (hkept _ hreplay.auto _).1, h.stats, hn]

private theorem Tracks.restore (h : Tracks steps size voters t) (kept : List Nat) :
    Tracks steps size voters (perform steps t (.restore kept)) := by
  simp only [perform]
  split
  · rename_i t' hok
    simp only [EpochTuner.restore, unit_bind_eq_ok, pure, Except.pure, Except.ok.injEq] at hok
    obtain ⟨_, _, rfl⟩ := hok
    refine ⟨⟨?_, h.members, h.auto⟩, h.reached, h.stats, ?_⟩
    · rw [new, h.epochSize]
      exact max_eq_left (le_max_right ..)
    · exact fun epoch s hget => h.schedules epoch s ((OrderedMap.get_retain ..).mp hget).1
  · exact h

private theorem Tracks.perform (h : Tracks steps size voters t) {op : TunerOp} (hop : t.AsksInTime op) :
    Tracks steps size voters (t.perform steps op) := by
  cases op with
  | noteCommitted slot => exact h.noteCommitted slot hop
  | ensureSchedule epoch => exact h.ensureSchedule hop
  | restore kept => exact h.restore kept

end

/-- Two tuners that count the same slots and ask in time give the same answer. -/
theorem schedules_agree (steps : SlotIndex → Step) (size : Nat) (voters : List ReplicaId) (ops ops' : List TunerOp)
    (h : Along (perform steps) AsksInTime (new size voters true) ops)
    (h' : Along (perform steps) AsksInTime (new size voters true) ops') (epoch : Nat) :
    let t := run (perform steps) (new size voters true) ops
    let t' := run (perform steps) (new size voters true) ops'
    t.HasHistory epoch → t'.HasHistory epoch → t.Timely epoch → t'.Timely epoch →
      result (ensureSchedule epoch) t = result (ensureSchedule epoch) t' := by
  intro t t' hhistory hhistory' htimely htimely'
  have htracks : Tracks steps size voters t := run_invariant (fun _ _ h hop => h.perform hop) tracks_new h
  have htracks' : Tracks steps size voters t' := run_invariant (fun _ _ h hop => h.perform hop) tracks_new h'
  rw [htracks.result_ensureSchedule htimely hhistory, htracks'.result_ensureSchedule htimely' hhistory']

def notesThrough (n : Nat) : List TunerOp := (List.range' 1 n).map .noteCommitted

def slowSecondSlot (slot : SlotIndex) : Step := if slot = 2 then 100 else 4

/-- The schedule of epoch 68, asked for before and after slot 67 is counted: the sample
against replica 1 counts for the first tuner only. -/
theorem schedule_depends_on_time :
    let early := run (perform slowSecondSlot) (new 1 [1, 2] true) (notesThrough 66)
    let late := run (perform slowSecondSlot) (new 1 [1, 2] true) (notesThrough 67)
    early.HasHistory 68 ∧ late.HasHistory 68 ∧
      early.schedules.contains 68 = false ∧ late.schedules.contains 68 = false ∧
      result (ensureSchedule 68) early = .ok ⟨68, [2, 1]⟩ ∧ result (ensureSchedule 68) late = .ok ⟨68, [1, 2]⟩ := by
  decide +kernel

/-- A tuner that asks as soon as it can and one that asks after two more slots and a restart. -/
theorem schedules_agree_restored :
    result (ensureSchedule 7) (run (perform slowSecondSlot) (new 1 [1, 2] true) (notesThrough 5)) =
      result (ensureSchedule 7) (run (perform slowSecondSlot) (new 1 [1, 2] true) (notesThrough 7 ++ [.restore [6]])) :=
  schedules_agree slowSecondSlot 1 [1, 2] (notesThrough 5) (notesThrough 7 ++ [.restore [6]]) (by decide +kernel)
    (by decide +kernel) 7 (by decide +kernel) (by decide +kernel) (by decide +kernel) (by decide +kernel)

end EpochTuner
end QuePaxa
