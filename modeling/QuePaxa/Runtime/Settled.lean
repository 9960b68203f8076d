import Mathlib.Data.List.Sort
import Mathlib.Order.Interval.Finset.Nat
import QuePaxa.Core.ReplicaCommit
import QuePaxa.Runtime.Runtime

/-! The link between the log, the retained decisions and the checkpoint of a runtime. It is
a matter of the durable state, so both runtimes share it. -/
namespace QuePaxa
open Library
variable {V : Type}
variable {slot : SlotIndex}

/-- Retained decisions lie above the checkpoint, and those of the log are retained. -/
structure RuntimeSnapshot.Settled (s : RuntimeSnapshot V) : Prop where
  ordered : s.replica.Ordered
  retained : ∀ slot d, s.decisions.get slot = some d → s.replica.checkpointedThrough < slot ∧ d.slot = slot
  linked : ¬s.replica.Jammed → ∀ slot, s.replica.checkpointedThrough < slot →
    (s.replica.decisionAt slot).isSome = true →
    (s.decisions.get slot).isSome = true
  filled : ∀ slot, s.replica.checkpointedThrough < slot → slot < s.replica.nextCommit →
    (s.replica.decisionAt slot).isSome = true

namespace RuntimeSnapshot
variable {s s' : RuntimeSnapshot V} {r r' : ReplicaCore V} {d : Decision V} {ds : List (Decision V)}

theorem Settled.same (h : s.Settled) (hs : s.replica.SameOutcome s'.replica) (hd : s'.decisions = s.decisions) :
    s'.Settled := by
  refine ⟨h.ordered.same hs, ?_, ?_, ?_⟩
  · rw [hd, hs.checkpointedThrough]
    exact h.retained
  · rw [hs.jammed, hd, hs.checkpointedThrough, hs.decisionAt]
    exact h.linked
  · rw [hs.checkpointedThrough, hs.nextCommit, hs.decisionAt]
    exact h.filled

/-- Everything committed above the checkpoint is retained. -/
theorem Settled.committed_retained (h : s.Settled) (hj : ¬s.replica.Jammed)
    (hlo : s.replica.checkpointedThrough < slot) (hhi : slot < s.replica.nextCommit) :
    (s.decisions.get slot).isSome = true :=
  h.linked hj slot hlo (h.filled slot hlo hhi)

theorem get_new {config : ReplicaConfig} (hne : slot ≠ SlotIndex.genesis) :
    (ReplicaCore.new config : ReplicaCore V).log.get slot = none := by
  simp only [ReplicaCore.new, OrderedMap.get_insert, if_neg hne, OrderedMap.get_emptyCollection]

theorem settled_new (config : ReplicaConfig) (hr : s.replica = (ReplicaCore.new config).snapshot)
    (hd : s.decisions = ∅) :
    s.Settled := by
  refine ⟨?_, ?_, ?_, ?_⟩
  · rw [hr]
    exact ReplicaSnapshot.ordered_new config
  · intro slot d hget
    rw [hd] at hget
    cases hget
  · intro _ slot hlo hsome
    rw [hr] at hlo hsome
    rw [ReplicaSnapshot.decisionAt, ReplicaCore.snapshot, get_new (Nat.ne_of_gt hlo)] at hsome
    cases hsome
  · intro slot hlo hhi
    rw [hr] at hlo hhi
    exact absurd (Nat.le_of_lt_succ hhi) (not_le.mpr hlo)

private theorem Settled.filled_applied (hs : s.Settled) (hr : s.replica = r.snapshot)
    (happly : ReplicaCore.Applied r d ds r')
    (slot : SlotIndex) (hlo : r'.checkpointedThrough < slot) (hhi : slot < r'.nextCommit) :
    (r'.decisionAt slot).isSome = true := by
  by_cases hnew : r.nextCommit ≤ slot
  · exact happly.filled slot hnew hhi
  by_cases hslot : slot = d.slot
  · rw [hslot]
    exact happly.here
  · have hfilled := hs.filled slot
    rw [hr] at hfilled
    rw [happly.others slot hslot]
    exact hfilled (happly.checkpointedThrough ▸ hlo) (not_le.mp hnew)

theorem Settled.retain (hs : s.Settled) (hr : s.replica = r.snapshot) (hlive : r.checkpointedThrough < d.slot)
    (happly : ReplicaCore.Applied r d ds r') (hr' : s'.replica = r'.snapshot)
    (hd : s'.decisions = s.decisions.insert d.slot d) : s'.Settled := by
  have hretained := hs.retained
  have hlinked := hs.linked
  have hfilled := hs.filled_applied hr happly
  rw [hr] at hretained hlinked
  have hget : ∀ k, s'.decisions.get k = if k = d.slot then some d else s.decisions.get k := by
    intro k
    rw [hd, OrderedMap.get_insert]
  refine ⟨hr' ▸ happly.ordered, ?_, ?_, hr' ▸ hfilled⟩
  · intro slot d' hget'
    rw [hget] at hget'
    rw [hr', show r'.snapshot.checkpointedThrough = r.checkpointedThrough from happly.checkpointedThrough]
    split_ifs at hget' with hslot
    · cases hget'
      exact ⟨hslot ▸ hlive, hslot.symm⟩
    · exact hretained slot d' hget'
  · rw [hr']
    intro hj slot hlo hsome
    rw [hget]
    split_ifs with hslot
    · rfl
    · have hsome' : (r.decisionAt slot).isSome = true := by
        rw [← happly.others slot hslot]
        exact hsome
      exact hlinked (fun hjam => hj (happly.jammed hjam)) slot (happly.checkpointedThrough ▸ hlo) hsome'

theorem Settled.jam (hs : s.Settled) (hr : s.replica = r.snapshot) (happly : ReplicaCore.Applied r d ds r')
    (hjam : r'.Jammed)
    (hr' : s'.replica = r'.snapshot) (hd : s'.decisions = s.decisions) : s'.Settled := by
  have hretained := hs.retained
  have hfilled := hs.filled_applied hr happly
  rw [hr] at hretained
  refine ⟨hr' ▸ happly.ordered, ?_, hr' ▸ fun hj => absurd hjam hj, hr' ▸ hfilled⟩
  intro slot d' hget
  rw [hr', show r'.snapshot.checkpointedThrough = r.checkpointedThrough from happly.checkpointedThrough]
  exact hretained slot d' (hd ▸ hget)

theorem checkpointedThrough_prune (hcommitted : slot ≤ r.committedThrough) :
    (r.pruneThrough slot).checkpointedThrough = max slot r.checkpointedThrough := by
  show max (min slot r.committedThrough) _ = _
  rw [min_eq_left hcommitted]

theorem Settled.prune (hs : s.Settled) (hr : s.replica = r.snapshot) (hcommitted : slot ≤ r.committedThrough)
    (hr' : s'.replica = (r.pruneThrough slot).snapshot)
    (hd : s'.decisions = s.decisions.retain fun index _ => slot < index) :
    s'.Settled := by
  have hordered := hs.ordered
  have hretained := hs.retained
  have hlinked := hs.linked
  have hfilled := hs.filled
  rw [hr] at hordered hretained hlinked hfilled
  have hfloor := checkpointedThrough_prune hcommitted
  have hget : ∀ k d, s'.decisions.get k = some d ↔ s.decisions.get k = some d ∧ slot < k := by
    intro k d
    rw [hd, OrderedMap.get_retain, decide_eq_true_eq]
  have hahead : ∀ k, (r.pruneThrough slot).checkpointedThrough < k → slot < k ∧ r.checkpointedThrough < k := by
    intro k hlo
    rw [hfloor] at hlo
    exact max_lt_iff.mp hlo
  refine ⟨hr' ▸ ReplicaCore.ordered_prune hordered slot, ?_, ?_, ?_⟩ <;> rw [hr']
  · intro k d hk
    obtain ⟨hold, hlt⟩ := (hget k d).mp hk
    obtain ⟨hfl, hslot⟩ := hretained k d hold
    refine ⟨?_, hslot⟩
    show (r.pruneThrough slot).checkpointedThrough < k
    rw [hfloor]
    exact max_lt hlt hfl
  · intro hj k hlo hsome
    obtain ⟨hlt, hfl⟩ := hahead k hlo
    have hdec : (r.decisionAt k).isSome = true := by
      rw [← ReplicaCore.decisionAt_prune (r := r) hlo]
      exact hsome
    have hnojam : ¬r.Jammed := fun hjam => hj (ReplicaCore.jammed_prune hordered.frontier hordered.bound slot hjam)
    obtain ⟨d, hold⟩ := Option.isSome_iff_exists.mp (hlinked hnojam k hfl hdec)
    exact Option.isSome_iff_exists.mpr ⟨d, (hget k d).mpr ⟨hold, hlt⟩⟩
  · intro k hlo hhi
    have hdec : (r.decisionAt k).isSome = true := hfilled k (hahead k hlo).2 hhi
    rw [← ReplicaCore.decisionAt_prune (r := r) hlo] at hdec
    exact hdec

structure Whole (s : RuntimeSnapshot V) : Prop where
  settled : s.Settled
  floor : s.replica.checkpointedThrough = 0
  calm : ¬s.replica.Jammed
  waits : s.replica.Waits

theorem Whole.same (h : s.Whole) (hs : s.replica.SameOutcome s'.replica) (hd : s'.decisions = s.decisions) : s'.Whole :=
  ⟨h.settled.same hs hd, hs.checkpointedThrough.trans h.floor, fun hj => h.calm (hs.jammed.mp hj), hs.waits.mpr h.waits⟩

theorem whole_new (config : ReplicaConfig) (hr : s.replica = (ReplicaCore.new config).snapshot) (hd : s.decisions = ∅) :
    s.Whole := by
  have hnone : ∀ slot, slot ≠ SlotIndex.genesis → s.replica.log.get slot = none := by
    intro slot hne
    rw [hr]
    exact get_new hne
  refine ⟨settled_new config hr hd, by rw [hr]; rfl, ?_, ?_⟩
  · intro hj
    rw [ReplicaSnapshot.Jammed, hnone u64Max (by decide)] at hj
    cases hj
  · have hfirst : s.replica.nextCommit = 1 := by rw [hr]; rfl
    rw [ReplicaSnapshot.Waits, ReplicaSnapshot.decisionAt, ReplicaSnapshot.isCommitted, hfirst, hnone 1 (by decide)]
    exact ⟨rfl, rfl⟩

theorem Whole.retain (h : s.Whole) (hr : s.replica = r.snapshot) (hlive : r.checkpointedThrough < d.slot)
    (happly : ReplicaCore.Applied r d ds r') (hwaits : r.Waits → r'.Waits) (hr' : s'.replica = r'.snapshot)
    (hd : s'.decisions = s.decisions.insert d.slot d) : s'.Whole := by
  obtain ⟨hsettled, hfloor, hcalm, hidle⟩ := h
  have hnow := hsettled.retain hr hlive happly hr' hd
  rw [hr] at hfloor hcalm hidle
  refine ⟨hnow, hr' ▸ happly.checkpointedThrough.trans hfloor, hr' ▸ fun hj => ?_, hr' ▸ hwaits hidle⟩
  have hlast := (happly.last hj).resolve_left hcalm
  have hopen := (hwaits hidle).2
  rw [hlast] at hopen
  exact Bool.false_ne_true (hopen.symm.trans hj)

/-- A log that jams without a checkpoint holds every slot there is. -/
private theorem Whole.size_of_jammed (h : s.Whole) (hr : s.replica = r.snapshot)
    (happly : ReplicaCore.Applied r d ds r')
    (hjam : r'.Jammed) : u64Max ≤ r'.log.size := by
  obtain ⟨hsettled, hfloor, hcalm, _⟩ := h
  have hfilled := hsettled.filled_applied hr happly
  rw [hr] at hfloor hcalm
  have hlast : r'.nextCommit = u64Max := (happly.last hjam).resolve_left hcalm
  have hkeys : Finset.Ioc 0 u64Max ⊆ r'.log.keys.toFinset := by
    intro k hk
    obtain ⟨hlo, hhi⟩ := Finset.mem_Ioc.mp hk
    rw [List.mem_toFinset, OrderedMap.mem_keys]
    rcases Nat.lt_or_eq_of_le hhi with hlt | rfl
    · have hsome := hfilled k (happly.checkpointedThrough.trans hfloor ▸ hlo) (hlast ▸ hlt)
      obtain ⟨d, hd⟩ := Option.isSome_iff_exists.mp hsome
      obtain ⟨entry, hentry, _⟩ := Option.bind_eq_some_iff.mp hd
      exact ⟨entry, hentry⟩
    · obtain ⟨entry, hentry, _⟩ := (Option.any_eq_true _ _).mp hjam
      exact ⟨entry, hentry⟩
  have hcard := Finset.card_le_card hkeys
  rwa [Nat.card_Ioc, ← OrderedMap.size_eq_card] at hcard

/-- In a log that fits, a refused decision changes nothing. -/
theorem Whole.refused (h : s.Whole) (hr : s.replica = r.snapshot) (hfits : r'.log.size < u64Max)
    (hrefused : r' = r ∨ (∃ ds, ReplicaCore.Applied r d ds r') ∧ r'.Jammed) : r' = r := by
  rcases hrefused with rfl | ⟨⟨ds, happly⟩, hjam⟩
  · rfl
  · exact absurd hfits (not_lt.mpr (h.size_of_jammed hr happly hjam))

/-- The committed slots are retained, from the checkpoint on. -/
theorem Settled.mem_ready (h : s.Settled) (hj : ¬s.replica.Jammed) (k : SlotIndex) :
    k ∈ (s.decisions.upTo (s.replica.nextCommit - 1)).keys ↔ s.replica.checkpointedThrough < k ∧
      k < s.replica.nextCommit := by
  have hpos : 0 < s.replica.nextCommit := Nat.zero_lt_of_lt h.ordered.frontier
  rw [OrderedMap.mem_keys]
  constructor
  · rintro ⟨d, hget⟩
    obtain ⟨hget, hle⟩ := (OrderedMap.get_upTo ..).mp hget
    exact ⟨(h.retained k d hget).1, Nat.lt_of_le_sub_one hpos hle⟩
  · rintro ⟨hlo, hhi⟩
    obtain ⟨d, hget⟩ := Option.isSome_iff_exists.mp (h.committed_retained hj hlo hhi)
    exact ⟨d, (OrderedMap.get_upTo ..).mpr ⟨hget, Nat.le_sub_one_of_lt hhi⟩⟩

/-- The decisions ready to be delivered, in slot order. -/
theorem Settled.ready_slots (h : s.Settled) (hj : ¬s.replica.Jammed) :
    (s.decisions.upTo (s.replica.nextCommit - 1)).values.map (·.slot) =
      List.range' (s.replica.checkpointedThrough + 1) (s.replica.nextCommit - 1 - s.replica.checkpointedThrough) := by
  have hkeys : (s.decisions.upTo (s.replica.nextCommit - 1)).values.map (·.slot) =
      (s.decisions.upTo (s.replica.nextCommit - 1)).keys := by
    rw [OrderedMap.values, OrderedMap.keys, List.map_map]
    apply List.map_congr_left
    intro e he
    exact (h.retained e.1 e.2 ((OrderedMap.get_upTo ..).mp ((OrderedMap.get_eq_some ..).mpr he)).1).2
  rw [hkeys]
  apply List.Pairwise.eq_of_mem_iff (OrderedMap.keys_sorted _) (List.pairwise_lt_range' ..)
  intro k
  rw [h.mem_ready hj, List.mem_range'_1]
  have hfrontier := h.ordered.frontier
  lia

/-- Without a checkpoint, from the first slot on. -/
theorem Whole.mem_ready (h : s.Whole) (k : SlotIndex) :
    k ∈ (s.decisions.upTo (s.replica.nextCommit - 1)).keys ↔ 1 ≤ k ∧ k < s.replica.nextCommit := by
  rw [h.settled.mem_ready h.calm, h.floor]
  exact Iff.rfl

/-- In slot order, what is left to do from `next` on. -/
theorem Whole.ready_from (h : s.Whole) {next : SlotIndex} (hnext : 1 ≤ next) (hle : next ≤ s.replica.nextCommit)
    {done : Finset SlotIndex} (hdone : ∀ k, k ∈ done ↔ 1 ≤ k ∧ k < next) :
    (s.decisions.upTo (s.replica.nextCommit - 1)).keys.filter (· ∉ done) =
      List.range' next (s.replica.nextCommit - next) := by
  have hsorted := (s.decisions.upTo (s.replica.nextCommit - 1)).keys_sorted.filter (· ∉ done)
  apply List.Pairwise.eq_of_mem_iff hsorted (List.pairwise_lt_range' ..)
  intro k
  rw [List.mem_filter, h.mem_ready, decide_eq_true_eq, hdone, List.mem_range'_1]
  lia

end RuntimeSnapshot
end QuePaxa
