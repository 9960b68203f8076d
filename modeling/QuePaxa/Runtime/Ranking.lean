import Mathlib.Algebra.Order.BigOperators.Group.List
import Mathlib.Order.Interval.Finset.Nat
import QuePaxa.Runtime.RankingLog

/-! Derived schedules are permutations of the members: in turn at first, then by the exact
average of the steps that the slots a member led took to decide. -/
namespace QuePaxa
open Library

namespace EpochTuner
variable {t : EpochTuner}
variable {s : EpochSchedule}

def Sampled (t : EpochTuner) : Prop := ∀ epoch stat, t.stats.get epoch = some stat → stat.slots ≠ 0

def ledBy (t : EpochTuner) (windowEnd : Nat) (replica : ReplicaId) : List (Nat × EpochStat) :=
  (t.stats.entries.filter (·.1 ≤ windowEnd)).filter (·.2.leader = replica)

theorem mem_ledBy {windowEnd : Nat} {replica : ReplicaId} {e : Nat × EpochStat} :
    e ∈ t.ledBy windowEnd replica ↔ t.stats.get e.1 = some e.2 ∧ e.1 ≤ windowEnd ∧ e.2.leader = replica := by
  simp only [ledBy, List.mem_filter, decide_eq_true_eq, OrderedMap.get_eq_some, and_assoc]

private theorem nodup_ledBy (t : EpochTuner) (windowEnd : Nat) (replica : ReplicaId) :
    ((t.ledBy windowEnd replica).map Prod.fst).Nodup :=
  t.stats.keys_nodup.sublist ((List.filter_sublist.trans List.filter_sublist).map Prod.fst)

theorem get_totals (t : EpochTuner) (windowEnd : Nat) (replica : ReplicaId) :
    (t.totals windowEnd).get replica =
      if t.ledBy windowEnd replica = [] then none
      else some (((t.ledBy windowEnd replica).map (·.2.slots)).sum,
        ((t.ledBy windowEnd replica).map (·.2.decidedStepTotal)).sum) :=
  get_foldl_totals (fun e : Nat × EpochStat => e.2.leader) (·.2.slots) (·.2.decidedStepTotal) _ replica

theorem Sampled.totals (h : t.Sampled) {windowEnd : Nat} {replica : ReplicaId} {total : Nat × Nat}
    (htotal : (t.totals windowEnd).get replica = some total) : 0 < total.1 := by
  rw [get_totals] at htotal
  split_ifs at htotal with hnil
  cases htotal
  obtain ⟨e, he⟩ := List.exists_mem_of_ne_nil _ hnil
  have hpos : 0 < e.2.slots := Nat.pos_of_ne_zero (h e.1 e.2 (mem_ledBy.mp he).1)
  exact hpos.trans_le (List.single_le_sum (fun _ _ => Nat.zero_le _) _ (List.mem_map_of_mem he))

/-- The comparison of two leaders by cross multiplication is that of their averages. -/
theorem compareLeaderFitness_eq {left right : Option (Nat × Nat)} (hleft : ∀ total, left = some total → 0 < total.1)
    (hright : ∀ total, right = some total → 0 < total.1) :
    compareLeaderFitness left right = compare (average left) (average right) := by
  cases left with
  | none =>
    cases right with
    | none => rfl
    | some b => exact (compare_gt_iff_gt.mpr (WithTop.coe_lt_top _)).symm
  | some a =>
    cases right with
    | none => exact (compare_lt_iff_lt.mpr (WithTop.coe_lt_top _)).symm
    | some b => exact compare_cross (hleft a rfl) (hright b rfl)

def compareMembers (t : EpochTuner) (windowEnd : Nat) (left right : ReplicaId) : Ordering :=
  (compareLeaderFitness ((t.totals windowEnd).get left) ((t.totals windowEnd).get right)).then (compare left right)

theorem compareMembers_eq (h : t.Sampled) (windowEnd : Nat) :
    t.compareMembers windowEnd = compareLex (compareOn fun r => average ((t.totals windowEnd).get r)) compare := by
  funext left right
  rw [compareMembers, compareLeaderFitness_eq (fun _ => h.totals) (fun _ => h.totals)]
  rfl

theorem transCmp_compareMembers (h : t.Sampled) (windowEnd : Nat) : Std.TransCmp (t.compareMembers windowEnd) := by
  rw [compareMembers_eq h]
  infer_instance

private theorem transCmp_compareLeaderFitness (h : t.Sampled) (windowEnd : Nat) :
    Std.TransCmp fun left right : ReplicaId =>
      compareLeaderFitness ((t.totals windowEnd).get left) ((t.totals windowEnd).get right) := by
  have heq : (fun left right : ReplicaId =>
      compareLeaderFitness ((t.totals windowEnd).get left) ((t.totals windowEnd).get right)) =
        compareOn fun r => average ((t.totals windowEnd).get r) := by
    funext left right
    exact compareLeaderFitness_eq (fun _ => h.totals) (fun _ => h.totals)
  rw [heq]
  infer_instance

/-- The statistics can be ranked by: no average is over no slots, and the comparisons of averages
and of members are transitive. -/
structure Consistent (t : EpochTuner) : Prop where
  sampled : t.Sampled
  fitness : ∀ windowEnd, Std.TransCmp fun left right : ReplicaId =>
    compareLeaderFitness ((t.totals windowEnd).get left) ((t.totals windowEnd).get right)
  members : ∀ windowEnd, Std.TransCmp (t.compareMembers windowEnd)

private theorem Sampled.consistent (h : t.Sampled) : t.Consistent :=
  ⟨h, transCmp_compareLeaderFitness h, transCmp_compareMembers h⟩

private theorem pairwise_ranked (h : t.Sampled) (hnodup : t.members.Nodup) (windowEnd : Nat) :
    (t.ranked windowEnd).Pairwise fun left right =>
      toLex (average ((t.totals windowEnd).get left), left) <
        toLex (average ((t.totals windowEnd).get right), right) := by
  have htrans := transCmp_compareMembers h windowEnd
  have hsorted : (t.ranked windowEnd).Pairwise fun left right => t.compareMembers windowEnd left right ≠ .gt :=
    pairwise_insertionSort_cmp (t.compareMembers windowEnd) t.members
  have hdistinct : (t.ranked windowEnd).Nodup := (List.perm_insertionSort _ _).nodup_iff.mpr hnodup
  refine (hsorted.and hdistinct).imp fun {left right} hpair => ?_
  obtain ⟨hle, hne⟩ := hpair
  rw [Prod.Lex.toLex_lt_toLex]
  rw [compareMembers_eq h, compareLex, compareOn] at hle
  rcases lt_trichotomy (average ((t.totals windowEnd).get left)) (average ((t.totals windowEnd).get right)) with hlt |
    heq | hgt
  · exact .inl hlt
  · right
    rw [compare_eq_iff_eq.mpr heq, Ordering.eq_then, compare_le_iff_le] at hle
    exact ⟨heq, lt_of_le_of_ne hle hne⟩
  · rw [compare_gt_iff_gt.mpr hgt] at hle
    exact absurd rfl hle

/-- The epochs in which a member has its turn in front although it is not the best. -/
def Reexplores (members : List ReplicaId) (epoch : Nat) : Prop :=
  2 * members.length + 1 < epoch ∧ (epoch - (2 * members.length + 1)) % autoReexploreEpochs = 0

instance (members : List ReplicaId) (epoch : Nat) : Decidable (Reexplores members epoch) :=
  inferInstanceAs (Decidable (_ ∧ _))

def candidate (members : List ReplicaId) (epoch : Nat) : ReplicaId :=
  members.getD ((epoch - (2 * members.length + 1)) / autoReexploreEpochs % members.length) 0

theorem proposers_new {epoch : Nat} {proposers : List ReplicaId}
    (h : EpochSchedule.new epoch proposers = .ok s) : s.proposers = proposers := by
  simp only [EpochSchedule.new] at h
  split_ifs at h
  split at h
  · cases h
  · cases h
    rfl

private theorem derive_warmup_proposers {epoch : Nat} (h : t.derive epoch = .ok s)
    (hwarm : epoch < 2 * t.members.length + 1) : s.proposers = rotated t.members (epoch % t.members.length) := by
  simp only [derive, if_pos hwarm] at h
  split_ifs at h
  exact proposers_new h

private theorem derive_ranked_proposers {epoch : Nat} (h : t.derive epoch = .ok s)
    (hlate : 2 * t.members.length + 1 ≤ epoch) :
    s.proposers = if Reexplores t.members epoch then
        candidate t.members epoch :: (t.ranked (epoch - 2)).erase (candidate t.members epoch)
      else t.ranked (epoch - 2) := by
  simp only [derive, if_neg hlate.not_gt] at h
  have hexplore : 0 < epoch - (2 * t.members.length + 1) ∧
      (epoch - (2 * t.members.length + 1)) % autoReexploreEpochs = 0 ↔
      Reexplores t.members epoch := by
    rw [Reexplores, Nat.sub_pos_iff_lt]
  simp only [hexplore] at h
  split_ifs at h ⊢
  · exact proposers_new h
  · exact proposers_new h

end EpochTuner

namespace LoggedTuner
variable {r : LoggedTuner} {windowEnd : Nat} {replica : ReplicaId}
variable {members : List ReplicaId}

/-- The average decided step of the slots a replica led in the epochs up to `windowEnd` for which
statistics are retained; a replica without such slots comes after every other. -/
def fitness (r : LoggedTuner) (windowEnd : Nat) (replica : ReplicaId) : WithTop ℚ := mean (r.samples windowEnd replica)

/-- A slot is counted once, and slots are positive 64-bit numbers. -/
theorem Exact.length_log_le (h : r.Exact) : r.log.length ≤ u64Max := by
  have hnodup : (r.log.map (·.slot)).Nodup := (List.pairwise_map.mpr h.increasing).imp fun hlt => hlt.ne
  have hsub : (r.log.map (·.slot)).toFinset ⊆ Finset.Ioc 0 u64Max := by
    intro slot hslot
    obtain ⟨c, hc, rfl⟩ := List.mem_map.mp (List.mem_toFinset.mp hslot)
    exact Finset.mem_Ioc.mpr (h.fits c hc)
  have hcard := Finset.card_le_card hsub
  rw [List.toFinset_card_of_nodup hnodup, List.length_map, Nat.card_Ioc] at hcard
  exact hcard

theorem Exact.sampled (h : r.Exact) : r.tuner.Sampled := by
  intro epoch stat hget
  have hstat := h.stats epoch stat hget
  have hpos := List.length_pos_iff.mpr hstat.sampled
  rw [hstat.slots]
  exact (lt_min hpos (by decide)).ne'

/-- The slots a replica led are those of the epochs whose statistics name it. -/
theorem Exact.samples_eq (h : r.Exact) :
    r.samples windowEnd replica =
      (r.log.filter (r.epochOf · ∈ (r.tuner.ledBy windowEnd replica).map Prod.fst)).map (·.decidedStep) := by
  rw [samples]
  congr 1
  refine List.filter_congr fun c hc => ?_
  rw [decide_eq_decide]
  constructor
  · rintro ⟨hle, hcontains, hleader⟩
    obtain ⟨stat, hget⟩ := (OrderedMap.contains_iff ..).mp hcontains
    have hsame := (h.stats _ stat hget).led c hc rfl
    exact List.mem_map.mpr ⟨(r.epochOf c, stat), EpochTuner.mem_ledBy.mpr ⟨hget, hle, hsame.symm.trans hleader⟩, rfl⟩
  · intro hmem
    obtain ⟨⟨epoch, stat⟩, he, hepoch⟩ := List.mem_map.mp hmem
    obtain ⟨hget, hle, hleader⟩ := EpochTuner.mem_ledBy.mp he
    dsimp only at hepoch hget hle hleader
    subst hepoch
    exact ⟨hle, (OrderedMap.contains_iff ..).mpr ⟨stat, hget⟩, ((h.stats _ stat hget).led c hc rfl).trans hleader⟩

private theorem Exact.samples_eq_nil (h : r.Exact) :
    r.samples windowEnd replica = [] ↔ r.tuner.ledBy windowEnd replica = [] := by
  rw [h.samples_eq, List.map_eq_nil_iff, List.filter_eq_nil_iff]
  constructor
  · intro hnone
    by_contra hled
    obtain ⟨e, he⟩ := List.exists_mem_of_ne_nil _ hled
    have hstat := h.stats e.1 e.2 (EpochTuner.mem_ledBy.mp he).1
    obtain ⟨c, hc⟩ := List.exists_mem_of_ne_nil _ (mt List.map_eq_nil_iff.mpr hstat.sampled)
    obtain ⟨hc, hepoch⟩ := List.mem_filter.mp hc
    refine hnone c hc (decide_eq_true ?_)
    rw [of_decide_eq_true hepoch]
    exact List.mem_map_of_mem he
  · intro hled c _
    rw [hled]
    simp only [List.map_nil, List.not_mem_nil, decide_false, Bool.false_eq_true, not_false_eq_true]

private theorem sum_ledBy {weight : EpochStat → Nat} {f : CountedSlot → Nat}
    (hweight : ∀ epoch stat, r.tuner.stats.get epoch = some stat →
      weight stat = ((r.log.filter (r.epochOf · = epoch)).map f).sum) (windowEnd : Nat) (replica : ReplicaId) :
    ((r.tuner.ledBy windowEnd replica).map fun e => weight e.2).sum =
      ((r.log.filter (r.epochOf · ∈ (r.tuner.ledBy windowEnd replica).map Prod.fst)).map f).sum := by
  rw [← sum_map_fibres r.epochOf f (r.tuner.nodup_ledBy windowEnd replica), List.map_map]
  congr 1
  refine List.map_congr_left fun e he => ?_
  exact hweight e.1 e.2 (EpochTuner.mem_ledBy.mp he).1

/-- The totals a ranking uses are the number and the sum of the samples. -/
theorem Exact.get_totals (h : r.Exact) (hsums : ∀ epoch, (r.stepsIn epoch).sum ≤ u64Max) (windowEnd : Nat)
    (replica : ReplicaId) :
    (r.tuner.totals windowEnd).get replica =
      if r.samples windowEnd replica = [] then none
      else some ((r.samples windowEnd replica).length, (r.samples windowEnd replica).sum) := by
  have hslots : ((r.tuner.ledBy windowEnd replica).map (·.2.slots)).sum = (r.samples windowEnd replica).length := by
    rw [sum_ledBy (f := fun _ => 1), h.samples_eq, List.length_map]
    · rw [List.map_const', List.sum_replicate_nat, Nat.mul_one]
    · intro epoch stat hget
      have hle : (r.stepsIn epoch).length ≤ u64Max := by
        rw [stepsIn, List.length_map]
        exact (List.length_filter_le ..).trans h.length_log_le
      rw [(h.stats epoch stat hget).slots, min_eq_left hle, stepsIn, List.length_map]
      rw [List.map_const', List.sum_replicate_nat, Nat.mul_one]
  have htotal : ((r.tuner.ledBy windowEnd replica).map (·.2.decidedStepTotal)).sum =
    (r.samples windowEnd replica).sum := by
    rw [sum_ledBy (f := (·.decidedStep)), h.samples_eq]
    intro epoch stat hget
    rw [(h.stats epoch stat hget).total, min_eq_left (hsums epoch), stepsIn]
  rw [EpochTuner.get_totals, hslots, htotal]
  simp only [h.samples_eq_nil]

/-- The ranking is in the order of the exact averages. -/
theorem Exact.pairwise_ranked (h : r.Exact) (hsums : ∀ epoch, (r.stepsIn epoch).sum ≤ u64Max) (windowEnd : Nat) :
    (r.tuner.ranked windowEnd).Pairwise fun left right =>
      toLex (r.fitness windowEnd left, left) < toLex (r.fitness windowEnd right, right) := by
  have hfitness : ∀ replica, average ((r.tuner.totals windowEnd).get replica) = r.fitness windowEnd replica := by
    intro replica
    rw [h.get_totals hsums, average_samples, fitness]
  simpa only [hfitness] using EpochTuner.pairwise_ranked h.sampled h.members.2 windowEnd

/-! ### Restored tuners -/

private theorem sampled_moves {r' : LoggedTuner} (h : r.tuner.Sampled) (hmoves : r.Moves r') : r'.tuner.Sampled := by
  intro epoch stat hget
  cases hmoves with
  | asked k hasked =>
    rw [hasked.sameHistory.stats] at hget
    exact h epoch stat hget
  | @counted slot leader s r₁ step hasked hnext hscheduled hleader =>
    by_cases hepoch : epoch = slot / r₁.tuner.epochSize
    · rw [hepoch, EpochTuner.get_stats_counted_self] at hget
      cases hget
      exact (lt_min (Nat.succ_pos _) (by decide)).ne'
    · rw [EpochTuner.get_stats_counted hepoch, hasked.sameHistory.stats] at hget
      split_ifs at hget
      exact h epoch stat hget

private theorem step_manual (hmanual : r.tuner.auto = false) {call : TunerCall} (hcall : call.changesMembers = false) :
    r.step call = r := by
  cases call with
  | reconfigure members through => cases hcall
  | ensureSchedule epoch =>
    have hsame : after (EpochTuner.ensureSchedule epoch) r.tuner = r.tuner := by
      simp only [after, EpochTuner.ensureSchedule, bind_apply, get_apply, hmanual, Bool.not_false, if_true]
      cases r.tuner.schedules.get epoch <;> rfl
    rw [step, hsame]
  | noteCommitted slot decidedStep =>
    have hskip : EpochTuner.noteCommitted slot decidedStep r.tuner = .ok false r.tuner := by
      simp only [EpochTuner.noteCommitted, bind_apply, get_apply, hmanual, Bool.not_false, Bool.true_or, if_true,
        pure_apply]
    have hnone : newlyCounted r.tuner slot decidedStep = [] := by
      simp only [newlyCounted, result, hskip]
    rw [step, after_ok hskip, hnone, List.append_nil]

private theorem sampled_step (h : r.tuner.Sampled) (call : TunerCall) : (r.step call).tuner.Sampled := by
  cases hcall : call.changesMembers with
  | false =>
    cases hauto : r.tuner.auto with
    | true => exact sampled_moves h (moves hauto hcall)
    | false =>
      rw [step_manual hauto hcall]
      exact h
  | true =>
    cases call with
    | reconfigure members through =>
      intro epoch stat hget
      cases hget
    | _ => cases hcall

private theorem sampled_run (h : r.tuner.Sampled) (calls : List TunerCall) : (run step r calls).tuner.Sampled :=
  run_invariant_all (I := fun r : LoggedTuner => r.tuner.Sampled) (fun _ call h => sampled_step h call) h calls

private theorem sampled_restore {epochSize : Nat} {auto : Bool} {schedules : OrderedMap Nat EpochSchedule}
    {stats : OrderedMap Nat EpochStat} {through : SlotIndex} {t : EpochTuner}
    (h : EpochTuner.restore epochSize members auto schedules stats through = .ok t) : t.Sampled := by
  simp only [EpochTuner.restore, unit_bind_eq_ok, forM_eq_ok, require_eq_ok] at h
  obtain ⟨hstats, _, ht⟩ := h
  obtain rfl := Except.ok.inj ht
  intro epoch stat hget
  exact (hstats (epoch, stat) ((OrderedMap.get_eq_some ..).mp hget)).2.1

/-! ### The schedules -/

private theorem leader_rotated {epoch : Nat} {s : EpochSchedule} (hmembers : members ≠ [])
    (h : s.proposers = rotated members (epoch % members.length)) :
    ∃ leader, s.leader = .ok leader ∧ members[epoch % members.length]? = some leader := by
  have hlt : epoch % members.length < members.length := Nat.mod_lt _ (List.length_pos_iff.mpr hmembers)
  refine ⟨members[epoch % members.length], ?_, List.getElem?_eq_getElem hlt⟩
  rw [EpochSchedule.leader, h, rotated, List.drop_eq_getElem_cons hlt]
  rfl

private theorem perm_of_fits {epoch : Nat} {s : EpochSchedule} (hmembers : members.Nodup)
    (h : s.Fits members epoch) : s.proposers.Perm members :=
  List.perm_of_nodup_nodup_toFinset_eq h.nodup hmembers h.members

/-- No leader has led 2^64 slots or more, so the products that are compared fit in 128
bits as long as the sums of the steps fit in 64. -/
theorem Exact.product_fits (h : r.Exact) (hsums : ∀ epoch, (r.stepsIn epoch).sum ≤ u64Max) {right : ReplicaId}
    {total : Nat} {b : Nat × Nat} (hright : (r.tuner.totals windowEnd).get right = some b) (htotal : total < 2 ^ 64) :
    total * b.1 < 2 ^ 128 := by
  have hslots : b.1 ≤ u64Max := by
    rw [h.get_totals hsums] at hright
    split_ifs at hright
    cases hright
    rw [samples, List.length_map]
    exact (List.length_filter_le ..).trans h.length_log_le
  calc
    total * b.1 ≤ u64Max * u64Max := Nat.mul_le_mul (Nat.le_sub_one_of_lt htotal) hslots
    _ < 2 ^ 128 := by decide

/-- The proposers are the members in the order of the exact averages, those without samples last and
ties by ID; in an epoch of re-exploration the candidate is moved to the front. -/
def RankedBy (past : LoggedTuner) (epoch : Nat) (proposers : List ReplicaId) : Prop :=
  ∃ order : List ReplicaId, order.Perm past.tuner.members ∧
    (order.Pairwise fun left right =>
      toLex (past.fitness (epoch - 2) left, left) < toLex (past.fitness (epoch - 2) right, right)) ∧
    proposers =
      if EpochTuner.Reexplores past.tuner.members epoch then
        EpochTuner.candidate past.tuner.members epoch :: order.erase (EpochTuner.candidate past.tuner.members epoch)
      else order

private theorem Exact.rankedBy (h : r.Exact) (hsums : ∀ epoch, (r.stepsIn epoch).sum ≤ u64Max) {epoch : Nat}
    {s : EpochSchedule}
    (hderive : r.tuner.derive epoch = .ok s) (hlate : 2 * r.tuner.members.length + 1 ≤ epoch) :
    r.RankedBy epoch s.proposers := by
  refine ⟨r.tuner.ranked (epoch - 2), List.perm_insertionSort .., h.pairwise_ranked hsums _, ?_⟩
  exact EpochTuner.derive_ranked_proposers hderive hlate

/-- Every schedule is a permutation of the members: in turn in the first epochs, and later ranked by
what was known when it was derived. The comparison behind it is a consistent order, whatever the
statistics are that a tuner comes to or is restored with. -/
theorem leaders_are_ranked (epochSize : Nat) (members : Voters) (calls : List TunerCall)
    (hsums : ∀ epoch, ((run step (new epochSize members) calls).stepsIn epoch).sum < 2 ^ 64) :
    let r := run step (new epochSize members) calls
    let n := r.tuner.members.length
    (∀ epoch s, result (EpochTuner.ensureSchedule epoch) r.tuner = .ok s →
      s.proposers.Perm r.tuner.members ∧
      (epoch < 2 * n + 1 → ∃ leader, s.leader = .ok leader ∧ r.tuner.members[epoch % n]? = some leader) ∧
      (2 * n + 1 ≤ epoch → ∃ before since, calls = before ++ since ∧ (∀ call ∈ since, call.changesMembers = false) ∧
        let past := run step (new epochSize members) before
        past.tuner.members = r.tuner.members ∧ past.tuner.schedules.get epoch = none ∧ past.tuner.derive epoch = .ok s ∧
        past.RankedBy epoch s.proposers)) ∧
    (∀ windowEnd left right a b, (r.tuner.totals windowEnd).get left = some a →
      (r.tuner.totals windowEnd).get right = some b →
      a.2 < 2 ^ 64 → a.2 * b.1 < 2 ^ 128) ∧
    r.tuner.Consistent ∧
    ∀ epochSize members auto schedules stats through t,
      EpochTuner.restore epochSize members auto schedules stats through = .ok t →
      ∀ calls, (run step ⟨t, []⟩ calls).tuner.Consistent := by
  intro r n
  have hexact : r.Exact := (exact_new epochSize members).run calls
  have hsums' : ∀ epoch, (r.stepsIn epoch).sum ≤ u64Max := fun epoch => Nat.le_sub_one_of_lt (hsums epoch)
  refine ⟨fun epoch s hok => ?_, fun windowEnd left right a b _ hright => hexact.product_fits hsums' hright,
    hexact.sampled.consistent, fun epochSize members auto schedules stats through t hrestore calls =>
      (sampled_run (r := ⟨t, []⟩) (sampled_restore hrestore) calls).consistent⟩
  obtain ⟨before, since, hcalls, hsince, hnone, hderive⟩ := derivedIn_of_ok hok
  have hpast : (run step (new epochSize members) before).Exact := (exact_new epochSize members).run before
  have hcontinues : (run step (new epochSize members) before).Continues r := by
    have hrun := hpast.continues hsince
    rwa [← run_append, ← hcalls] at hrun
  have hmembers := hcontinues.members.symm
  have hn : (run step (new epochSize members) before).tuner.members.length = n := congrArg List.length hmembers
  refine ⟨?_, fun hwarm => ?_, fun hlate => ⟨before, since, hcalls, hsince, hmembers, hnone, hderive, ?_⟩⟩
  · rw [← hmembers]
    exact perm_of_fits hpast.members.2 (EpochTuner.derive_fits hderive)
  · rw [← hn] at hwarm
    have hproposers := EpochTuner.derive_warmup_proposers hderive hwarm
    rw [hmembers] at hproposers
    exact leader_rotated hexact.members.1 hproposers
  · rw [← hn] at hlate
    exact hpast.rankedBy (fun epoch => (hcontinues.sum_le epoch).trans (hsums' epoch)) hderive hlate

def fasterSecond : List TunerCall := [.noteCommitted 1 4, .noteCommitted 2 8, .noteCommitted 3 4, .noteCommitted 4 8]

/-- The first epoch after the warm-up of two members. -/
theorem leaders_are_ranked_after_warmup :
    let r := run step (new 1 ⟨[1, 2], by decide⟩) fasterSecond
    result (EpochTuner.ensureSchedule 5) r.tuner = .ok ⟨5, [2, 1]⟩ ∧ [2, 1].Perm r.tuner.members ∧
      ∃ past : LoggedTuner, past.tuner.members = r.tuner.members ∧ past.RankedBy 5 [2, 1] := by
  intro r
  have hschedule : result (EpochTuner.ensureSchedule 5) r.tuner = .ok ⟨5, [2, 1]⟩ := by decide +kernel
  have hsums : ∀ epoch, (r.stepsIn epoch).sum < 2 ^ 64 := by
    intro epoch
    have hle : (r.stepsIn epoch).sum ≤ (r.log.map (·.decidedStep)).sum :=
      (List.filter_sublist.map _).sum_le_sum fun _ _ => Nat.zero_le _
    exact hle.trans_lt (by decide +kernel)
  obtain ⟨hperm, _, hranked⟩ := (leaders_are_ranked 1 ⟨[1, 2], by decide⟩ fasterSecond hsums).1 5 _ hschedule
  obtain ⟨before, _, _, _, hmembers, _, _, hby⟩ := hranked (by decide +kernel)
  exact ⟨hschedule, hperm, _, hmembers, hby⟩

end LoggedTuner
end QuePaxa
