import QuePaxa.Library.Percentiles
import QuePaxa.Runtime.Ranking
import QuePaxa.Runtime.Restart
import QuePaxa.Runtime.ScheduleReach

/-! The hedging policies, and the schedules made from them for a runtime to install. -/
namespace QuePaxa
open Library
variable {V : Type}
variable {replicas : List ReplicaId}

def validateReplicas (replicas : List ReplicaId) : Result Unit :=
  if replicas = [] then .error .emptyCluster
  else match duplicateOf replicas with
    | some duplicate => .error (.duplicateReplica duplicate)
    | none => .ok ()

structure RoundRobinPolicy where
  epochSize : Nat
  positive : 0 < epochSize

def RoundRobinPolicy.new (epochSize : Nat) : RoundRobinPolicy := ⟨max epochSize 1, by omega⟩

/-- No list of samples is empty: one is only made to hold a sample, and the window keeps at least one. -/
structure AdaptivePolicy where
  epochSize : Nat
  samples : OrderedMap ReplicaId (List Duration)
  sampleWindow : Nat
  reexploreEveryEpochs : Nat
  positive : 0 < epochSize ∧ 0 < sampleWindow ∧ 0 < reexploreEveryEpochs
  sampled : ∀ replica, samples.get replica ≠ some []

namespace AdaptivePolicy

def new (epochSize : Nat) : AdaptivePolicy := ⟨max epochSize 1, ∅, 16, 32, by omega, fun _ => nofun⟩

def withSampleWindow (p : AdaptivePolicy) (epochsPerLeader : Nat) : AdaptivePolicy :=
  { p with sampleWindow := max epochsPerLeader 1, positive := ⟨p.positive.1, by omega, p.positive.2.2⟩ }

def withReexplorationInterval (p : AdaptivePolicy) (epochs : Nat) : AdaptivePolicy :=
  { p with reexploreEveryEpochs := max epochs 1, positive := ⟨p.positive.1, p.positive.2.1, by omega⟩ }

def recordEpoch (p : AdaptivePolicy) (leader : ReplicaId) (duration : Duration) : AdaptivePolicy :=
  { p with
    samples := p.samples.insert leader (lastOf p.sampleWindow ((p.samples.get leader).getD [] ++ [duration]))
    sampled := by
      intro replica
      rw [OrderedMap.get_insert]
      split_ifs
      · exact fun h => lastOf_ne_nil p.positive.2.1 (by simp) (Option.some.inj h)
      · exact p.sampled replica }

/-- The mean in nanoseconds is cast to 64 bits. -/
def averageDuration (p : AdaptivePolicy) (replica : ReplicaId) : Option Duration :=
  (p.samples.get replica).map fun samples => samples.sum / samples.length % 2 ^ 64

/-- A member without samples ranks as if its epochs lasted `u64::MAX / 2` seconds. -/
def ranked (p : AdaptivePolicy) (replicas : List ReplicaId) : List ReplicaId :=
  let key (replica : ReplicaId) : Nat ×ₗ Nat := toLex ((p.averageDuration replica).getD (u64Max / 2 * 1000000000),
    replica)
  replicas.insertionSort fun left right => key left ≤ key right

def sequence (p : AdaptivePolicy) (slot : SlotIndex) (replicas : List ReplicaId) : List ReplicaId :=
  let epoch := slot / p.epochSize
  let warmupEpochs := 2 * replicas.length + 1
  if epoch < warmupEpochs then rotated replicas (epoch % replicas.length)
  else
    let ranked := p.ranked replicas
    let exploitationEpoch := epoch - warmupEpochs
    if 0 < exploitationEpoch ∧ exploitationEpoch % p.reexploreEveryEpochs = 0 then
      let candidate := replicas.getD (exploitationEpoch / p.reexploreEveryEpochs % replicas.length) 0
      candidate :: ranked.erase candidate
    else ranked

end AdaptivePolicy

inductive HedgingPolicy where
  | fixedLeader
  | roundRobin (policy : RoundRobinPolicy)
  | leaderless
  | lastWinner
  | adaptive (policy : AdaptivePolicy)

namespace HedgingPolicy

def leaderSequence (policy : HedgingPolicy) (slot : SlotIndex) (replicas : List ReplicaId)
    (previousWinner : Option ReplicaId) :
    Result (List ReplicaId) := do
  validateReplicas replicas
  match policy, previousWinner with
  | .fixedLeader, _ | .leaderless, _ | .lastWinner, none => pure replicas
  | .roundRobin p, _ => pure (rotated replicas (slot / p.epochSize % replicas.length))
  | .lastWinner, some winner =>
    if winner ∈ replicas then pure (rotated replicas (replicas.idxOf winner)) else throw (.unknownReplica winner)
  | .adaptive p, _ => pure (p.sequence slot replicas)

/-- A multiple of the base delay by the position in the sequence, which is cast to 32 bits. -/
def delayFor (policy : HedgingPolicy) (replica : ReplicaId) (sequence : List ReplicaId) (baseDelay : Duration) :
    Result Duration := do
  require (replica ∈ sequence) (.unknownReplica replica)
  match policy with
  | .leaderless => pure 0
  | _ => do
    let delay := baseDelay * (sequence.idxOf replica % 2 ^ 32)
    require (delay ≤ Duration.max) (.panicked "overflow when multiplying duration by scalar")
    pure delay

end HedgingPolicy

def EpochSchedule.fromPolicy (config : ReplicaRuntimeConfig) (epoch : Nat) (policy : HedgingPolicy)
    (previousWinner : Option ReplicaId) : Result EpochSchedule := do
  require (epoch * config.epochSize ≤ u64Max) .slotOverflow
  let sequence ← policy.leaderSequence (epoch * config.epochSize) config.members previousWinner
  EpochSchedule.new epoch sequence

def ReplicaRuntime.installPolicyEpoch (env : Environment V) (epoch : Nat) (policy : HedgingPolicy)
    (previousWinner : Option ReplicaId) : EStateM QuePaxaError (ReplicaRuntime V) EpochSchedule := do
  let r ← get
  let schedule ← check (EpochSchedule.fromPolicy r.config epoch policy previousWinner)
  installEpochSchedule env schedule
  pure schedule

/-! ### Every sequence orders the members -/

theorem perm_rotated (replicas : List ReplicaId) (offset : Nat) : (rotated replicas offset).Perm replicas := by
  calc
    (rotated replicas offset).Perm (replicas.take offset ++ replicas.drop offset) := List.perm_append_comm
    _ = replicas := List.take_append_drop ..

theorem validateReplicas_ok (hne : replicas ≠ []) (hnodup : replicas.Nodup) :
    validateReplicas replicas = .ok () := by
  simp only [validateReplicas, if_neg hne, duplicateOf_eq_none.mpr hnodup]

namespace AdaptivePolicy

theorem perm_sequence (p : AdaptivePolicy) (slot : SlotIndex) (hne : replicas ≠ []) :
    (p.sequence slot replicas).Perm replicas := by
  have hranked : (p.ranked replicas).Perm replicas := List.perm_insertionSort ..
  simp only [sequence]
  split_ifs with hwarm hexplore
  · exact perm_rotated ..
  · have hlt := Nat.mod_lt ((slot / p.epochSize - (2 * replicas.length + 1)) / p.reexploreEveryEpochs)
      (List.length_pos_iff.mpr hne)
    rw [List.getD_eq_getElem _ _ hlt]
    exact (List.perm_cons_erase (hranked.mem_iff.mpr (List.getElem_mem hlt))).symm.trans hranked
  · exact hranked

end AdaptivePolicy

namespace HedgingPolicy

/-- Only the last winner can be refused, when it is not a member. -/
theorem leaderSequence_cases (policy : HedgingPolicy) (slot : SlotIndex) (previousWinner : Option ReplicaId)
    (hne : replicas ≠ []) (hnodup : replicas.Nodup) :
    (∃ winner, policy = .lastWinner ∧ previousWinner = some winner ∧ winner ∉ replicas ∧
      policy.leaderSequence slot replicas previousWinner = .error (.unknownReplica winner)) ∨
    ∃ sequence, policy.leaderSequence slot replicas previousWinner = .ok sequence ∧ sequence.Perm replicas := by
  have hvalid := validateReplicas_ok hne hnodup
  cases policy with
  | fixedLeader => exact .inr ⟨replicas, by simp only [leaderSequence, hvalid]; rfl, .refl _⟩
  | leaderless => exact .inr ⟨replicas, by simp only [leaderSequence, hvalid]; rfl, .refl _⟩
  | roundRobin p => exact .inr ⟨_, by simp only [leaderSequence, hvalid]; rfl, perm_rotated ..⟩
  | adaptive p => exact .inr ⟨_, by simp only [leaderSequence, hvalid]; rfl, p.perm_sequence slot hne⟩
  | lastWinner =>
    cases previousWinner with
    | none => exact .inr ⟨replicas, by simp only [leaderSequence, hvalid]; rfl, .refl _⟩
    | some winner =>
      by_cases hmem : winner ∈ replicas
      · exact .inr ⟨_, by simp only [leaderSequence, hvalid, if_pos hmem]; rfl, perm_rotated ..⟩
      · exact .inl ⟨winner, rfl, rfl, hmem, by simp only [leaderSequence, hvalid, if_neg hmem]; rfl⟩

/-- The deadline a runtime computes for itself is the delay of the policy, which the runtime never asks for it. -/
theorem delayFor_of_deadlineFor {policy : HedgingPolicy} (hpolicy : policy ≠ .leaderless) {r : ReplicaRuntime V}
    {schedule : EpochSchedule} {now deadline : Instant} (h : r.deadlineFor schedule now = .ok deadline) :
    ∃ delay, policy.delayFor r.config.replicaId schedule.proposers r.hedgeDelay.current = .ok delay ∧
      deadline = now + delay := by
  simp only [ReplicaRuntime.deadlineFor] at h
  split at h
  · cases h
  · rename_i position hposition
    simp only [unit_bind_eq_ok, require_eq_ok] at h
    obtain ⟨hsmall, hdelay, -, hdeadline⟩ := h
    have hmem : r.config.replicaId ∈ schedule.proposers := by
      obtain ⟨hlt, hget, -⟩ := List.idxOf?_eq_some_iff.mp hposition
      exact hget ▸ List.getElem_mem hlt
    obtain rfl : position = schedule.proposers.idxOf r.config.replicaId := by
      rw [List.idxOf_eq_getD_idxOf?, hposition, Option.getD_some]
    refine ⟨_, ?_, (Except.ok.inj hdeadline).symm⟩
    cases policy with
    | leaderless => exact absurd rfl hpolicy
    | _ => simp only [delayFor, unit_bind_eq_ok, require_eq_ok, Nat.mod_eq_of_lt hsmall]; exact ⟨hmem, hdelay, rfl⟩

end HedgingPolicy

namespace EpochSchedule
variable {config : ReplicaRuntimeConfig} {policy : HedgingPolicy} {previousWinner : Option ReplicaId} {epoch : Nat}

theorem fromPolicy_eq (hbound : epoch * config.epochSize ≤ u64Max) {sequence : List ReplicaId}
    (h : policy.leaderSequence (epoch * config.epochSize) config.members previousWinner = .ok sequence) :
    fromPolicy config epoch policy previousWinner = EpochSchedule.new epoch sequence := by
  simp only [fromPolicy, require, if_pos hbound, h]
  rfl

def Leads (config : ReplicaRuntimeConfig) (policy : HedgingPolicy) (previousWinner : Option ReplicaId) (epoch : Nat)
    (replica : ReplicaId) : Prop :=
  ∃ schedule, fromPolicy config epoch policy previousWinner = .ok schedule ∧ schedule.leader = .ok replica

private theorem leads_of_head {sequence : List ReplicaId} {replica : ReplicaId}
    (hbound : epoch * config.epochSize ≤ u64Max)
    (h : policy.leaderSequence (epoch * config.epochSize) config.members previousWinner = .ok sequence)
    (hnodup : sequence.Nodup) (hhead : sequence.head? = some replica) :
    Leads config policy previousWinner epoch replica := by
  obtain ⟨rest, rfl⟩ := List.head?_eq_some_iff.mp hhead
  exact ⟨⟨epoch, replica :: rest⟩, by rw [fromPolicy_eq hbound h, new_ok (List.cons_ne_nil _ _) hnodup], rfl⟩

end EpochSchedule

private theorem head?_rotated {offset : Nat} (h : offset < replicas.length) :
    (rotated replicas offset).head? = replicas[offset]? := by
  rw [rotated, List.drop_eq_getElem_cons h, List.getElem?_eq_getElem h]
  rfl

/-- Every residue is met in every `n` consecutive numbers. -/
theorem exists_residue {n k : Nat} (hk : k < n) (start : Nat) : ∃ m, start ≤ m ∧ m < start + n ∧ m % n = k := by
  have hmod := Nat.mod_lt start (Nat.zero_lt_of_lt hk)
  have hdiv := Nat.div_add_mod start n
  by_cases hle : start % n ≤ k
  · refine ⟨n * (start / n) + k, by omega, by omega, ?_⟩
    rw [Nat.mul_add_mod, Nat.mod_eq_of_lt hk]
  · refine ⟨n * (start / n + 1) + k, by rw [Nat.mul_succ]; omega, by rw [Nat.mul_succ]; omega, ?_⟩
    rw [Nat.mul_add_mod, Nat.mod_eq_of_lt hk]

/-- A turn of re-exploration with a given residue comes up within `n` intervals, and within `n` more
epochs if the warm-up is not over. -/
theorem exists_turn {n k interval start : Nat} (hk : k < n) (hpos : 0 < interval) (hlate : 2 * n + 1 < start + n) :
    ∃ turn, 0 < turn ∧ turn % n = k ∧ start ≤ 2 * n + 1 + turn * interval ∧
      2 * n + 1 + turn * interval < start + n * (interval + 1) := by
  -- the first turn that is not before the start
  obtain ⟨first, hfirst, hreached, hnear⟩ : ∃ first, 0 < first ∧ start ≤ 2 * n + 1 + first * interval ∧
      2 * n + 1 + first * interval < start + n + interval := by
    by_cases hbefore : start ≤ 2 * n + 1
    · exact ⟨1, Nat.one_pos, by omega, by omega⟩
    · obtain ⟨past, rfl⟩ := Nat.exists_eq_add_of_lt (not_le.mp hbefore)
      have hdiv := Nat.div_add_mod past interval
      have hmod := Nat.mod_lt past hpos
      rw [Nat.mul_comm] at hdiv
      have hnext : (past / interval + 1) * interval = past / interval * interval + interval := Nat.add_one_mul ..
      exact ⟨past / interval + 1, Nat.succ_pos _, by omega, by omega⟩
  obtain ⟨turn, hfrom, hlt, hmod⟩ := exists_residue hk first
  have hle : first * interval ≤ turn * interval := Nat.mul_le_mul_right _ hfrom
  have hwithin : (turn + 1) * interval ≤ (first + n) * interval := Nat.mul_le_mul_right _ hlt
  rw [Nat.succ_mul, Nat.add_mul] at hwithin
  exact ⟨turn, hfirst.trans_le hfrom, hmod, by omega, by rw [Nat.mul_succ]; omega⟩

namespace ReplicaRuntime
variable {r : ReplicaRuntime V}

private theorem installEpochSchedule_free (env : Environment V) {schedule : EpochSchedule} {epoch : Nat}
    (hfits : schedule.Fits r.config.members epoch) (hmanual : r.tuner.auto = false)
    (hfree : r.tuner.schedules.get epoch = none) :
    installEpochSchedule env schedule r =
      persist env { r with tuner := { r.tuner with schedules := r.tuner.schedules.insert epoch schedule } } := by
  obtain rfl := hfits.epoch
  have hvalid : r.validateSchedule schedule = .ok () := by
    simp only [validateSchedule, unit_bind_eq_ok, require_eq_ok]
    exact ⟨hfits.nodup, hfits.members⟩
  have hinstall : EpochTuner.install schedule r.tuner =
      .ok true { r.tuner with schedules := r.tuner.schedules.insert schedule.epoch schedule } := by
    simp only [EpochTuner.install, bind_apply, get_apply, hmanual, hfree]
    rfl
  simp only [installEpochSchedule, bind_apply, get_apply, hvalid, check_ok, onTuner, zoom, hinstall, onlyIf, if_true]

private theorem installPolicyEpoch_error (env : Environment V) {epoch : Nat} {policy : HedgingPolicy}
    {previousWinner : Option ReplicaId}
    {e : QuePaxaError} (h : EpochSchedule.fromPolicy r.config epoch policy previousWinner = .error e) :
    installPolicyEpoch env epoch policy previousWinner r = .error e r := by
  simp only [installPolicyEpoch, bind_apply, get_apply, h, check_error]

/-- A policy never makes a schedule that a runtime with manual schedules refuses for a free epoch. What
fails is the multiplication of the epoch, a last winner that is not a member, or the store. -/
theorem policy_epochs_install (env : Environment V) (policy : HedgingPolicy) (epoch : Nat)
    (previousWinner : Option ReplicaId)
    (hne : r.config.members ≠ []) (hnodup : r.config.members.Nodup) (hmanual : r.tuner.auto = false)
    (hfree : r.tuner.schedules.get epoch = none) :
    (u64Max < epoch * r.config.epochSize ∧
      installPolicyEpoch env epoch policy previousWinner r = .error .slotOverflow r) ∨
    (∃ winner, policy = .lastWinner ∧ previousWinner = some winner ∧ winner ∉ r.config.members ∧
      installPolicyEpoch env epoch policy previousWinner r = .error (.unknownReplica winner) r) ∨
    ∃ schedule : EpochSchedule, schedule.epoch = epoch ∧ schedule.proposers.Perm r.config.members ∧
      installPolicyEpoch env epoch policy previousWinner r = (do persist env; pure schedule)
        { r with tuner := { r.tuner with schedules := r.tuner.schedules.insert epoch schedule } } ∧
      (policy ≠ .leaderless → ∀ (later : ReplicaRuntime V) (now deadline : Instant),
        later.deadlineFor schedule now = .ok deadline →
        ∃ delay, policy.delayFor later.config.replicaId schedule.proposers later.hedgeDelay.current = .ok delay ∧
          deadline = now + delay) := by
  by_cases hbound : epoch * r.config.epochSize ≤ u64Max
  · right
    rcases policy.leaderSequence_cases (epoch * r.config.epochSize) previousWinner hne hnodup with
      ⟨winner, hpolicy, hwinner, hmem, herror⟩ | ⟨sequence, hsequence, hperm⟩
    · have hfail : EpochSchedule.fromPolicy r.config epoch policy previousWinner = .error (.unknownReplica winner) := by
        simp only [EpochSchedule.fromPolicy, require, if_pos hbound, herror]
        rfl
      exact .inl ⟨winner, hpolicy, hwinner, hmem, installPolicyEpoch_error env hfail⟩
    · have hmade : EpochSchedule.fromPolicy r.config epoch policy previousWinner = .ok ⟨epoch, sequence⟩ := by
        rw [EpochSchedule.fromPolicy_eq hbound hsequence,
          EpochSchedule.new_ok (fun hnil => hne (List.nil_perm.mp (hnil ▸ hperm))) (hperm.nodup_iff.mpr hnodup)]
      have hfits : (⟨epoch, sequence⟩ : EpochSchedule).Fits r.config.members epoch :=
        ⟨rfl, hperm.nodup_iff.mpr hnodup, List.toFinset_eq_of_perm _ _ hperm⟩
      refine .inr ⟨⟨epoch, sequence⟩, rfl, hperm, ?_,
        fun hpolicy later now deadline => HedgingPolicy.delayFor_of_deadlineFor hpolicy⟩
      simp only [installPolicyEpoch, bind_apply, get_apply, hmade, check_ok, installEpochSchedule_free env hfits hmanual
        hfree]
  · have hfail : EpochSchedule.fromPolicy r.config epoch policy previousWinner = .error .slotOverflow := by
      simp only [EpochSchedule.fromPolicy, require, if_neg hbound]
      rfl
    exact .inl ⟨not_le.mp hbound, installPolicyEpoch_error env hfail⟩

def manualTwo : ReplicaRuntime Nat :=
  { bootedTwo with config := { replicaTwo with autoSchedules := false }, tuner := EpochTuner.new 100 [1, 2, 3] false }

theorem policy_epochs_install_winner :
    ∃ schedule : EpochSchedule, schedule.epoch = 2 ∧ schedule.proposers.Perm [1, 2, 3] ∧
      installPolicyEpoch .obliging 2 .lastWinner (some 3) manualTwo = (do persist .obliging; pure schedule)
        { manualTwo with
          tuner := { manualTwo.tuner with schedules := manualTwo.tuner.schedules.insert 2 schedule } } := by
  rcases policy_epochs_install (r := manualTwo) .obliging .lastWinner 2 (some 3) (by decide) (by decide) rfl rfl with
    ⟨hover, -⟩ | ⟨winner, -, hwinner, hmem, -⟩ | ⟨schedule, hepoch, hperm, hinstall, -⟩
  · exact absurd hover (by decide)
  · cases hwinner
    exact absurd hmem (by decide)
  · exact ⟨schedule, hepoch, hperm, hinstall⟩

end ReplicaRuntime

/-! ### Who leads -/

section
variable {config : ReplicaRuntimeConfig} {previousWinner : Option ReplicaId} {epoch : Nat} {replica : ReplicaId}
variable {p : AdaptivePolicy}

private theorem AdaptivePolicy.leads (hne : config.members ≠ []) (hnodup : config.members.Nodup)
    (hbound : epoch * config.epochSize ≤ u64Max)
    (hhead : (p.sequence (epoch * config.epochSize) config.members).head? = some replica) :
    EpochSchedule.Leads config (.adaptive p) previousWinner epoch replica := by
  have hdistinct := (p.perm_sequence (epoch * config.epochSize) hne).nodup_iff.mpr hnodup
  refine EpochSchedule.leads_of_head hbound ?_ hdistinct hhead
  simp only [HedgingPolicy.leaderSequence, validateReplicas_ok hne hnodup]
  rfl

private theorem AdaptivePolicy.head?_warmup (hsize : p.epochSize = config.epochSize) (hne : config.members ≠ [])
    (hwarm : epoch < 2 * config.members.length + 1) :
    (p.sequence (epoch * config.epochSize) config.members).head? = config.members[epoch % config.members.length]? := by
  have hdiv : epoch * config.epochSize / p.epochSize = epoch := by rw [← hsize, Nat.mul_div_cancel _ p.positive.1]
  simp only [sequence, hdiv, if_pos hwarm]
  exact head?_rotated (Nat.mod_lt _ (List.length_pos_iff.mpr hne))

private theorem AdaptivePolicy.head?_reexplored {turn : Nat} (hsize : p.epochSize = config.epochSize) (hpos : 0 < turn)
    (hepoch : epoch = 2 * config.members.length + 1 + turn * p.reexploreEveryEpochs)
    (hturn : config.members[turn % config.members.length]? = some replica) :
    (p.sequence (epoch * config.epochSize) config.members).head? = some replica := by
  have hdiv : epoch * config.epochSize / p.epochSize = epoch := by rw [← hsize, Nat.mul_div_cancel _ p.positive.1]
  have hexploit : epoch - (2 * config.members.length + 1) = turn * p.reexploreEveryEpochs := by
    rw [hepoch, Nat.add_sub_cancel_left]
  have hcandidate : config.members.getD (turn % config.members.length) 0 = replica := by
    rw [List.getD_eq_getElem?_getD, hturn, Option.getD_some]
  simp only [sequence, hdiv, hexploit, Nat.mul_mod_left, Nat.mul_div_cancel _ p.positive.2.2, hcandidate, and_true,
    if_pos (Nat.mul_pos hpos p.positive.2.2)]
  rw [if_neg (hepoch ▸ (Nat.le_add_right ..).not_gt), List.head?_cons]

/-- Whatever epoch durations are recorded between the epochs, every member is put first within any
`n * (R + 1)` consecutive epochs, for `n` members and a re-exploration interval of `R`. -/
theorem adaptive_policy_starves_no_member (config : ReplicaRuntimeConfig) (policies : Nat → AdaptivePolicy)
    (winners : Nat → Option ReplicaId)
    (interval start : Nat) (hsize : ∀ epoch, (policies epoch).epochSize = config.epochSize)
    (hinterval : ∀ epoch, (policies epoch).reexploreEveryEpochs = interval) (hnodup : config.members.Nodup)
    (hbound : (start + config.members.length * (interval + 1)) * config.epochSize ≤ u64Max)
    (hmem : replica ∈ config.members) :
    ∃ epoch, start ≤ epoch ∧ epoch < start + config.members.length * (interval + 1) ∧
      EpochSchedule.Leads config (.adaptive (policies epoch)) (winners epoch) epoch replica := by
  have hne : config.members ≠ [] := List.ne_nil_of_mem hmem
  have hpos : 0 < interval := hinterval 0 ▸ (policies 0).positive.2.2
  obtain ⟨k, hk, hget⟩ := List.getElem?_of_mem hmem |>.imp fun k hget => And.intro (List.getElem?_eq_some_iff.mp hget).1
    hget
  have hslot : ∀ {epoch}, epoch < start + config.members.length * (interval + 1) → epoch * config.epochSize ≤ u64Max :=
    fun hlt => (Nat.mul_le_mul_right _ hlt.le).trans hbound
  by_cases hwarm : start + config.members.length ≤ 2 * config.members.length + 1
  · -- a whole rotation is left of the warm-up
    obtain ⟨epoch, hfrom, hlt, rfl⟩ := exists_residue hk start
    have hwindow : epoch < start + config.members.length * (interval + 1) := by
      rw [Nat.mul_succ]
      omega
    refine ⟨epoch, hfrom, hwindow, AdaptivePolicy.leads hne hnodup (hslot hwindow) ?_⟩
    rw [AdaptivePolicy.head?_warmup (hsize epoch) hne (by omega), hget]
  · obtain ⟨turn, hturn, rfl, hfrom, hlt⟩ := exists_turn hk hpos (not_le.mp hwarm)
    refine ⟨_, hfrom, hlt, AdaptivePolicy.leads hne hnodup (hslot hlt) ?_⟩
    exact AdaptivePolicy.head?_reexplored (hsize _) hturn (by rw [hinterval]) hget

theorem adaptive_policy_starves_no_member_slowest :
    ∃ epoch, 1000 ≤ epoch ∧ epoch < 1000 + 3 * 33 ∧
      EpochSchedule.Leads ReplicaRuntime.replicaTwo (.adaptive ((AdaptivePolicy.new 100).recordEpoch 3 (10 ^ 12))) none
        epoch 3 :=
  adaptive_policy_starves_no_member ReplicaRuntime.replicaTwo
    (fun _ => (AdaptivePolicy.new 100).recordEpoch 3 (10 ^ 12)) (fun _ => none) 32 1000 (fun _ => rfl) (fun _ => rfl)
    (by decide) (by decide) (by decide)

end
end QuePaxa
