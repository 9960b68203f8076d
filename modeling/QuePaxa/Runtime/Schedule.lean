import QuePaxa.Core.Membership
import QuePaxa.Core.Replica

/-! Runtime configuration, agreed or derived epoch schedules, and the hedging delay.
Durations and instants are counts of nanoseconds. -/
namespace QuePaxa
open Library

abbrev Duration := Nat
abbrev Instant := Nat

/-- The largest duration: 64-bit seconds and a fraction below one second. -/
def Duration.max : Duration := u64Max * 1000000000 + 999999999

/-- The largest instant of a clock with 63-bit seconds. -/
def Instant.max : Instant := (2 ^ 63 - 1) * 1000000000 + 999999999

structure ProtocolIdentity where
  epochSize : Nat
  autoSchedules : Bool
  deriving DecidableEq, Repr

structure AdaptiveHedgingConfig where
  minDelay : Duration
  maxDelay : Duration
  sampleWindow : Nat
  percentile : Nat
  deriving DecidableEq, Repr

namespace AdaptiveHedgingConfig

def new (minDelay maxDelay : Duration) : Result AdaptiveHedgingConfig := do
  require (minDelay ≤ maxDelay) (.policyError "adaptive hedge minimum exceeds its maximum")
  pure ⟨minDelay, maxDelay, 64, 90⟩

def withWindow (config : AdaptiveHedgingConfig) (sampleWindow : Nat) : Result AdaptiveHedgingConfig := do
  require (sampleWindow ≠ 0) (.policyError "adaptive hedge sample window must be non-zero")
  pure { config with sampleWindow }

def withPercentile (config : AdaptiveHedgingConfig) (percentile : Nat) : Result AdaptiveHedgingConfig := do
  require (1 ≤ percentile ∧ percentile ≤ 100) (.policyError "adaptive hedge percentile must be between 1 and 100")
  pure { config with percentile }

def clamp (config : AdaptiveHedgingConfig) (delay : Duration) : Duration :=
  max config.minDelay (min delay config.maxDelay)

end AdaptiveHedgingConfig

structure HedgeDelayTuner where
  current : Duration
  config : Option AdaptiveHedgingConfig
  samples : List Duration
  deriving DecidableEq, Repr

namespace HedgeDelayTuner

def new (baseDelay : Duration) (config : Option AdaptiveHedgingConfig) : HedgeDelayTuner where
  current := (config.map (·.clamp baseDelay)).getD baseDelay
  config
  samples := []

def observe (tuner : HedgeDelayTuner) (elapsed : Duration) : HedgeDelayTuner :=
  match tuner.config with
  | none => tuner
  | some config =>
    let samples := tuner.samples ++ [elapsed]
    let samples := samples.drop (samples.length - config.sampleWindow)
    let ordered := samples.insertionSort (· ≤ ·)
    let index := min ((ordered.length * config.percentile + 99) / 100 - 1) (ordered.length - 1)
    { tuner with samples, current := config.clamp (ordered.getD index 0) }

end HedgeDelayTuner

structure ReplicaRuntimeConfig where
  replicaId : ReplicaId
  laneId : LaneId
  cluster : ClusterIdentity
  replica : ReplicaConfig
  epochSize : Nat
  baseHedgeDelay : Duration
  autoSchedules : Bool
  adaptiveHedging : Option AdaptiveHedgingConfig
  deriving DecidableEq, Repr

namespace ReplicaRuntimeConfig

def new (replicaId : ReplicaId) (laneId : LaneId) (members : List ReplicaId) (maxFaults : Nat)
    (replica : ReplicaConfig) (epochSize : Nat) (baseHedgeDelay : Duration) : Result ReplicaRuntimeConfig := do
  let cluster ← ClusterIdentity.new members maxFaults
  require (cluster.contains replicaId) (.unknownReplica replicaId)
  require (epochSize ≠ 0 ∧ replica.batchSize ≠ 0 ∧ replica.pipelineLen ≠ 0 ∧ replica.maxPendingValues ≠ 0 ∧
    replica.maxLogSlots ≠ 0 ∧ replica.maxTrackedValueIds ≠ 0)
    (.invalidProposal "runtime limits and epoch size must be non-zero")
  pure { replicaId, laneId, cluster, replica, epochSize, baseHedgeDelay, autoSchedules := false,
         adaptiveHedging := none }

def withAutoSchedules (config : ReplicaRuntimeConfig) : Result ReplicaRuntimeConfig := do
  require (config.replica.pipelineLen ≤ config.epochSize)
    (.policyError "auto schedules require epoch_size >= pipeline_len so ranking inputs are final")
  pure { config with autoSchedules := true }

def withAdaptiveHedging (config : ReplicaRuntimeConfig) (hedging : AdaptiveHedgingConfig) : ReplicaRuntimeConfig :=
  { config with adaptiveHedging := some hedging }

def members (config : ReplicaRuntimeConfig) : List ReplicaId := config.cluster.members

def installCluster (config : ReplicaRuntimeConfig) (cluster : ClusterIdentity) : ReplicaRuntimeConfig :=
  { config with cluster }

def protocolIdentity (config : ReplicaRuntimeConfig) : ProtocolIdentity := ⟨config.epochSize, config.autoSchedules⟩

def epochFor (config : ReplicaRuntimeConfig) (slot : SlotIndex) : Nat := slot / config.epochSize

end ReplicaRuntimeConfig

def duplicateOf (replicas : List ReplicaId) : Option ReplicaId := replicas.find? fun r => 1 < replicas.count r

structure EpochSchedule where
  epoch : Nat
  proposers : List ReplicaId
  deriving DecidableEq, Repr

namespace EpochSchedule

def new (epoch : Nat) (proposers : List ReplicaId) : Result EpochSchedule :=
  if proposers = [] then .error .emptyCluster
  else match duplicateOf proposers with
    | some duplicate => .error (.duplicateReplica duplicate)
    | none => .ok ⟨epoch, proposers⟩

def leader (schedule : EpochSchedule) : Result ReplicaId :=
  match schedule.proposers with
  | leader :: _ => .ok leader
  | [] => .error (.panicked "index out of bounds")

end EpochSchedule

structure EpochStat where
  leader : ReplicaId
  slots : Nat
  decidedStepTotal : Nat
  deriving DecidableEq, Repr

def retainedStatEpochs : Nat := 64
def autoReexploreEpochs : Nat := 32

def rotated (replicas : List ReplicaId) (offset : Nat) : List ReplicaId :=
  replicas.drop offset ++ replicas.take offset

/-- Orders leaders by average decided step, by cross multiplication of the totals
`(slots, steps)`; a leader without samples comes after every sampled one. -/
def compareLeaderFitness : Option (Nat × Nat) → Option (Nat × Nat) → Ordering
  | some (slotsA, totalA), some (slotsB, totalB) => compare (totalA * slotsB) (totalB * slotsA)
  | some _, none => .lt
  | none, some _ => .gt
  | none, none => .eq

structure EpochTuner where
  epochSize : Nat
  members : List ReplicaId
  auto : Bool
  schedules : OrderedMap Nat EpochSchedule
  stats : OrderedMap Nat EpochStat
  statsThrough : SlotIndex
  deriving DecidableEq

namespace EpochTuner

def new (epochSize : Nat) (members : List ReplicaId) (auto : Bool) : EpochTuner where
  epochSize := max epochSize 1
  members
  auto
  schedules := ∅
  stats := ∅
  statsThrough := SlotIndex.genesis

def restore (epochSize : Nat) (members : List ReplicaId) (auto : Bool) (schedules : OrderedMap Nat EpochSchedule)
    (stats : OrderedMap Nat EpochStat) (statsThrough : SlotIndex) : Result EpochTuner := do
  let tuner := new epochSize members auto
  stats.entries.forM fun e =>
    require (e.2.leader ∈ tuner.members ∧ e.2.slots ≠ 0 ∧ e.1 ≤ statsThrough / tuner.epochSize)
      (.policyError "restored epoch statistics are inconsistent with the committed log")
  schedules.entries.forM fun e =>
    require (e.1 = e.2.epoch) (.policyError "restored epoch schedule key does not match its epoch")
  pure { tuner with schedules, stats, statsThrough }

def reconfigure (tuner : EpochTuner) (members : List ReplicaId) (committedThrough : SlotIndex) : EpochTuner :=
  { tuner with members, schedules := ∅, stats := ∅, statsThrough := committedThrough }

def install (schedule : EpochSchedule) : EStateM QuePaxaError EpochTuner Bool := do
  let tuner ← get
  if tuner.auto then throw (.policyError "auto-scheduled runtimes derive schedules from the committed log")
  else match tuner.schedules.get schedule.epoch with
    | some existing => do
      let epoch := schedule.epoch
      check (require (existing = schedule) (.policyError s!"epoch {epoch} already has a different agreed schedule"))
      pure false
    | none => do
      set { tuner with schedules := tuner.schedules.insert schedule.epoch schedule }
      pure true

def totals (tuner : EpochTuner) (windowEnd : Nat) : OrderedMap ReplicaId (Nat × Nat) :=
  (tuner.stats.entries.filter (·.1 ≤ windowEnd)).foldl (fun totals e =>
    let total := (totals.get e.2.leader).getD (0, 0)
    totals.insert e.2.leader (total.1 + e.2.slots, total.2 + e.2.decidedStepTotal)) ∅

def ranked (tuner : EpochTuner) (windowEnd : Nat) : List ReplicaId :=
  let totals := tuner.totals windowEnd
  tuner.members.insertionSort fun left right =>
    (compareLeaderFitness (totals.get left) (totals.get right)).then (compare left right) ≠ .gt

def derive (tuner : EpochTuner) (epoch : Nat) : Result EpochSchedule :=
  let replicaCount := tuner.members.length
  let warmupEpochs := 2 * replicaCount + 1
  if epoch < warmupEpochs then
    if replicaCount = 0 then .error (.panicked "attempt to calculate the remainder with a divisor of zero")
    else EpochSchedule.new epoch (rotated tuner.members (epoch % replicaCount))
  else if epoch < 2 then
    -- without overflow checks the window wraps around, and its successor is a slot overflow
    .error (.panicked "attempt to subtract with overflow")
  else
    let windowEnd := epoch - 2
    if u64Max < (windowEnd + 1) * tuner.epochSize then .error .slotOverflow
    else
      let required := (windowEnd + 1) * tuner.epochSize - 1
      if tuner.statsThrough < required then
        .error (.policyError s!"epoch {epoch} schedule requires committed history through slot {required}")
      else
        let ranked := tuner.ranked windowEnd
        let exploitationEpoch := epoch - warmupEpochs
        if 0 < exploitationEpoch ∧ exploitationEpoch % autoReexploreEpochs = 0 then
          if replicaCount = 0 then .error (.panicked "attempt to calculate the remainder with a divisor of zero")
          else
            let candidate := tuner.members.getD (exploitationEpoch / autoReexploreEpochs % replicaCount) 0
            EpochSchedule.new epoch (candidate :: ranked.erase candidate)
        else EpochSchedule.new epoch ranked

def ensureSchedule (epoch : Nat) : EStateM QuePaxaError EpochTuner EpochSchedule := do
  let tuner ← get
  match tuner.schedules.get epoch with
  | some schedule => pure schedule
  | none =>
    if !tuner.auto then throw (.policyError s!"no agreed schedule is installed for epoch {epoch}")
    else do
      let schedule ← check (tuner.derive epoch)
      set { tuner with schedules := tuner.schedules.insert epoch schedule }
      pure schedule

def counted (tuner : EpochTuner) (slot : SlotIndex) (leader : ReplicaId) (decidedStep : Step) : EpochTuner :=
  let epoch := slot / tuner.epochSize
  let stat := (tuner.stats.get epoch).getD ⟨leader, 0, 0⟩
  let stats := tuner.stats.insert epoch { stat with
    slots := min (stat.slots + 1) u64Max
    decidedStepTotal := min (stat.decidedStepTotal + decidedStep) u64Max }
  if retainedStatEpochs ≤ epoch then
    { tuner with
      stats := stats.retain fun kept _ => epoch - retainedStatEpochs ≤ kept
      schedules := tuner.schedules.retain fun kept _ => epoch - retainedStatEpochs ≤ kept
      statsThrough := slot }
  else { tuner with stats, statsThrough := slot }

def noteCommitted (slot : SlotIndex) (decidedStep : Step) : EStateM QuePaxaError EpochTuner Bool := do
  let tuner ← get
  if !tuner.auto || slot ≤ tuner.statsThrough then pure false
  else do
    check (require (some slot = tuner.statsThrough.checkedNext)
      (.policyError "epoch statistics must be recorded in contiguous slot order"))
    let schedule ← ensureSchedule (slot / tuner.epochSize)
    let leader ← check schedule.leader
    modify (·.counted slot leader decidedStep)
    pure true

end EpochTuner
end QuePaxa
