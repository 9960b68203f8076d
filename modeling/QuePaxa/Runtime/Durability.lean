import QuePaxa.Core.ReplicaCommit
import QuePaxa.Runtime.Deployment
import QuePaxa.Runtime.ScheduleSpec

/-! What an acknowledgement is worth. A call that saves after its change is durable when it
returns. A call that finds its change in memory returns without a save, and then memory has
to agree with the store: it does unless a save has failed since the last good one. -/
namespace QuePaxa
open Library
variable {V : Type}
variable {u : Unit} {d : Decision V}

/-- Whether the event leaves the store behind the memory; a start loads what is stored. -/
def Event.leavesBehind : Event V → Option Bool
  | .saved _ (.ok ()) => some false
  | .saved _ (.error _) => some true
  | .started => some false
  | _ => none

def storeBehind (trace : List (Event V)) : Bool := (latest Event.leavesBehind trace).getD false

/-- The store holds a snapshot, and no save has failed since. -/
def storeCurrent (trace : List (Event V)) : Bool := (lastSaved trace).isSome && !storeBehind trace

def RuntimeOp.Durable (op : RuntimeOp V) (stored : Option (RuntimeSnapshot V)) : Prop :=
  match op with
  | .submit valueIds => ∃ s, stored = some s ∧ ∀ v ∈ valueIds, v ∈ s.replica.seenValueIds
  | .installEpochSchedule schedule => ∃ s, stored = some s ∧ s.schedules.get schedule.epoch = some schedule
  | .receiveDecision d => ∃ s, stored = some s ∧
      ((∃ kept, s.decisions.get d.slot = some kept ∧ kept.valueIds = d.valueIds) ∨
        d.slot ≤ s.replica.checkpointedThrough)
  | .checkpointThrough slot => ∃ s, stored = some s ∧ slot ≤ s.replica.checkpointedThrough
  | .installMembership change _ => ∃ s, stored = some s ∧ s.cluster = change.next
  | _ => True

structure RuntimeSnapshot.Mirrors (s : RuntimeSnapshot V) (r : ReplicaRuntime V) : Prop where
  decisions : s.decisions = r.decisions
  schedules : s.schedules = r.tuner.schedules
  floor : s.replica.checkpointedThrough = r.replica.checkpointedThrough

namespace EpochTuner
variable {t : EpochTuner}

private theorem after_noteCommitted_manual (h : t.auto = false) (slot : SlotIndex) (step : Step) :
    after (noteCommitted slot step) t = t := by
  simp [after, noteCommitted, h]

private theorem after_ensureSchedule_manual (h : t.auto = false) (epoch : Nat) :
    after (ensureSchedule epoch) t = t := by
  simp only [after, ensureSchedule, bind_apply, get_apply]
  cases t.schedules.get epoch <;> simp [h]

end EpochTuner

namespace ReplicaRuntime

structure Manual (r : ReplicaRuntime V) : Prop where
  auto : r.tuner.auto = false
  config : r.config.autoSchedules = false
  cluster : ∀ s, lastSaved r.trace = some s → s.cluster = r.config.cluster

structure Backed (r : ReplicaRuntime V) : Prop extends r.Manual where
  mirrored : storeBehind r.trace = false → ∀ s, lastSaved r.trace = some s → s.Mirrors r

variable {r r' : ReplicaRuntime V}

theorem Manual.log (h : r.Manual) {e : Event V} (hstored : ∀ s, e.stored = some s → s.cluster = r.config.cluster) :
    (r.log e).Manual := by
  refine ⟨h.auto, h.config, fun s hs => ?_⟩
  simp only [ReplicaRuntime.log, lastSaved, latest_concat] at hs
  rcases Option.or_eq_some_iff.mp hs with hnew | ⟨_, hold⟩
  · exact hstored s hnew
  · exact h.cluster s hold

theorem Backed.log (h : r.Backed) {e : Event V} (hstored : e.stored = none) (hmark : e.leavesBehind = none) :
    (r.log e).Backed := by
  refine ⟨h.toManual.log (by simp [hstored]), fun hcurrent s hs => ?_⟩
  simp only [ReplicaRuntime.log, storeBehind, lastSaved, latest_concat, hstored, hmark, Option.none_or] at hcurrent hs
  have hmirrors := h.mirrored hcurrent s hs
  exact ⟨hmirrors.decisions, hmirrors.schedules, hmirrors.floor⟩

theorem Backed.same (h : r.Backed) (htrace : r'.trace = r.trace) (hconfig : r'.config = r.config)
    (htuner : r'.tuner = r.tuner)
    (hdecisions : r'.decisions = r.decisions)
    (hfloor : r'.replica.checkpointedThrough = r.replica.checkpointedThrough) :
    r'.Backed := by
  refine ⟨⟨htuner ▸ h.auto, hconfig ▸ h.config, ?_⟩, ?_⟩
  · rw [htrace, hconfig]
    exact h.cluster
  · rw [htrace]
    intro hcurrent s hs
    have hmirrors := h.mirrored hcurrent s hs
    exact ⟨hmirrors.decisions.trans hdecisions.symm, by
      rw [htuner]; exact hmirrors.schedules, hmirrors.floor.trans hfloor.symm⟩

theorem backed_saved (hauto : r.tuner.auto = false) (hconfig : r.config.autoSchedules = false) :
    (r.log (.saved r.runtimeSnapshot (.ok ()))).Backed := by
  have hlast : lastSaved (r.log (.saved r.runtimeSnapshot (.ok ()))).trace = some r.runtimeSnapshot := by
    simp [ReplicaRuntime.log, lastSaved, Event.stored]
  refine ⟨⟨hauto, hconfig, fun s hs => ?_⟩, fun _ s hs => ?_⟩
  · rw [hlast] at hs
    cases hs
    rfl
  · rw [hlast] at hs
    cases hs
    exact ⟨rfl, rfl, rfl⟩

theorem Manual.saveFailed (h : r.Manual) (snapshot : RuntimeSnapshot V) (e : QuePaxaError) :
    (r.log (.saved snapshot (.error e))).Backed := by
  refine ⟨h.log fun s hs => (by cases hs), fun hcurrent => ?_⟩
  simp [ReplicaRuntime.log, storeBehind, Event.leavesBehind] at hcurrent

theorem Manual.saved (h : r.Manual) (result : Result Unit) : (r.log (.saved r.runtimeSnapshot result)).Backed := by
  cases result with
  | ok u => exact backed_saved h.auto h.config
  | error e => exact h.saveFailed _ e

theorem Backed.quiet {env : Environment V} (h : r.Backed) (hq : Quiet env r r') : r'.Backed := by
  cases hq with
  | saved => exact h.toManual.saved _
  | counted =>
    rw [EpochTuner.after_noteCommitted_manual h.auto]
    exact h
  | scheduled =>
    rw [EpochTuner.after_ensureSchedule_manual h.auto]
    exact h
  | informed | executeFailed | notifyFailed | probed | proposed | installing => exact h.log rfl rfl
  | acknowledged | executed | notified => exact Backed.same (h.log rfl rfl) rfl rfl rfl rfl rfl
  | timed | observed => exact h.same rfl rfl rfl rfl rfl

theorem triple_persist (env : Environment V) : Triple Manual (persist env) (fun _ => Backed)
    fun _ => Backed (V := V) := by
  intro r hr
  have hsaved := hr.saved (env.save r.trace r.runtimeSnapshot)
  rw [persist_eq]
  cases hresult : env.save r.trace r.runtimeSnapshot with
  | ok u =>
    rw [hresult] at hsaved
    exact hsaved
  | error e =>
    rw [hresult] at hsaved
    exact hsaved

theorem Backed.of_current (h : r.Backed) (hcurrent : storeCurrent r.trace = true) :
    ∃ s, lastSaved r.trace = some s ∧ s.Mirrors r := by
  obtain ⟨hsome, hbehind⟩ := Bool.and_eq_true_iff.mp hcurrent
  obtain ⟨s, hs⟩ := Option.isSome_iff_exists.mp hsome
  exact ⟨s, hs, h.mirrored (Bool.not_eq_true' _ ▸ hbehind) s hs⟩

theorem persist_stores {env : Environment V} (h : persist env r = .ok u r') :
    lastSaved r'.trace = some r.runtimeSnapshot := by
  rw [persist_eq] at h
  split at h
  · cases h
    simp [ReplicaRuntime.log, lastSaved, Event.stored]
  · cases h

variable {env : Environment V}

private theorem keeps_checkpointThrough_backed (slot : SlotIndex) : Keeps Backed (checkpointThrough env slot) := by
  refine Keeps.bind (keeps_flushDecisionNotifications fun _ _ => Backed.quiet) fun _ => Keeps.bind Keeps.get fun _ => ?_
  refine Keeps.bind (Keeps.check _) fun _ => Keeps.bind (Keeps.check _) fun _ => Keeps.bind (Keeps.check _) fun _ => ?_
  intro s hs
  exact triple_persist env _ ⟨hs.auto, hs.config, hs.cluster⟩

private theorem keeps_installEpochSchedule_backed (schedule : EpochSchedule) :
    Keeps Backed (installEpochSchedule env schedule) := by
  refine Keeps.bind Keeps.get fun _ => Keeps.bind (Keeps.check _) fun _ => ?_
  intro r hr
  simp only [onTuner, zoom, bind_apply]
  rcases EpochTuner.install_cases schedule r.tuner with ⟨e, heq⟩ | ⟨heq, _⟩ | heq
  · rw [heq]
    exact hr
  · rw [heq]
    exact hr
  · rw [heq]
    exact triple_persist env _ ⟨hr.auto, hr.config, hr.cluster⟩

/-- A call that memory may answer by itself finds the store current. -/
def MayAnswer (r : ReplicaRuntime V) : RuntimeOp V → Prop
  | .installEpochSchedule schedule => r.tuner.schedules.get schedule.epoch = some schedule → storeCurrent r.trace = true
  | .receiveDecision d =>
    d.slot ≤ r.replica.checkpointedThrough ∨ r.decisions.contains d.slot = true → storeCurrent r.trace = true
  | .installMembership change _ => change.next = r.config.cluster → (lastSaved r.trace).isSome = true
  | _ => True

private theorem installEpochSchedule_durable {schedule : EpochSchedule} (h : r.Backed)
    (hmay : r.MayAnswer (.installEpochSchedule schedule)) (hok : installEpochSchedule env schedule r = .ok u r') :
    (RuntimeOp.installEpochSchedule schedule : RuntimeOp V).Durable (lastSaved r'.trace) := by
  obtain ⟨_, _, hget, hok⟩ := bind_eq_ok.mp hok
  cases hget
  obtain ⟨_, _, hok⟩ := check_bind_eq_ok.mp hok
  simp only [onTuner, zoom, bind_apply] at hok
  rcases EpochTuner.install_cases schedule r.tuner with ⟨e, heq⟩ | ⟨heq, hget⟩ | heq
  · rw [heq] at hok
    cases hok
  · rw [heq] at hok
    cases hok
    obtain ⟨s, hs, hmirrors⟩ := h.of_current (hmay hget)
    exact ⟨s, hs, by rw [hmirrors.schedules]; exact hget⟩
  · rw [heq] at hok
    exact ⟨_, persist_stores hok, OrderedMap.get_insert_self ..⟩

def Holds (d : Decision V) (r : ReplicaRuntime V) : Prop :=
  (∃ kept, r.decisions.get d.slot = some kept ∧ kept.valueIds = d.valueIds) ∧
    ∃ s, lastSaved r.trace = some s ∧ ∃ kept, s.decisions.get d.slot = some kept ∧ kept.valueIds = d.valueIds

private theorem Holds.log (h : Holds d r) {e : Event V} (hstored : e.stored = none) : Holds d (r.log e) := by
  refine ⟨h.1, ?_⟩
  simp only [ReplicaRuntime.log, lastSaved, latest_concat, hstored, Option.none_or]
  exact h.2

theorem Holds.saved (hkept : ∃ kept, r.decisions.get d.slot = some kept ∧ kept.valueIds = d.valueIds) :
    Holds d (r.log (.saved r.runtimeSnapshot (.ok ()))) := by
  refine ⟨hkept, r.runtimeSnapshot, ?_, hkept⟩
  simp [ReplicaRuntime.log, lastSaved, Event.stored]

private theorem Holds.quiet (h : Holds d r) (hq : Quiet env r r') : Holds d r' := by
  cases hq with
  | saved =>
    cases env.save r.trace r.runtimeSnapshot with
    | ok u => exact .saved h.1
    | error e => exact h.log rfl
  | counted | scheduled | timed | observed => exact h
  | informed | executeFailed | notifyFailed | probed | proposed | installing => exact h.log rfl
  | acknowledged | executed | notified => exact Holds.log h rfl

private theorem checkpointThrough_durable {slot : SlotIndex} (hok : checkpointThrough env slot r = .ok u r') :
    (RuntimeOp.checkpointThrough slot : RuntimeOp V).Durable (lastSaved r'.trace) := by
  obtain ⟨_, s, _, hok⟩ := bind_eq_ok.mp hok
  obtain ⟨_, _, hget, hok⟩ := bind_eq_ok.mp hok
  cases hget
  obtain ⟨_, hcommitted, hok⟩ := check_bind_eq_ok.mp hok
  obtain ⟨_, _, hok⟩ := check_bind_eq_ok.mp hok
  obtain ⟨_, _, hok⟩ := check_bind_eq_ok.mp hok
  obtain ⟨_, _, hmodify, hok⟩ := bind_eq_ok.mp hok
  cases hmodify
  refine ⟨_, persist_stores hok, ?_⟩
  have hle : slot ≤ s.replica.committedThrough := require_eq_ok.mp hcommitted
  show slot ≤ max (min slot s.replica.committedThrough) s.replica.checkpointedThrough
  exact le_max_of_le_left (le_min (le_refl slot) hle)

private theorem activate_stores {change : MembershipChange V} {next : List ReplicaId}
    (hok : activate env change next r = .ok u r') :
    ∃ s, lastSaved r'.trace = some s ∧ s.cluster = change.next := by
  rw [activate_eq] at hok
  split at hok
  · cases hok
    exact ⟨(r.reconfigured change next).runtimeSnapshot, by simp [ReplicaRuntime.log, lastSaved, Event.stored], rfl⟩
  · cases hok

section
variable [DecidableEq V]

private theorem Backed.arming (h : r.Backed) (ha : Arming r r') : r'.Backed := by
  cases ha <;> exact h.same rfl rfl rfl rfl rfl

private theorem floor_enqueue (values : List V) (c : ReplicaCore V) :
    (after (ReplicaCore.enqueue values) c).checkpointedThrough = c.checkpointedThrough := by
  rcases ReplicaCore.enqueue_cases values c with ⟨e, heq⟩ | ⟨fresh, heq, _⟩
  · rw [after_error heq]
  · rw [after_ok heq]

def Plain (env : Environment V) (op : RuntimeOp V) : Prop :=
  (∀ d, ¬op.Learns env d) ∧ (∀ slot, ¬op.Prunes slot) ∧ ∀ schedule, op ≠ .installEpochSchedule schedule

theorem Backed.move {op : RuntimeOp V} (hplain : Plain env op) (h : r.Backed) (hm : Move env op r r') : r'.Backed := by
  cases hm with
  | quiet hq => exact h.quiet hq
  | enqueued values => exact h.same rfl rfl rfl rfl (floor_enqueue ..)
  | decided learnt | refused learnt => exact absurd learnt (hplain.1 _)
  | pruned asked => exact absurd asked (hplain.2.1 _)
  | scheduleInstalled asked => exact absurd asked (hplain.2.2 _)
  | exported => exact h.log rfl rfl
  | reconnected => exact h.same rfl rfl rfl rfl rfl
  | reconfigured => exact backed_saved h.auto h.config
  | reconfigureFailed e => exact h.toManual.saveFailed _ e

private theorem keeps_storeDecision (d : Decision V) : Keeps Backed (storeDecision env d) := by
  intro r hr
  simp only [storeDecision, bind_apply, get_apply]
  cases r.decisions.get d.slot with
  | some existing => exact Keeps.check _ r hr
  | none =>
    have hfloor := (ReplicaCore.frontier_applyDecision r.replica d).2
    simp only [onReplica, zoom, bind_apply]
    cases happly : ReplicaCore.applyDecision d r.replica with
    | error e replica => exact hr.same rfl rfl rfl rfl (after_error happly ▸ hfloor)
    | ok ds replica => exact triple_persist env _ ⟨hr.auto, hr.config, hr.cluster⟩

private theorem keeps_acceptDecision_backed (d : Decision V) : Keeps Backed (acceptDecision env d) := by
  refine Keeps.bind Keeps.get fun r => Keeps.bind (Keeps.check _) fun _ => Keeps.ite (fun _ => Keeps.pure _) fun _ => ?_
  refine Keeps.bind (keeps_storeDecision d) fun _ => ?_
  refine Keeps.bind (keeps_dispatchCommitted fun _ _ => Backed.quiet) fun _ => ?_
  exact Keeps.bind (keeps_flushDecisionNotifications fun _ _ => Backed.quiet) fun _ => Keeps.pure _

private theorem keeps_armAvailable_backed (now : Instant) : Keeps Backed (armAvailable env now) := by
  have hplain : Plain env (.armAvailable now) := by
    refine ⟨?_, ?_, fun _ => nofun⟩
    · rintro d (h | ⟨_, _, _, h, _⟩) <;> cases h
    · rintro slot (h | h) <;> cases h
  have hmoves : ∀ r r' : ReplicaRuntime V, r.Backed → Move env (.armAvailable now) r r' → r'.Backed :=
    fun _ _ => Backed.move hplain
  exact keeps_armAvailable hmoves (fun _ _ _ => Backed.arming) rfl now

private theorem keeps_perform_backed (op : RuntimeOp V) : Keeps Backed (perform env op) := by
  have hquiet : ∀ r r' : ReplicaRuntime V, r.Backed → Quiet env r r' → r'.Backed := fun _ _ => Backed.quiet
  cases op with
  | submit values =>
    refine keeps_submit fun _ _ => Backed.move ⟨?_, ?_, fun _ => nofun⟩
    · rintro d (h | ⟨_, _, _, h, _⟩) <;> cases h
    · rintro slot (h | h) <;> cases h
  | installEpochSchedule schedule => exact keeps_installEpochSchedule_backed schedule
  | installMembership change next =>
    refine keeps_installMembership fun _ _ => Backed.move ⟨?_, ?_, fun _ => nofun⟩
    · rintro d (h | ⟨_, _, _, h, _⟩) <;> cases h
    · rintro slot (h | h) <;> cases h
  | armAvailable now => exact Keeps.bind (keeps_armAvailable_backed now) fun _ => Keeps.pure _
  | poll now =>
    refine Keeps.bind (Keeps.bind (keeps_flushDecisionNotifications hquiet) fun _ => ?_) fun _ => Keeps.pure _
    refine Keeps.bind (keeps_armAvailable_backed now) fun armed => ?_
    exact keeps_pollLoop_of hquiet (fun d _ _ _ => keeps_acceptDecision_backed d) now (armed + 1)
  | receiveDecision d => exact Keeps.bind (keeps_acceptDecision_backed d) fun _ => Keeps.pure _
  | recover =>
    refine Keeps.bind (Keeps.bind (keeps_dispatchCommitted hquiet) fun _ => ?_) fun _ => Keeps.pure _
    exact Keeps.bind (keeps_flushDecisionNotifications hquiet) fun _ => Keeps.pure _
  | checkpointThrough slot => exact keeps_checkpointThrough_backed slot
  | createStateTransfer slot =>
    refine Keeps.bind (Keeps.bind (keeps_flushDecisionNotifications hquiet) fun _ => Keeps.bind Keeps.get fun _ => ?_)
      fun _ => Keeps.pure _
    refine Keeps.bind (Keeps.check _) fun _ => Keeps.bind ?_ fun _ => ?_
    · exact Keeps.bind (Keeps.modify fun s hs => hs.log rfl rfl) fun _ => Keeps.check _
    · exact Keeps.bind (keeps_checkpointThrough_backed slot) fun _ => Keeps.bind Keeps.get fun _ => Keeps.pure _

private theorem Backed.installStateTransfer (h : r.Backed) (incoming : StateTransferSnapshot V) :
    (after (ReplicaRuntime.installStateTransfer env incoming) r).Backed := by
  rcases installStateTransfer_cases env incoming r with
    ⟨e, heq⟩ | ⟨e, heq⟩ | ⟨e, heq⟩ | ⟨r', heq, hconfig, _, hloaded, hsnapshot, _, htrace⟩
  · rw [after_error heq]
    exact h
  · rw [after_error heq]
    exact h.log rfl rfl
  · rw [after_error heq]
    exact Manual.saveFailed (Backed.log h rfl rfl).toManual _ e
  · rw [after_ok heq]
    have hlast : lastSaved r'.trace = some r'.runtimeSnapshot := by
      rw [htrace, hsnapshot, lastSaved, latest_concat]
      rfl
    have hauto : r'.tuner.auto = r.config.autoSchedules := by
      have htuner := hloaded.tuner
      simp only [EpochTuner.restore, unit_bind_eq_ok, pure, Except.pure, Except.ok.injEq] at htuner
      rw [← htuner.2.2]
      rfl
    refine ⟨⟨hauto.trans h.config, hconfig ▸ h.config, fun s hs => ?_⟩, fun _ s hs => ?_⟩
    · rw [hlast] at hs
      cases hs
      rfl
    · rw [hlast] at hs
      cases hs
      exact ⟨rfl, rfl, rfl⟩

private theorem submit_durable {values : List V} (hok : submit env values r = .ok u r') :
    (RuntimeOp.submit values).Durable (lastSaved r'.trace) := by
  obtain ⟨_, s, henqueue, hpersist⟩ := bind_eq_ok.mp hok
  refine ⟨_, persist_stores hpersist, fun v hv => ?_⟩
  simp only [onReplica, zoom] at henqueue
  cases hx : ReplicaCore.enqueue values r.replica with
  | error e c =>
    rw [hx] at henqueue
    cases henqueue
  | ok u c =>
    rw [hx] at henqueue
    cases henqueue
    rw [ReplicaCore.enqueue_ok hx]
    exact Finset.mem_union.mpr ((ReplicaCore.seen_or_fresh _ hv).imp_right List.mem_toFinset.mpr)

private theorem storeDecision_holds (h : r.Backed) (hmay : r.MayAnswer (.receiveDecision d))
    (hok : storeDecision env d r = .ok u r') : Holds d r' := by
  simp only [storeDecision, bind_apply, get_apply] at hok
  cases hget : r.decisions.get d.slot with
  | some existing =>
    simp only [hget, require] at hok
    split_ifs at hok with hsame
    · cases hok
      obtain ⟨s, hs, hmirrors⟩ := h.of_current (hmay (.inr ((OrderedMap.contains_iff ..).mpr ⟨existing, hget⟩)))
      exact ⟨⟨existing, hget, hsame⟩, s, hs, existing, by rw [hmirrors.decisions]; exact hget, hsame⟩
    · cases hok
  | none =>
    simp only [hget, onReplica, zoom, bind_apply, modify_apply] at hok
    cases happly : ReplicaCore.applyDecision d r.replica with
    | error e c =>
      simp only [happly] at hok
      cases hok
    | ok ds c =>
      simp only [happly, persist_eq] at hok
      split at hok
      · cases hok
        exact .saved ⟨d, OrderedMap.get_insert_self .., rfl⟩
      · cases hok

private theorem receiveDecision_durable {ds : List (Decision V)} (h : r.Backed)
    (hmay : r.MayAnswer (.receiveDecision d))
    (hok : receiveDecision env d r = .ok ds r') : (RuntimeOp.receiveDecision d).Durable (lastSaved r'.trace) := by
  obtain ⟨_, _, hget, hok⟩ := bind_eq_ok.mp hok
  cases hget
  obtain ⟨_, _, hok⟩ := check_bind_eq_ok.mp hok
  split_ifs at hok with hfloor
  · cases hok
    obtain ⟨s, hs, hmirrors⟩ := h.of_current (hmay (.inl hfloor))
    exact ⟨s, hs, .inr (hmirrors.floor.symm ▸ hfloor)⟩
  · obtain ⟨_, stored, hstore, hok⟩ := bind_eq_ok.mp hok
    have hrest : Keeps (Holds d) (recover env) := by
      refine Keeps.bind (keeps_dispatchCommitted fun _ _ => Holds.quiet) fun _ => ?_
      exact Keeps.bind (keeps_flushDecisionNotifications fun _ _ => Holds.quiet) fun _ => Keeps.pure _
    obtain ⟨s, hs, hkept⟩ := (hrest.ok (storeDecision_holds h hmay hstore) hok).2
    exact ⟨s, hs, .inl hkept⟩

private theorem installMembership_durable {change : MembershipChange V} {next : List ReplicaId} (h : r.Backed)
    (hmay : r.MayAnswer (.installMembership change next)) (hok : installMembership env change next r = .ok u r') :
    (RuntimeOp.installMembership change next).Durable (lastSaved r'.trace) := by
  obtain ⟨_, _, hok⟩ := check_bind_eq_ok.mp hok
  obtain ⟨_, _, hget, hok⟩ := bind_eq_ok.mp hok
  cases hget
  split_ifs at hok with hsame
  · obtain ⟨_, _, hok⟩ := check_bind_eq_ok.mp hok
    cases hok
    obtain ⟨s, hs⟩ := Option.isSome_iff_exists.mp (hmay hsame)
    exact ⟨s, hs, (h.cluster s hs).trans hsame.symm⟩
  · obtain ⟨_, _, hok⟩ := check_bind_eq_ok.mp hok
    obtain ⟨_, _, hok⟩ := check_bind_eq_ok.mp hok
    obtain ⟨_, _, _, hok⟩ := bind_eq_ok.mp hok
    obtain ⟨_, _, _, hok⟩ := bind_eq_ok.mp hok
    obtain ⟨_, _, hok⟩ := check_bind_eq_ok.mp hok
    obtain ⟨_, _, hok⟩ := check_bind_eq_ok.mp hok
    obtain ⟨_, _, _, hok⟩ := bind_eq_ok.mp hok
    exact activate_stores hok

private theorem durable_of_ok {op : RuntimeOp V} (h : r.Backed) (hmay : r.MayAnswer op)
    (hok : perform env op r = .ok u r') :
    op.Durable (lastSaved r'.trace) := by
  cases op with
  | submit values => exact submit_durable hok
  | installEpochSchedule schedule => exact installEpochSchedule_durable h hmay hok
  | receiveDecision d =>
    obtain ⟨ds, hok, _⟩ := bind_pure_eq_ok.mp hok
    exact receiveDecision_durable h hmay hok
  | checkpointThrough slot => exact checkpointThrough_durable hok
  | installMembership change next => exact installMembership_durable h hmay hok
  | _ => trivial

end

end ReplicaRuntime

def DeploymentAction.Manual : DeploymentAction V → Prop
  | .process (.restart config _ _ _) => config.autoSchedules = false
  | _ => True

namespace Deployment
variable [DecidableEq V] {env : Environment V}

private theorem backed_run {actions : List (DeploymentAction V)} (h : ∀ a ∈ actions, a.Manual) :
    (run (step env) Process.fresh actions).Upholds ReplicaRuntime.Backed fun _ => True := by
  refine upholds_run (fun _ _ => trivial) (fun _ _ _ _ => trivial) trivial ?_ ?_ ?_ (.of_mem h _)
  · exact fun r op hr _ => (ReplicaRuntime.keeps_perform_backed op).after hr
  · exact fun r incoming hr _ => hr.installStateTransfer incoming
  · intro t config proposer recorders noop r _ hconfig hnew
    obtain ⟨hboot, htrace⟩ := ReplicaRuntime.new_booted hnew
    have hboot := hboot.noop noop
    have hlast : lastSaved (noop.elim r r.withNoopValue).trace = lastSaved t := by
      rw [ReplicaRuntime.trace_noop, htrace, lastSaved, latest_concat]
      rfl
    refine ⟨⟨?_, ?_, fun s hs => ?_⟩, fun _ s hs => ?_⟩
    · rw [hboot.tuner.2.2]
      exact hconfig
    · rw [hboot.setup]
      exact hconfig
    · rw [hlast] at hs
      rw [← hboot.loaded s hs]
      rfl
    · rw [hlast] at hs
      rw [← hboot.loaded s hs]
      exact ⟨rfl, rfl, rfl⟩

/-- What a call has acknowledged is in the store, provided a call answered from memory
finds the store current. -/
theorem acknowledged_calls_are_durable (env : Environment V) (actions : List (DeploymentAction V))
    (hmanual : ∀ a ∈ actions, a.Manual)
    (r : ReplicaRuntime V) (hrun : run (step env) Process.fresh actions = .up r) (op : RuntimeOp V)
    (hmay : r.MayAnswer op)
    (r' : ReplicaRuntime V) (hok : ReplicaRuntime.perform env op r = .ok () r') : op.Durable (lastSaved r'.trace) := by
  have hbacked : (run (step env) Process.fresh actions).Upholds ReplicaRuntime.Backed fun _ => True :=
    backed_run hmanual
  rw [hrun] at hbacked
  exact ReplicaRuntime.durable_of_ok hbacked hmay hok

/-! A runtime whose second save fails, on a node that cannot reach the recorders. The call
that failed is repeated and acknowledged without a save. -/

def diskFullOnce : Environment Nat :=
  { Environment.obliging with
    save := fun trace _ => if trace.length = 2 then .error (.storageError "disk full") else .ok ()
    inform := fun _ _ _ => .error (.quorumNotReached 2 1) }

def failsThenRepeats (op : RuntimeOp Nat) : List (DeploymentAction Nat) :=
  [.process (.restart ⟨1, 1, ⟨[1, 2, 3], 1, 0, none⟩, ReplicaConfig.default, 2, 0, false, none⟩
    ⟨1, 1, ProposerConfig.default⟩
    [1, 2, 3] none), .process (.call (.submit [10])), .process (.call op)]

def repeated (env : Environment Nat) (op : RuntimeOp Nat) : Option (ReplicaRuntime Nat × ReplicaRuntime Nat) :=
  match run (step env) Process.fresh (failsThenRepeats op) with
  | .up r => match ReplicaRuntime.perform env op r with
    | .ok _ r' => some (r, r')
    | .error _ _ => none
  | .down _ => none

theorem repeated_eq_some {env : Environment Nat} {op : RuntimeOp Nat} {x : ReplicaRuntime Nat × ReplicaRuntime Nat}
    (h : repeated env op = some x) :
    run (step env) Process.fresh (failsThenRepeats op) = .up x.1 ∧ ReplicaRuntime.perform env op x.1 = .ok () x.2 := by
  rw [repeated] at h
  cases hrun : run (step env) Process.fresh (failsThenRepeats op) with
  | down t =>
    rw [hrun] at h
    cases h
  | up r =>
    simp only [hrun] at h
    cases hok : ReplicaRuntime.perform env op r with
    | error e r' =>
      rw [hok] at h
      cases h
    | ok u r' =>
      rw [hok] at h
      cases h
      exact ⟨rfl, hok⟩

theorem repeated_calls_are_not_durable :
    (∃ r r', run (step diskFullOnce) Process.fresh (failsThenRepeats (.installEpochSchedule ⟨0, [1, 2, 3]⟩)) = .up r ∧
      ReplicaRuntime.perform diskFullOnce (.installEpochSchedule ⟨0, [1, 2, 3]⟩) r = .ok () r' ∧
      ¬(RuntimeOp.installEpochSchedule ⟨0, [1, 2, 3]⟩ : RuntimeOp Nat).Durable (lastSaved r'.trace)) ∧
    ∃ r r', run (step diskFullOnce) Process.fresh (failsThenRepeats (.receiveDecision ⟨2, [20], 2, 4⟩)) = .up r ∧
      ReplicaRuntime.perform diskFullOnce (.receiveDecision ⟨2, [20], 2, 4⟩) r = .ok () r' ∧
      ¬(RuntimeOp.receiveDecision ⟨2, [20], 2, 4⟩).Durable (lastSaved r'.trace) := by
  constructor
  · have hcheck : (repeated diskFullOnce (.installEpochSchedule ⟨0, [1, 2, 3]⟩)).any (fun x =>
        (lastSaved x.2.trace).all fun s => s.schedules.get 0 = none) = true := by decide +kernel
    obtain ⟨⟨r, r'⟩, hx, hnone⟩ := (Option.any_eq_true _ _).mp hcheck
    obtain ⟨hrun, hok⟩ := repeated_eq_some hx
    refine ⟨r, r', hrun, hok, ?_⟩
    rintro ⟨s, hs, hget⟩
    simp [hs, hget] at hnone
  · have hcheck : (repeated diskFullOnce (.receiveDecision ⟨2, [20], 2, 4⟩)).any (fun x =>
        (lastSaved x.2.trace).all fun s => s.decisions.get 2 = none ∧ s.replica.checkpointedThrough = 0) =
          true := by decide +kernel
    obtain ⟨⟨r, r'⟩, hx, hnone⟩ := (Option.any_eq_true _ _).mp hcheck
    obtain ⟨hrun, hok⟩ := repeated_eq_some hx
    refine ⟨r, r', hrun, hok, ?_⟩
    rintro ⟨s, hs, hkept⟩
    simp only [hs, Option.all_some, decide_eq_true_eq] at hnone
    rcases hkept with ⟨kept, hget, _⟩ | hfloor
    · rw [hnone.1] at hget
      cases hget
    · rw [hnone.2] at hfloor
      cases hfloor

/-- When the saves succeed, the repeated call is backed by the first one. -/
theorem acknowledged_calls_are_durable_repeated :
    ∃ r r', run (step .obliging) Process.fresh (failsThenRepeats (.installEpochSchedule ⟨0, [1, 2, 3]⟩)) = .up r ∧
      ReplicaRuntime.perform .obliging (.installEpochSchedule ⟨0, [1, 2, 3]⟩) r = .ok () r' ∧
      (RuntimeOp.installEpochSchedule ⟨0, [1, 2, 3]⟩ : RuntimeOp Nat).Durable (lastSaved r'.trace) := by
  have hcheck : (repeated .obliging (.installEpochSchedule ⟨0, [1, 2, 3]⟩)).any (fun x => storeCurrent x.1.trace) =
    true := by
    decide +kernel
  have hmanual : ∀ a ∈ failsThenRepeats (.installEpochSchedule ⟨0, [1, 2, 3]⟩), a.Manual := by
    simp [failsThenRepeats, DeploymentAction.Manual]
  obtain ⟨⟨r, r'⟩, hx, hcurrent⟩ := (Option.any_eq_true _ _).mp hcheck
  obtain ⟨hrun, hok⟩ := repeated_eq_some hx
  have hmay : r.MayAnswer (.installEpochSchedule ⟨0, [1, 2, 3]⟩) := fun _ => hcurrent
  exact ⟨r, r', hrun, hok, acknowledged_calls_are_durable .obliging _ hmanual r hrun _ hmay r' hok⟩

end Deployment
end QuePaxa
