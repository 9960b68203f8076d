import QuePaxa.Runtime.ScheduleReach

/-! Deadlines of an automatic runtime. Where the armed slots are within reach of what was
counted, every one of them has a schedule and is given a deadline, and polling fails on no
account of the policy. -/
namespace QuePaxa
open Library
variable {V : Type}

structure Environment.Neutral (env : Environment V) : Prop where
  save : ∀ m trace s, Never (.policyError m) (env.save trace s)
  execute : ∀ m trace d, Never (.policyError m) (env.execute trace d)
  committed : ∀ m trace d, Never (.policyError m) (env.committed trace d)
  propose : ∀ m trace call, Never (.policyError m) (env.propose trace call)

/-! ### Calls that do not consult the policy -/

namespace ReplicaCore
variable (m : String)

private theorem never_nextOpenSlot (r : ReplicaCore V) : Never (.policyError m) r.nextOpenSlot := by
  refine Never.loop (fun slot => ?_) _ _
  split
  · split
    · exact Never.ok _
    · exact Never.error nofun
  · exact Never.ok _

private theorem avoids_commitReady : Avoids (.policyError m) (commitReady (V := V)) := by
  have hadvance : Avoids (.policyError m) (advance (V := V)) := by
    intro r
    simp only [result, advance]
    cases r.nextCommit.checkedNext with
    | some next => exact Never.ok _
    | none => exact Never.error (by simp)
  refine .bind .get fun r => .loop (fun committed => .bind .get fun r => ?_) _ _
  cases r.log.get r.nextCommit with
  | none => exact .pure _
  | some slot =>
    refine .ite (.bind hadvance fun _ => .pure _) ?_
    cases slot.decision with
    | none => exact .pure _
    | some d => exact .bind (.set _) fun _ => .bind hadvance fun _ => .pure _

variable [DecidableEq V]

private theorem never_admitProposal (r : ReplicaCore V) (slot : SlotIndex) (values : List V) :
    Never (.policyError m) (r.admitProposal slot values) :=
  .bind (.require nofun) fun _ => .bind (.require nofun) fun _ => .bind (.require nofun) fun _ => .require nofun

private theorem never_admitDecision (r : ReplicaCore V) (d : Decision V) : Never (.policyError m) (r.admitDecision d) :=
  .bind (.require nofun) fun _ => .bind (.require nofun) fun _ => .bind (.require nofun) fun _ => .require nofun

theorem avoids_noteProposed (slot : SlotIndex) (values : List V) : Avoids (.policyError m) (noteProposed slot values) :=
  .bind .get fun r => .bind (.check (r.never_admitProposal m slot values)) fun _ => .set _

private theorem avoids_nextProposal : Avoids (.policyError m) (nextProposal (V := V)) := by
  refine .bind .get fun r => .ite (.pure _) (.bind (.check (r.never_nextOpenSlot m)) fun slot => ?_)
  exact .bind (.set _) fun _ => .bind (avoids_noteProposed m _ _) fun _ => .pure _

private theorem avoids_applyDecision (d : Decision V) : Avoids (.policyError m) (applyDecision d) := by
  refine .bind .get fun r => .bind (.check (r.never_admitDecision m d)) fun _ => ?_
  dsimp only
  split
  · exact .bind (.check (.require nofun)) fun _ => .pure _
  · have hstore : ∀ s : ReplicaCore V, Avoids (.policyError m) (do set s; commitReady) :=
      fun s => .bind (.set s) fun _ => avoids_commitReady m
    exact .ite (.bind (.check (.require nofun)) fun _ => hstore _) (hstore _)

end ReplicaCore

namespace ReplicaRuntime
variable {env : Environment V} (m : String)

theorem avoids_request {α : Type} {event : Event V} {result : Result α} (h : Never (.policyError m) result) :
    Avoids (.policyError m) (request event result) := .bind (.modify _) fun _ => .check h

private theorem avoids_deferForProgress (slot : SlotIndex) (schedule : EpochSchedule) (now : Instant) :
    Avoids (.policyError m) (deferForProgress env slot schedule now) := by
  refine .bind .get fun r => .ite (.pure _) (.bind ?_ fun observed => .bind .get fun s => ?_)
  · refine .bind .get fun r => .bind (.gather (fun recorder => .bind .get fun s => ?_) _) fun _ => .pure _
    exact avoids_request m (Never.ok _)
  · cases s.pending.get slot with
    | none => exact .pure _
    | some p => exact .ite (.bind (.set _) fun _ => .pure _) (.pure _)

section
variable [DecidableEq V]

private theorem never_validateDecision (r : ReplicaRuntime V) (d : Decision V) : Never (.policyError m)
    (r.validateDecision d) :=
  .bind (.require nofun) fun _ => .bind (.require nofun) fun _ => .require nofun

private theorem avoids_armProposals : Avoids (.policyError m) (armProposals (V := V)) := by
  refine .bind .get fun r => .bind (.loop (fun changed => .bind (.zoom (ReplicaCore.avoids_nextProposal m))
    fun next => ?_) _ _) fun _ => ?_
  · cases next with
    | none => exact .pure _
    | some e => exact .bind (.modify _) fun _ => .pure _
  · refine .bind (.bind .get fun r => ?_) fun _ => .pure _
    cases r.noopValue with
    | none => exact .pure _
    | some noop =>
      refine .ite (.pure _) ?_
      cases r.replica.committedThrough.checkedNext with
      | none => exact .throw nofun
      | some gap =>
        refine .ite ?_ (.pure _)
        exact .bind (.zoom (ReplicaCore.avoids_noteProposed m gap [noop])) fun _ => .bind (.modify _) fun _ => .pure _

end

section
variable (henv : env.Neutral)
include henv

theorem avoids_persist : Avoids (.policyError m) (persist env) :=
  .bind .get fun r => avoids_request m (henv.save m r.trace r.runtimeSnapshot)

theorem avoids_flushDecisionNotifications : Avoids (.policyError m) (flushDecisionNotifications env) := by
  have hannounce : ∀ decision recorder, Avoids (.policyError m) (announce env decision recorder) := by
    intro decision recorder r
    simp only [result, announce]
    split_ifs
    · exact Never.ok _
    · cases env.inform r.trace recorder decision.2 <;> exact Never.ok _
  refine .bind .get fun r => .bind (.orEach (fun decision => .orEach (hannounce decision) _) _) fun changed => ?_
  exact .onlyIf (avoids_persist m henv)

private theorem avoids_deliver (d : Decision V) : Avoids (.policyError m) (deliver env d) := by
  refine .bind (.bind .get fun r => .onlyIf ?_) fun _ => .bind .get fun r => .ite (.pure _) ?_
  · exact .bind (avoids_request m (henv.execute m r.trace d)) fun _ => .bind (.modify _) fun _ => avoids_persist m henv
  · exact .bind (avoids_request m (henv.committed m r.trace d)) fun _ =>
      .bind (.modify _) fun _ => .bind (avoids_persist m henv) fun _ => .pure _

end

/-! ### Schedules and deadlines of the armed slots -/

structure Current (r : ReplicaRuntime V) : Prop where
  paced : r.Paced
  counted : r.tuner.statsThrough = r.replica.committedThrough
  calm : ¬r.replica.Jammed

structure Hedged (now : Instant) (r : ReplicaRuntime V) : Prop where
  member : r.config.replicaId ∈ r.config.members
  turns : r.config.members.length ≤ 2 ^ 32
  delay : r.hedgeDelay.current * (r.config.members.length - 1) ≤ Duration.max
  deadline : now + r.hedgeDelay.current * (r.config.members.length - 1) ≤ Instant.max

variable {r r' : ReplicaRuntime V} {slot : SlotIndex} {now : Instant}

theorem Paced.hasHistory (h : r.Paced) (hslot : slot ∈ r.pending.keys) :
    r.tuner.HasHistory (r.config.epochFor slot) := by
  rw [EpochTuner.HasHistory, h.epochSize, h.tuner.members]
  exact h.near hslot

theorem Current.quiet [DecidableEq V] (h : r.Current) (hq : Quiet env r r') : r'.Current := by
  have hm : Move env .recover r r' := .quiet hq
  refine ⟨h.paced.move hm, ?_, ?_⟩
  · rw [hq.samePipeline.replica, ← h.counted]
    cases hq with
    | @counted d committed =>
      obtain ⟨k, hget, hle⟩ := committed
      rw [← h.counted, ← (h.paced.now.settled.retained k d hget).2] at hle
      have hold : ¬some d.slot = r.tuner.statsThrough.checkedNext := by
        intro hnext
        have heq := (SlotIndex.checkedNext_eq_some.mp hnext.symm).2
        lia
      exact congrArg EpochTuner.statsThrough (EpochTuner.noteCommitted_other hold _)
    | scheduled epoch =>
      show (after (EpochTuner.ensureSchedule epoch) r.tuner).statsThrough = _
      obtain h | ⟨_, _, _, h⟩ := EpochTuner.after_ensureSchedule h.paced.auto epoch <;> rw [h]
    | _ => rfl
  · rw [hq.samePipeline.replica]
    exact h.calm

private theorem Current.statsThrough_lt (h : r.Current) : r.tuner.statsThrough < u64Max := by
  have hfrontier := h.paced.now.settled.ordered.frontier
  have hbound : r.replica.nextCommit ≤ u64Max := h.paced.now.settled.ordered.bound
  rw [h.counted, ReplicaCore.committedThrough]
  exact (Nat.sub_lt (Nat.zero_lt_of_lt hfrontier) Nat.one_pos).trans_le hbound

theorem Current.ensureScheduleFor_ok (h : r.Current) (hmember : r.config.replicaId ∈ r.config.members)
    (hslot : slot ∈ r.pending.keys) :
    ∃ schedule : EpochSchedule, schedule.Fits r.config.members (r.config.epochFor slot) ∧
      ensureScheduleFor slot r =
        .ok schedule { r with tuner := after (EpochTuner.ensureSchedule (r.config.epochFor slot)) r.tuner } := by
  have hauto := h.paced.auto
  have hmem : r.tuner.members = r.config.members := h.paced.tuner.members
  have hhistory := h.paced.hasHistory hslot
  simp only [ensureScheduleFor, bind_apply, get_apply, onTuner, zoom, after, EpochTuner.ensureSchedule_apply hauto]
  cases hget : r.tuner.schedules.get (r.config.epochFor slot) with
  | some schedule => exact ⟨schedule, h.paced.tuner.schedules _ _ hget, rfl⟩
  | none =>
    obtain ⟨schedule, hderive⟩ := EpochTuner.derive_ok (hmem ▸ List.ne_nil_of_mem hmember)
      (hmem ▸ h.paced.config.members)
      hhistory h.statsThrough_lt
    simp only [hderive]
    exact ⟨schedule, hmem ▸ EpochTuner.derive_fits hderive, rfl⟩

private theorem Hedged.deadlineFor_ok (h : r.Hedged now) {schedule : EpochSchedule} {epoch : Nat}
    (hnodup : r.config.members.Nodup)
    (hs : schedule.Fits r.config.members epoch) : ∃ deadline, r.deadlineFor schedule now = .ok deadline := by
  have hturn : r.config.replicaId ∈ schedule.proposers := by
    rw [← List.mem_toFinset, hs.members, List.mem_toFinset]
    exact h.member
  have hlength : schedule.proposers.length = r.config.members.length := by
    rw [← List.toFinset_card_of_nodup hs.nodup, hs.members, List.toFinset_card_of_nodup hnodup]
  simp only [deadlineFor]
  cases hfirst : schedule.proposers.idxOf? r.config.replicaId with
  | none => exact absurd hturn (List.idxOf?_eq_none_iff.mp hfirst)
  | some position =>
    obtain ⟨hlt, _⟩ := List.idxOf?_eq_some_iff.mp hfirst
    rw [hlength] at hlt
    have hdelay : r.hedgeDelay.current * position ≤ r.hedgeDelay.current * (r.config.members.length - 1) :=
      Nat.mul_le_mul_left _ (Nat.le_sub_one_of_lt hlt)
    simp only [except_bind_eq_ok, require_eq_ok]
    exact ⟨_, (), hlt.trans_le h.turns, (), hdelay.trans h.delay, (), (Nat.add_le_add_left hdelay now).trans
      h.deadline, rfl⟩

def setDeadlines (deadlines : List (SlotIndex × Instant)) : EStateM QuePaxaError (ReplicaRuntime V) Unit :=
  deadlines.forM fun e => modify (·.setReadyAt e.1 e.2)

private theorem triple_setDeadlines (deadlines : List (SlotIndex × Instant)) :
    Triple (fun s : ReplicaRuntime V => ∀ slot p, s.pending.get slot = some p → p.readyAt = none →
      slot ∈ deadlines.map Prod.fst)
      (setDeadlines deadlines) (fun _ s => ∀ slot p, s.pending.get slot = some p → p.readyAt ≠ none)
        fun _ _ => False := by
  have hset := Triple.forM (E := fun (_ : QuePaxaError) _ => False) (f := fun e => modify (·.setReadyAt e.1 e.2))
    (J := fun rest (s : ReplicaRuntime V) => ∀ slot p, s.pending.get slot = some p → p.readyAt = none →
      slot ∈ rest.map Prod.fst)
    ?_ deadlines
  · exact hset.conseq (fun _ h => h) (fun _ s h slot p hget hnone => nomatch h slot p hget hnone) fun _ _ h => h
  rintro ⟨k, deadline⟩ rest s h slot p hget hnone
  simp only [setReadyAt] at hget
  have hother : slot ≠ k → s.pending.get slot = some p → slot ∈ rest.map Prod.fst := by
    intro hne hold
    exact (List.mem_cons.mp (h slot p hold hnone)).resolve_left hne
  cases hk : s.pending.get k with
  | none =>
    rw [hk] at hget
    exact hother (fun heq => by rw [heq, hk] at hget; cases hget) hget
  | some q =>
    rw [hk] at hget
    simp only [OrderedMap.get_insert] at hget
    split_ifs at hget with heq
    · cases hget
      cases hnone
    · exact hother heq hget

def computeDeadline (now : Instant) (slot : SlotIndex) :
    EStateM QuePaxaError (ReplicaRuntime V) (List (SlotIndex × Instant)) := do
  let schedule ← ensureScheduleFor slot
  let r ← get
  let deadline ← check (r.deadlineFor schedule now)
  pure [(slot, deadline)]

section
variable [DecidableEq V]

private theorem computeDeadline_ok (h : r.Current) (hh : r.Hedged now) (hslot : slot ∈ r.pending.keys) :
    ∃ deadline s, computeDeadline now slot r = .ok [(slot, deadline)] s ∧ s.Current ∧ s.Hedged now ∧
      s.pending = r.pending := by
  obtain ⟨schedule, hfits, hask⟩ := h.ensureScheduleFor_ok hh.member hslot
  obtain ⟨deadline, hdeadline⟩ := hh.deadlineFor_ok h.paced.config.members hfits
  have hasked : Quiet Environment.obliging r
      { r with tuner := after (EpochTuner.ensureSchedule (r.config.epochFor slot)) r.tuner } :=
    .scheduled r _
  refine ⟨deadline, _, ?_, h.quiet hasked, ⟨hh.member, hh.turns, hh.delay, hh.deadline⟩, rfl⟩
  simp only [computeDeadline, bind_apply, hask, get_apply]
  have hsame : ({ r with tuner := after (EpochTuner.ensureSchedule (r.config.epochFor slot)) r.tuner } : ReplicaRuntime
    V).deadlineFor
      schedule now = .ok deadline := hdeadline
  simp only [hsame, check_ok, pure_apply]

private theorem gather_computeDeadline_ok (slots : List SlotIndex) (h : r.Current) (hh : r.Hedged now)
    (hslots : ∀ slot ∈ slots, slot ∈ r.pending.keys) :
    ∃ deadlines s, gather (computeDeadline now) slots r = .ok deadlines s ∧ deadlines.map Prod.fst = slots ∧
      s.pending = r.pending := by
  induction slots generalizing r with
  | nil => exact ⟨[], r, rfl, rfl, rfl⟩
  | cons slot slots ih =>
    obtain ⟨deadline, s, heq, hs, hhs, hp⟩ := computeDeadline_ok h hh (hslots slot List.mem_cons_self)
    obtain ⟨deadlines, s', heq', hkeys, hp'⟩ := ih hs hhs fun k hk => hp ▸ hslots k (List.mem_cons_of_mem _ hk)
    refine ⟨(slot, deadline) :: deadlines, s', ?_, congrArg (slot :: ·) hkeys, hp'.trans hp⟩
    simp only [gather, bind_apply, heq, heq', pure_apply, List.singleton_append]

theorem assignDeadlines_ok (h : r.Current) (hh : r.Hedged now) :
    ∃ s, assignDeadlines now r = .ok () s ∧ ∀ slot p, s.pending.get slot = some p → p.readyAt ≠ none := by
  have hslots : ∀ slot ∈ (r.pending.retain fun _ p => p.readyAt.isNone).keys, slot ∈ r.pending.keys := by
    intro slot hslot
    obtain ⟨p, hget⟩ := (OrderedMap.mem_keys ..).mp hslot
    exact OrderedMap.mem_keys_of_get ((OrderedMap.get_retain ..).mp hget).1
  obtain ⟨deadlines, s, heq, hkeys, hp⟩ := gather_computeDeadline_ok _ h hh hslots
  have hunset : ∀ slot p, s.pending.get slot = some p → p.readyAt = none → slot ∈ deadlines.map Prod.fst := by
    intro slot p hget hnone
    rw [hp] at hget
    rw [hkeys]
    exact OrderedMap.mem_keys_of_get ((OrderedMap.get_retain ..).mpr ⟨hget, Option.isNone_iff_eq_none.mpr hnone⟩)
  have hset := triple_setDeadlines deadlines s hunset
  have hcall : assignDeadlines now r = setDeadlines deadlines s := by
    show (gather (computeDeadline now) _ >>= setDeadlines) r = _
    rw [bind_apply, heq]
  rw [hcall]
  cases hx : setDeadlines deadlines s with
  | ok u s' =>
    rw [hx] at hset
    exact ⟨s', rfl, hset⟩
  | error e s' =>
    rw [hx] at hset
    exact hset.elim

end

/-! ### Polling -/

section
variable (m : String)

/-- Consecutive slots are counted, from one that is next or was counted before. -/
theorem triple_noteAll (decisions : List (Decision V)) :
    Triple (fun r : ReplicaRuntime V => r.tuner.auto = true ∧
      ∃ n, decisions.map (·.slot) = List.range' n decisions.length ∧
        n ≤ r.tuner.statsThrough + 1 ∧ n + decisions.length ≤ u64Max + 1)
      (orEach (fun d : Decision V => onTuner (EpochTuner.noteCommitted d.slot d.decidedStep)) decisions)
      (fun _ _ => True) fun e _ => e ≠ .policyError m := by
  refine (Triple.orEach (J := fun (rest : List (Decision V)) (r : ReplicaRuntime V) => r.tuner.auto = true ∧
    ∃ n, rest.map (·.slot) = List.range' n rest.length ∧ n ≤ r.tuner.statsThrough + 1 ∧ n + rest.length ≤ u64Max + 1)
    ?_ decisions).conseq (fun _ h => h) (fun _ _ _ => trivial) fun _ _ h => h
  rintro d rest r ⟨hauto, n, hslots, hnext, hbound⟩
  rw [List.map_cons, List.length_cons, List.range'_succ, List.cons.injEq] at hslots
  obtain ⟨rfl, hrest⟩ := hslots
  rw [List.length_cons] at hbound
  have hslot : d.slot ≤ u64Max := by lia
  have hcount : Triple (fun r : ReplicaRuntime V => r.tuner.auto = true ∧ d.slot ≤ r.tuner.statsThrough + 1)
      (onTuner (EpochTuner.noteCommitted d.slot d.decidedStep))
      (fun _ r => r.tuner.auto = true ∧ d.slot ≤ r.tuner.statsThrough) fun e _ => e ≠ .policyError m :=
    Triple.zoom (fun _ _ => rfl) (EpochTuner.triple_noteCommitted m hslot d.decidedStep)
  refine hcount.conseq (fun _ h => h) (fun _ s h => ?_) (fun _ _ h => h) r ⟨hauto, hnext⟩
  exact ⟨h.1, d.slot + 1, hrest, Nat.succ_le_succ h.2, by lia⟩

variable (henv : env.Neutral)
include henv

/-- What is ready is counted and delivered, if counting has passed the checkpoint. -/
theorem triple_dispatchCommitted :
    Triple (fun r : ReplicaRuntime V => r.runtimeSnapshot.Settled ∧ ¬r.replica.Jammed ∧ r.tuner.auto = true ∧
        r.replica.checkpointedThrough ≤ r.tuner.statsThrough)
      (dispatchCommitted env) (fun _ _ => True) fun e _ => e ≠ .policyError m := by
  rintro r ⟨hsettled, hcalm, hauto, hfloor⟩
  have hslots := hsettled.ready_slots hcalm
  have hbound : r.replica.nextCommit ≤ u64Max := hsettled.ordered.bound
  have hfrontier : r.replica.checkpointedThrough < r.replica.nextCommit := hsettled.ordered.frontier
  have hlength := congrArg List.length hslots
  rw [List.length_map, List.length_range'] at hlength
  simp only [dispatchCommitted, bind_apply (x := get), get_apply]
  refine Triple.bind (triple_noteAll m _) (fun changed => ?_) r ⟨hauto, r.replica.checkpointedThrough + 1, ?_, ?_, ?_⟩
  · refine (Avoids.bind (.onlyIf (avoids_persist m henv)) fun _ => ?_).triple
    exact .gather (avoids_deliver m henv) _
  · have hcommitted : r.replica.committedThrough = r.runtimeSnapshot.replica.nextCommit - 1 := rfl
    rw [hcommitted, show r.decisions = r.runtimeSnapshot.decisions from rfl, hslots, hlength]
    rfl
  · exact Nat.succ_le_succ hfloor
  · have hcount : (r.decisions.upTo r.replica.committedThrough).values.length =
        r.replica.nextCommit - 1 - r.replica.checkpointedThrough := hlength
    rw [hcount]
    lia

variable [DecidableEq V]

/-- The decision is stored with everything before it still counted. -/
theorem triple_storeDecision_current (d : Decision V) :
    Triple (fun r : ReplicaRuntime V => r.Current ∧ r.validateDecision d = .ok () ∧
      r.replica.checkpointedThrough < d.slot)
      (storeDecision env d)
      (fun _ r => r.runtimeSnapshot.Settled ∧ ¬r.replica.Jammed ∧ r.tuner.auto = true ∧
        r.replica.checkpointedThrough ≤ r.tuner.statsThrough)
      fun e _ => e ≠ .policyError m := by
  rintro r ⟨hr, hvalid, hlive⟩
  have hsettled := hr.paced.now.settled
  have hfloor : r.replica.checkpointedThrough ≤ r.tuner.statsThrough := by
    rw [hr.counted]
    exact Nat.le_sub_one_of_lt hsettled.ordered.frontier
  simp only [storeDecision, bind_apply, get_apply]
  cases hget : r.decisions.get d.slot with
  | some existing =>
    simp only [require]
    split_ifs
    · exact ⟨hsettled, hr.calm, hr.paced.auto, hfloor⟩
    · intro hpolicy
      cases hpolicy
  | none =>
    have hspec := ReplicaCore.triple_applyDecision hsettled.ordered d r.replica rfl
    have herror := ReplicaCore.avoids_applyDecision m d r.replica
    simp only [result] at herror
    simp only [onReplica, zoom, bind_apply]
    cases happly : ReplicaCore.applyDecision d r.replica with
    | error e replica =>
      rw [happly] at herror
      exact fun h => herror (congrArg _ h)
    | ok ds replica =>
      rw [happly] at hspec
      have hstored : (retainDecision { r with replica } d).runtimeSnapshot.Settled :=
        hsettled.retain rfl hlive hspec.1 rfl rfl
      have hcalm : ¬replica.Jammed := ReplicaCore.calm_applyDecision hsettled.ordered hr.calm happly
      have hcheckpoint : replica.checkpointedThrough ≤ r.tuner.statsThrough := by
        rw [hspec.1.checkpointedThrough]
        exact hfloor
      simp only [modify_apply, persist_eq]
      have hsave := henv.save m (retainDecision { r with replica } d).trace
        (retainDecision { r with replica } d).runtimeSnapshot
      cases hx : env.save (retainDecision { r with replica } d).trace
        (retainDecision { r with replica } d).runtimeSnapshot with
      | ok u => exact ⟨hstored, hcalm, hr.paced.auto, hcheckpoint⟩
      | error e =>
        rw [hx] at hsave
        exact fun h => hsave (congrArg _ h)

private theorem triple_acceptDecision (d : Decision V) :
    Triple Current (acceptDecision env d) (fun _ _ => True) fun e _ => e ≠ .policyError m := by
  intro r hr
  have hnever := never_validateDecision m r d
  simp only [acceptDecision, bind_apply (x := get), get_apply]
  cases hvalid : r.validateDecision d with
  | error e =>
    rw [hvalid] at hnever
    exact fun h => hnever (congrArg _ h)
  | ok u =>
    by_cases hlive : d.slot ≤ r.replica.checkpointedThrough
    · simp only [bind_apply, check_ok, hlive, if_true]
      trivial
    · simp only [bind_apply (x := check _), check_ok, hlive, if_false]
      refine Triple.bind (triple_storeDecision_current m henv d) (fun _ => ?_) r ⟨hr, hvalid, not_le.mp hlive⟩
      refine Triple.bind (triple_dispatchCommitted m henv) fun delivered => ?_
      exact (Avoids.bind (avoids_flushDecisionNotifications m henv) fun _ => .pure _).triple

private theorem triple_runProposal (slot : SlotIndex) (schedule : EpochSchedule) :
    Triple Current (runProposal env slot schedule) (fun _ _ => True) fun e _ => e ≠ .policyError m := by
  have hquiet : ∀ r r', Current r → Quiet env r r' → Current r' := fun _ _ => Current.quiet
  intro r hr
  simp only [runProposal, bind_apply (x := get), get_apply]
  cases hget : r.pending.get slot with
  | none =>
    intro hpolicy
    cases hpolicy
  | some p =>
    cases hleader : schedule.leader with
    | error e =>
      unfold EpochSchedule.leader at hleader
      split at hleader
      · cases hleader
      · cases hleader
        intro hpolicy
        cases hpolicy
    | ok leader =>
      have hnever := henv.propose m r.trace ⟨slot, p.valueIds, some leader, r.recorders, []⟩
      have hlogged : Quiet env r (r.log (.proposed ⟨slot, p.valueIds, some leader, r.recorders, []⟩
          (env.propose r.trace ⟨slot, p.valueIds, some leader, r.recorders, []⟩))) := .proposed hget leader _
      simp only [bind_apply (x := check _), check_ok, request]
      cases hresult : env.propose r.trace ⟨slot, p.valueIds, some leader, r.recorders, []⟩ with
      | error e =>
        rw [hresult] at hnever
        exact fun h => hnever (congrArg _ h)
      | ok decision =>
        rw [hresult] at hlogged
        exact triple_acceptDecision m henv decision _ (hquiet _ _ (hquiet _ _ hr hlogged) (.observed _ _))

/-- Each turn finds the schedule of an armed slot. -/
theorem triple_pollStep (now : Instant) :
    Triple Current (pollStep env now ()) (fun next r => next.elim (fun _ => r.Current) fun _ => True)
      fun e _ => e ≠ .policyError m := by
  have hquiet : ∀ r r', Current r → Quiet env r r' → Current r' := fun _ _ => Current.quiet
  intro r hr
  simp only [pollStep, bind_apply (x := get), get_apply]
  cases hdue : r.nextDeadline with
  | none => trivial
  | some e =>
    obtain ⟨slot, deadline⟩ := e
    obtain ⟨_, hpending, _⟩ := get_of_nextDeadline hdue
    have hslot := OrderedMap.mem_keys_of_get hpending
    by_cases hwait : now < deadline
    · simp only [if_pos hwait]
      trivial
    · simp only [if_neg hwait]
      have hask : Triple (· = r) (ensureScheduleFor slot) (fun _ => Current) fun e _ => e ≠ .policyError m := by
        rintro s rfl
        have hkept := keeps_ensureScheduleFor hquiet slot s hr
        have hnever := EpochTuner.never_ensureSchedule m hr.paced.auto (hr.paced.hasHistory hslot)
        simp only [ensureScheduleFor, bind_apply, get_apply, onTuner, zoom, result] at hkept hnever ⊢
        cases hx : EpochTuner.ensureSchedule (s.config.epochFor slot) s.tuner with
        | ok schedule t =>
          rw [hx] at hkept
          exact hkept
        | error e t =>
          rw [hx] at hnever
          exact fun h => hnever (congrArg _ h)
      refine Triple.bind hask (fun schedule => ?_) r rfl
      refine Triple.bind ((keeps_deferForProgress hquiet _ _ _).avoiding (avoids_deferForProgress m slot schedule now))
        fun deferred => ?_
      refine Triple.ite (fun _ => Triple.pure fun _ h => h) fun _ => ?_
      exact Triple.bind (triple_runProposal m henv slot schedule) fun _ => Triple.pure fun _ _ => trivial

end

structure Prepared (now : Instant) (r : ReplicaRuntime V) : Prop where
  current : r.Current
  reach : r.WithinReach
  hedged : r.Hedged now

theorem Hedged.frame (h : r.Hedged now) (hconfig : r'.config = r.config) (hdelay : r'.hedgeDelay = r.hedgeDelay) :
    r'.Hedged now := by
  constructor
  · rw [hconfig]
    exact h.member
  · rw [hconfig]
    exact h.turns
  · rw [hconfig, hdelay]
    exact h.delay
  · rw [hconfig, hdelay]
    exact h.deadline

theorem keeps_persist_hedged : Keeps (Hedged now) (persist env) :=
  Keeps.bind Keeps.get fun _ => Keeps.bind (Keeps.modify fun _ h => h.frame rfl rfl) fun _ => Keeps.check _

private theorem keeps_flush_hedged : Keeps (Hedged now) (flushDecisionNotifications env) := by
  have hannounce : ∀ decision recorder, Keeps (Hedged now) (announce env decision recorder) := by
    intro decision recorder r hr
    simp only [announce]
    by_cases hdone : recorder ∈ (r.announcedTo.get decision.1).getD ∅
    · rw [if_pos hdone]
      exact hr
    · rw [if_neg hdone]
      cases env.inform r.trace recorder decision.2 with
      | error e => exact hr.frame rfl rfl
      | ok u => exact hr.frame rfl rfl
  refine Keeps.bind Keeps.get fun r => Keeps.bind (Keeps.orEach fun decision _ => Keeps.orEach fun recorder _ => ?_)
    fun changed => ?_
  · exact hannounce decision recorder
  · exact Keeps.onlyIf fun _ => keeps_persist_hedged

section
variable [DecidableEq V]

private theorem Prepared.arming (h : r.Prepared now) (ha : Arming r r') : r'.Prepared now := by
  obtain ⟨hpaced, hreach⟩ := h.current.paced.arming h.reach ha
  cases ha with
  | lost n =>
    exact ⟨⟨hpaced, h.current.counted, h.current.calm⟩, hreach, h.hedged.member, h.hedged.turns, h.hedged.delay,
      h.hedged.deadline⟩
  | @armed slot values n =>
    have hsame := (ReplicaCore.sameOutcome_drain r.replica n).trans
      (ReplicaCore.sameOutcome_proposed { r.replica with pending := r.replica.pending.drop n } slot values)
    refine ⟨⟨hpaced, h.current.counted, fun hjam => h.current.calm (hsame.jammed.mp hjam)⟩, hreach, ?_⟩
    exact ⟨h.hedged.member, h.hedged.turns, h.hedged.delay, h.hedged.deadline⟩

theorem keeps_armProposals_prepared : Keeps (Prepared now) (armProposals (V := V)) :=
  keeps_armProposals fun _ _ => Prepared.arming

theorem keeps_prepared {α : Type} {x : EStateM QuePaxaError (ReplicaRuntime V) α} (hh : Keeps (Hedged now) x)
    (hx : ∀ {I : ReplicaRuntime V → Prop}, (∀ r r', I r → Quiet env r r' → I r') → Keeps I x) :
    Keeps (Prepared now) x := by
  have hquiet : ∀ r r', (Current r ∧ WithinReach r) → Quiet env r r' → Current r' ∧ WithinReach r' :=
    fun _ _ h hq => ⟨h.1.quiet hq, h.2.quiet h.1.paced.auto hq⟩
  exact ((hx hquiet).and hh).conseq (fun _ h => ⟨⟨h.current, h.reach⟩, h.hedged⟩) (fun _ _ h => ⟨h.1.1, h.1.2, h.2⟩)
    fun _ _ h => ⟨h.1.1, h.1.2, h.2⟩

variable (m : String) (henv : env.Neutral)
include henv

theorem triple_armAvailable (now : Instant) :
    Triple (Prepared now) (armAvailable env now) (fun _ => Current) fun e _ => e ≠ .policyError m := by
  have hquiet : ∀ r r', Current r → Quiet env r r' → Current r' := fun _ _ => Current.quiet
  have hsave : Keeps (Prepared now) (persist env) := keeps_prepared keeps_persist_hedged keeps_persist
  have hassign : Triple (Prepared now) (assignDeadlines (V := V) now) (fun _ => Current)
    fun e _ => e ≠ .policyError m := by
    intro r hr
    have hkept := keeps_assignDeadlines hquiet now r hr.current
    obtain ⟨s, hok, _⟩ := assignDeadlines_ok hr.current hr.hedged
    rw [hok] at hkept ⊢
    exact hkept
  refine Triple.bind (keeps_armProposals_prepared.avoiding (avoids_armProposals m)) fun changed => ?_
  refine Triple.bind ((Keeps.onlyIf fun _ => hsave).avoiding (.onlyIf (avoids_persist m henv))) fun _ => ?_
  refine Triple.bind hassign fun _ => ?_
  exact (Keeps.bind Keeps.get fun _ => Keeps.pure _).avoiding (.bind .get fun _ => .pure _)

private theorem triple_poll (now : Instant) : Triple (Prepared now) (poll env now) (fun _ _ => True)
    fun e _ => e ≠ .policyError m := by
  have hflush : Keeps (Prepared now) (flushDecisionNotifications env) :=
    keeps_prepared keeps_flush_hedged keeps_flushDecisionNotifications
  refine Triple.bind (hflush.avoiding (avoids_flushDecisionNotifications m henv)) fun _ => ?_
  refine Triple.bind (triple_armAvailable m henv now) fun armed => ?_
  exact Triple.loop (J := fun _ => Current) (fun _ => triple_pollStep m henv now) (fun _ _ _ => trivial) _ ()

end
end ReplicaRuntime

namespace Deployment
variable [DecidableEq V]

/-- Within reach, every armed slot has a schedule and is given a deadline, and neither arming
nor polling fails with a policy error. -/
theorem armed_slots_are_scheduled (env : Environment V) (henv : env.Neutral) (actions : List (DeploymentAction V))
    (hpaced : Along (step env) PacedStep Process.fresh actions) (r : ReplicaRuntime V)
    (hrun : run (step env) Process.fresh actions = .up r) (now : Instant)
    (hcounted : r.tuner.statsThrough = r.replica.committedThrough) (hcalm : ¬r.replica.Jammed) (hreach : r.WithinReach)
    (hhedged : r.Hedged now) :
    (∀ slot ∈ (after ReplicaRuntime.armProposals r).pending.keys,
      ∃ schedule s, ReplicaRuntime.ensureScheduleFor slot (after ReplicaRuntime.armProposals r) = .ok schedule s) ∧
    (∃ s, ReplicaRuntime.assignDeadlines now (after ReplicaRuntime.armProposals r) = .ok () s ∧
      ∀ slot p, s.pending.get slot = some p → p.readyAt ≠ none) ∧
    (∀ m, Never (.policyError m) (result (ReplicaRuntime.armAvailable env now) r)) ∧
    ∀ m, Never (.policyError m) (result (ReplicaRuntime.poll env now) r) := by
  have hup : (run (step env) Process.fresh actions).Upholds ReplicaRuntime.Paced (StoredAll RuntimeSnapshot.InReach) :=
    paced_run hpaced
  rw [hrun] at hup
  have hprepared : r.Prepared now := ⟨⟨hup, hcounted, hcalm⟩, hreach, hhedged⟩
  have harmed : (after ReplicaRuntime.armProposals r).Prepared now :=
    ReplicaRuntime.keeps_armProposals_prepared.after hprepared
  refine ⟨fun slot hslot => ?_, ReplicaRuntime.assignDeadlines_ok harmed.current harmed.hedged, ?_, ?_⟩
  · obtain ⟨schedule, _, hask⟩ := harmed.current.ensureScheduleFor_ok harmed.hedged.member hslot
    exact ⟨schedule, _, hask⟩
  · exact fun m => (ReplicaRuntime.triple_armAvailable m henv now).never hprepared
  · exact fun m => (ReplicaRuntime.triple_poll m henv now).never hprepared

/-! Replica 1 with epochs of two slots and a pipeline of two. It learns slots from 2 on while
slot 1 is open, and then takes two values from its clients. -/

def pairwise : ReplicaRuntimeConfig :=
  ⟨1, 1, ⟨[1, 2, 3], 1, 0, none⟩, { ReplicaConfig.default with batchSize := 1, pipelineLen := 2 }, 2, 0, true, none⟩

def learnsPastGap (n : Nat) : List (DeploymentAction Nat) :=
  .process (.restart pairwise ⟨1, 1, ProposerConfig.default⟩ [1, 2, 3] none) ::
    ((List.range' 2 n).map fun slot => .process (.call (.receiveDecision ⟨slot, [10 * slot], 2, 4⟩))) ++
    [.process (.call (.submit [1, 2]))]

private theorem pairwise_built :
    (ReplicaRuntimeConfig.new 1 1 [1, 2, 3] 1 { ReplicaConfig.default with batchSize := 1, pipelineLen := 2 } 2 0 >>=
      ReplicaRuntimeConfig.withAutoSchedules) = .ok pairwise := by decide

/-- After twelve slots the second value goes to slot 14, whose epoch cannot be ranked yet. The
proposal at the frontier then has no deadline either. -/
theorem frontier_waits_for_a_far_slot :
    ∃ r : ReplicaRuntime Nat, run (step .obliging) Process.fresh (learnsPastGap 12) = .up r ∧
      (after ReplicaRuntime.armProposals r).pending.keys = [r.replica.nextCommit, 14] ∧
      (∃ m, result (ReplicaRuntime.poll .obliging 0) r = .error (.policyError m)) ∧
      ((after (ReplicaRuntime.poll .obliging 0) r).pending.get r.replica.nextCommit).map (·.readyAt) = some none := by
  have hwaits : (run (step .obliging) Process.fresh (learnsPastGap 12)).passes (fun r =>
      decide ((after ReplicaRuntime.armProposals r).pending.keys = [r.replica.nextCommit, 14] ∧
        result (ReplicaRuntime.poll .obliging 0) r =
          .error (.policyError "epoch 7 schedule requires committed history through slot 11") ∧
        ((after (ReplicaRuntime.poll .obliging 0) r).pending.get r.replica.nextCommit).map (·.readyAt) = some none)) =
      true := by decide +kernel
  obtain ⟨r, hup, hresult⟩ := Process.up_of_passes hwaits
  obtain ⟨hkeys, hpoll, hunset⟩ := of_decide_eq_true hresult
  exact ⟨r, hup, hkeys, ⟨_, hpoll⟩, hunset⟩

/-- One slot past the gap is within reach: slots 1 and 3 are armed and given deadlines. -/
theorem armed_slots_are_scheduled_gap :
    ∃ r : ReplicaRuntime Nat, run (step .obliging) Process.fresh (learnsPastGap 1) = .up r ∧
      (after ReplicaRuntime.armProposals r).pending.keys = [1, 3] ∧
      ∃ s, ReplicaRuntime.assignDeadlines 0 (after ReplicaRuntime.armProposals r) = .ok () s ∧
        ∀ slot p, s.pending.get slot = some p → p.readyAt ≠ none := by
  have hconstructed : pairwise.Constructed := by
    obtain ⟨config, hnew, hauto⟩ := except_bind_eq_ok.mp pairwise_built
    exact .withAutoSchedules (.new hnew) hauto
  have hpaced : Along (step .obliging) PacedStep Process.fresh (learnsPastGap 1) :=
    ⟨⟨hconstructed, rfl⟩, pacedStep_of_unarmed rfl _, pacedStep_of_unarmed rfl _, trivial⟩
  have hneutral : (Environment.obliging : Environment Nat).Neutral :=
    ⟨fun _ _ _ => Never.ok _, fun _ _ _ => Never.ok _, fun _ _ _ => Never.ok _, fun _ _ _ => Never.error (by simp)⟩
  have harmed : (run (step .obliging) Process.fresh (learnsPastGap 1)).passes (fun r =>
      decide ((after ReplicaRuntime.armProposals r).pending.keys = [1, 3] ∧
        r.tuner.statsThrough = r.replica.committedThrough ∧ r.replica.isCommitted u64Max = false ∧ r.WithinReach ∧
        r.config.replicaId ∈ r.config.members ∧ r.config.members.length ≤ 2 ^ 32 ∧ r.hedgeDelay.current = 0)) =
          true := by
    decide +kernel
  obtain ⟨r, hup, hresult⟩ := Process.up_of_passes harmed
  obtain ⟨hkeys, hcounted, hopen, hreach, hmember, hturns, hdelay⟩ := of_decide_eq_true hresult
  have hscheduled := armed_slots_are_scheduled .obliging hneutral (learnsPastGap 1) hpaced r hup
  have hcalm : ¬r.replica.Jammed := fun hjam => Bool.false_ne_true (hopen.symm.trans hjam)
  have hhedged : r.Hedged 0 := by
    refine ⟨hmember, hturns, ?_, ?_⟩ <;> rw [hdelay, Nat.zero_mul] <;> decide
  exact ⟨r, hup, hkeys, (hscheduled 0 hcounted hcalm hreach hhedged).2.1⟩

end Deployment
end QuePaxa
