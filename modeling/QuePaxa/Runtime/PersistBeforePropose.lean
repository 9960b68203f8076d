import QuePaxa.Runtime.Process
import QuePaxa.Runtime.WriteAhead

/-! Proposals of the runtime are written ahead of being proposed, as long as no call that
claims slots fails between the claim and its save. -/
namespace QuePaxa
open Library
variable {V : Type}
variable {r r' : ReplicaRuntime V} {env : Environment V}

def Event.offered : Event V → Option (Offer V)
  | .proposed call _ => some (call.slot, call.valueIds)
  | _ => none

def eventReading : Reading (Event V) V := ⟨Event.stored, Event.offered⟩

namespace ReplicaRuntime

structure Recorded (r : ReplicaRuntime V) : Prop where
  covers : Covers r.replica.snapshot r.armedValues (eventReading.offers r.trace)
  orderly : eventReading.Orderly r.trace

structure Durable (r : ReplicaRuntime V) : Prop extends r.Recorded where
  written : eventReading.Written r.armedValues r.trace

private theorem armedValues_runtimeSnapshot (r : ReplicaRuntime V) : r.runtimeSnapshot.armed = r.armedValues := by
  simp only [RuntimeSnapshot.armed, runtimeSnapshot, armedValues, OrderedMap.mapValues_mapValues]
  rfl

theorem Recorded.saved (h : r.Recorded) (hreplica : r'.replica = r.replica)
    (harmed : r'.armedValues = r.armedValues) (htrace : r'.trace = r.trace) :
    (r'.log (.saved r'.runtimeSnapshot (.ok ()))).Durable := by
  have hcovers : Covers r'.replica.snapshot r'.runtimeSnapshot.armed (eventReading.offers r'.trace) := by
    rw [armedValues_runtimeSnapshot, hreplica, harmed, htrace]
    exact h.covers
  have hoffers : eventReading.offers (r'.trace ++ [.saved r'.runtimeSnapshot (.ok ())]) =
    eventReading.offers r'.trace :=
    Reading.offers_of_none rfl
  have hwritten : eventReading.Written r'.runtimeSnapshot.armed (r'.trace ++ [.saved r'.runtimeSnapshot (.ok ())]) :=
    Reading.written_saved rfl
  rw [armedValues_runtimeSnapshot] at hwritten hcovers
  refine ⟨⟨?_, ?_⟩, hwritten⟩
  · simp only [log, hoffers]
    exact hcovers
  · apply Reading.Orderly.saved (htrace ▸ h.orderly) rfl rfl
    rw [armedValues_runtimeSnapshot]
    exact hcovers

theorem Recorded.log {e : Event V} (h : r.Recorded) (hoffered : e.offered = none)
    (hstored : e.stored = none) : (r.log e).Recorded :=
  ⟨by simp only [ReplicaRuntime.log, Reading.offers_of_none (R := eventReading) hoffered]; exact h.covers,
    h.orderly.neutral hoffered hstored⟩

theorem Durable.log {e : Event V} (h : r.Durable) (hoffered : e.offered = none)
    (hstored : e.stored = none) : (r.log e).Durable :=
  ⟨h.toRecorded.log hoffered hstored, h.written.concat hstored⟩

private theorem Recorded.congr (h : r.Recorded) (hreplica : r'.replica = r.replica)
    (harmed : r'.armedValues = r.armedValues) (htrace : r'.trace = r.trace) : r'.Recorded :=
  ⟨by rw [hreplica, harmed, htrace]; exact h.covers, htrace ▸ h.orderly⟩

theorem Durable.congr (h : r.Durable) (hreplica : r'.replica = r.replica)
    (harmed : r'.armedValues = r.armedValues) (htrace : r'.trace = r.trace) : r'.Durable :=
  ⟨h.toRecorded.congr hreplica harmed htrace, by rw [harmed, htrace]; exact h.written⟩

private theorem Durable.propose (h : r.Durable) {slot : SlotIndex} {p : PendingProposal V}
    (hget : r.pending.get slot = some p) (leader : ReplicaId) (result : Result (Decision V)) :
    (r.log (.proposed ⟨slot, p.valueIds, some leader, r.recorders, []⟩ result)).Durable := by
  have harmed := get_armedValues hget
  refine ⟨⟨?_, h.orderly.offer h.covers h.written harmed rfl rfl⟩, h.written.concat rfl⟩
  simp only [ReplicaRuntime.log, Reading.offers_concat]
  exact h.covers.offer harmed

theorem Durable.quiet (h : r.Durable) (hq : Quiet env r r') :
    r'.Durable := by
  have hsame := hq.samePipeline
  cases hq with
  | saved =>
    cases env.save r.trace r.runtimeSnapshot with
    | ok u => exact h.toRecorded.saved rfl rfl rfl
    | error e => exact h.log rfl rfl
  | proposed pending leader result => exact h.propose pending leader result
  | counted | scheduled | timed | observed => exact h.congr hsame.replica hsame.armedValues rfl
  | acknowledged | executed | notified => exact (h.log rfl rfl).congr hsame.replica hsame.armedValues rfl
  | informed | executeFailed | notifyFailed | probed | installing => exact h.log rfl rfl

private theorem Durable.retain (h : r.Durable) (d : Decision V) : (r.retainDecision d).Durable := by
  refine ⟨⟨?_, h.orderly⟩, ?_⟩
  · rw [armedValues_retainDecision]
    exact h.covers.sub fun _ _ => OrderedMap.get_of_get_erase
  · rw [armedValues_retainDecision]
    exact h.written.sub fun _ _ => OrderedMap.get_of_get_erase

private theorem Recorded.durable {s : ReplicaRuntime V} (h : s.Recorded) (hr : r.Durable)
    (hpending : s.pending = r.pending)
    (htrace : s.trace = r.trace) : s.Durable := by
  refine ⟨h, ?_⟩
  rw [armedValues, hpending, htrace]
  exact hr.written

section
variable [DecidableEq V]

theorem Durable.change {replica : ReplicaCore V} (h : r.Durable)
    (hc : ReplicaCore.Change r.replica replica) : { r with replica }.Durable :=
  ⟨⟨h.covers.change hc, h.orderly⟩, h.written⟩

private theorem Durable.onReplica {α : Type} {x : EStateM QuePaxaError (ReplicaCore V) α}
    (hx : ∀ I : ReplicaCore V → Prop, (∀ s s', I s → ReplicaCore.Change s s' → I s') → Keeps I x) (h : r.Durable) :
    { r with replica := after x r.replica }.Durable := by
  have hkeeps := hx (fun replica => ({ r with replica } : ReplicaRuntime V).Durable) fun s s' hs hc => hs.change hc
  exact hkeeps.after (s := r.replica) h

theorem Durable.move {op : RuntimeOp V} (h : r.Durable) (hm : Move env op r r') :
    r'.Durable := by
  cases hm with
  | quiet hq => exact h.quiet hq
  | @enqueued values => exact h.onReplica fun I hI => ReplicaCore.keeps_enqueue hI values
  | @decided d ds replica _ fresh applied =>
    have happly := h.onReplica (x := ReplicaCore.applyDecision d) fun I hI => ReplicaCore.keeps_applyDecision hI d
    rw [after_ok applied] at happly
    exact happly.retain d
  | @refused d e replica _ fresh applied =>
    have happly := h.onReplica (x := ReplicaCore.applyDecision d) fun I hI => ReplicaCore.keeps_applyDecision hI d
    rw [after_error applied] at happly
    exact happly
  | scheduleInstalled | reconnected => exact h.congr rfl rfl rfl
  | @pruned slot =>
    exact (h.change (.prune slot)).congr rfl rfl rfl
  | reconfigured => exact h.toRecorded.saved rfl rfl rfl
  | exported | reconfigureFailed => exact h.log rfl rfl

/-- Claiming a slot goes against no earlier proposal, even before it is saved. -/
theorem Recorded.arming (h : r.Recorded) (ha : Arming r r') : r'.Recorded := by
  cases ha with
  | armed n isOpen admitted =>
    refine ⟨?_, h.orderly⟩
    rw [armedValues_insert]
    exact (h.covers.change (.drain n)).arm (.propose admitted) isOpen (ReplicaCore.claimed_proposed admitted)
  | lost n => exact ⟨h.covers.change (.drain n), h.orderly⟩

private structure ArmedFrom (r : ReplicaRuntime V) (changed : Bool) (s : ReplicaRuntime V) : Prop where
  recorded : s.Recorded
  trace : s.trace = r.trace
  idle : changed = false → s.pending = r.pending

private theorem triple_armProposals (r : ReplicaRuntime V) :
    Triple (ArmedFrom r false) armProposals (ArmedFrom r) fun _ => ArmedFrom r true := by
  have hclaim : ∀ changed s s', ArmedFrom r changed s → Arming s s' → ArmedFrom r true s' :=
    fun changed s s' hs ha => ⟨hs.recorded.arming ha, ha.trace.trans hs.trace, fun h => nomatch h⟩
  have hweaken : ∀ changed s, ArmedFrom r changed s → ArmedFrom r true s :=
    fun changed s hs => ⟨hs.recorded, hs.trace, fun h => nomatch h⟩
  have hturn : ∀ changed, Triple (ArmedFrom r changed) (armNext changed)
      (fun next s => next.elim (ArmedFrom r · s) (ArmedFrom r · s)) fun _ => ArmedFrom r true := by
    intro changed s hs
    rcases armNext_cases changed s with ⟨s', heq, harm⟩ | heq | ⟨e, s', heq, rfl | harm⟩
    · rw [heq]
      exact hclaim changed s s' hs harm
    · rw [heq]
      exact hs
    · rw [heq]
      exact hweaken changed s' hs
    · rw [heq]
      exact hclaim changed s s' hs harm
  refine Triple.bind (Q := fun _ => ArmedFrom r false) (fun s hs => hs) fun _ => ?_
  refine Triple.bind (Triple.loop hturn (fun _ _ h => h) _ false) fun changed => ?_
  intro s hs
  rcases armGapNoop_cases s with ⟨s', heq, harm⟩ | heq | ⟨e, heq⟩
  · rw [bind_apply, heq]
    simp only [pure_apply, Bool.or_true]
    exact hclaim changed s s' hs harm
  · rw [bind_apply, heq]
    simp only [pure_apply, Bool.or_false]
    exact hs
  · rw [bind_apply, heq]
    exact hweaken changed s hs

variable (env : Environment V)

/-- The call that claims slots does not fail between the claim and the end of its save. -/
def armsDurably (r : ReplicaRuntime V) : Bool :=
  match armProposals r with
  | .ok changed s => !changed || env.save s.trace s.runtimeSnapshot = .ok ()
  | .error _ s => s.pending = r.pending

def pollsDurably (r : ReplicaRuntime V) : Bool :=
  match flushDecisionNotifications env r with
  | .ok _ s => armsDurably env s
  | .error _ _ => true

variable {env}

/-- Arming that fails half-way leaves an unsaved claim behind, but a recorded one. -/
theorem armAvailable_durable (env : Environment V) (now : Instant) (h : r.Durable) :
    Triple (· = r) (armAvailable env now) (fun _ s => s.Durable)
      fun _ s => s.Recorded ∧ (armsDurably env r = true → s.Durable) := by
  have htail (c : Prop) : Triple Durable
      (assignDeadlines now >>= fun _ => get >>= fun r : ReplicaRuntime V => pure r.pending.size)
      (fun _ s => s.Durable) fun _ s => s.Recorded ∧ (c → s.Durable) := by
    have hquiet : ∀ r r' : ReplicaRuntime V, r.Durable → Quiet env r r' → r'.Durable := fun _ _ => Durable.quiet
    have hkeeps := keeps_assignDeadlines hquiet now
    refine Triple.bind (hkeeps.conseq (fun _ h => h) (fun _ _ h => h) ?_) fun _ s hs => hs
    exact fun _ s hs => ⟨hs.toRecorded, fun _ => hs⟩
  intro start hstart
  rw [hstart]
  have harm := triple_armProposals r r ⟨h.toRecorded, rfl, fun _ => rfl⟩
  simp only [armAvailable, bind_apply (x := armProposals), armsDurably]
  cases heq : armProposals r with
  | error e s =>
    rw [heq] at harm
    exact ⟨harm.recorded, fun hsame => harm.recorded.durable h (of_decide_eq_true hsame) harm.trace⟩
  | ok changed s =>
    rw [heq] at harm
    cases changed with
    | false => exact htail _ s (harm.recorded.durable h (harm.idle rfl) harm.trace)
    | true =>
      simp only [onlyIf, if_true, bind_apply (x := persist env), persist_eq]
      cases hsave : env.save s.trace s.runtimeSnapshot with
      | ok u => exact htail _ _ (harm.recorded.saved rfl rfl rfl)
      | error e => exact ⟨harm.recorded.log rfl rfl, fun hok => by simp at hok⟩

private theorem poll_durable (env : Environment V) (now : Instant) (h : r.Durable) :
    Triple (· = r) (poll env now) (fun _ s => s.Durable)
      fun _ s => s.Recorded ∧ (pollsDurably env r = true → s.Durable) := by
  intro start hstart
  rw [hstart]
  have hquiet : ∀ r r' : ReplicaRuntime V, r.Durable → Quiet env r r' → r'.Durable := fun _ _ => Durable.quiet
  have hflush := keeps_flushDecisionNotifications hquiet r h
  simp only [poll, bind_apply (x := flushDecisionNotifications env), pollsDurably]
  cases heq : flushDecisionNotifications env r with
  | error e s =>
    rw [heq] at hflush
    exact ⟨hflush.toRecorded, fun _ => hflush⟩
  | ok u s =>
    rw [heq] at hflush
    refine Triple.bind (armAvailable_durable env now hflush) (fun armed => ?_) s rfl
    have hmove : ∀ r r' : ReplicaRuntime V, r.Durable → Move env (.poll now) r r' → r'.Durable :=
      fun _ _ => Durable.move
    have hloop := keeps_pollLoop hmove rfl (armed + 1)
    exact hloop.conseq (fun _ h => h) (fun _ _ h => h) fun _ s hs => ⟨hs.toRecorded, fun _ => hs⟩

def callsDurably (env : Environment V) (r : ReplicaRuntime V) : RuntimeOp V → Bool
  | .armAvailable _ => armsDurably env r
  | .poll _ => pollsDurably env r
  | _ => true

private theorem perform_durable (env : Environment V) (op : RuntimeOp V) (h : r.Durable) :
    (after (perform env op) r).Recorded ∧ (callsDurably env r op = true → (after (perform env op) r).Durable) := by
  by_cases harms : op.arms = false
  · have hmove : ∀ r r' : ReplicaRuntime V, r.Durable → Move env op r r' → r'.Durable := fun _ _ => Durable.move
    have hkeeps := (keeps_perform hmove harms).after h
    exact ⟨hkeeps.toRecorded, fun _ => hkeeps⟩
  cases op with
  | armAvailable now =>
    have harm := armAvailable_durable env now h r rfl
    have hstate : after (perform env (.armAvailable now)) r = after (armAvailable env now) r :=
      after_bind_pure (fun _ => ()) _ r
    rw [hstate]
    simp only [after, callsDurably]
    cases hx : armAvailable env now r with
    | ok n s => rw [hx] at harm; exact ⟨harm.toRecorded, fun _ => harm⟩
    | error e s => rw [hx] at harm; exact harm
  | poll now =>
    have hpoll := poll_durable env now h r rfl
    have hstate : after (perform env (.poll now)) r = after (poll env now) r := after_bind_pure (fun _ => ()) _ r
    rw [hstate]
    simp only [after, callsDurably]
    cases hx : poll env now r with
    | ok n s => rw [hx] at hpoll; exact ⟨hpoll.toRecorded, fun _ => hpoll⟩
    | error e s => rw [hx] at hpoll; exact hpoll
  | _ => exact absurd rfl harms

private theorem new_durable {config : ReplicaRuntimeConfig} {proposer : ProposerCore} {recorders : List ReplicaId}
    {trace : List (Event V)} (h : eventReading.Orderly trace)
    (hnew : new config proposer recorders (lastSaved trace) trace = .ok r) : r.Durable := by
  simp only [new, except_bind_eq_ok] at hnew
  obtain ⟨_, _, _, _, r', hbuild, _, _, hr⟩ := hnew
  obtain rfl : r' = r := Except.ok.inj hr
  cases hsaved : lastSaved trace with
  | none =>
    have hempty : eventReading.offers trace = [] := by
      have hres := h.resumable.now
      have hnone : eventReading.lastSaved trace = none := hsaved
      simpa only [Reading.Resumable, hnone] using hres
    rw [hsaved] at hbuild
    obtain rfl := Except.ok.inj hbuild
    refine ⟨⟨?_, h⟩, fun slot values hget => by simp [armedValues] at hget⟩
    rw [hempty]
    exact Covers.new config.replica
  | some s =>
    rw [hsaved] at hbuild
    simp only [rebuild, except_bind_eq_ok] at hbuild
    obtain ⟨_, _, replica, hreplica, tuner, _, hr⟩ := hbuild
    obtain rfl := Except.ok.inj hr
    obtain rfl := ReplicaCore.restore_eq_ok hreplica
    have harmed : (s.pending.mapValues fun p => PendingProposal.armed p.valueIds).mapValues (·.valueIds) = s.armed := by
      rw [OrderedMap.mapValues_mapValues]
      rfl
    obtain ⟨hcovers, hwritten⟩ := h.resume hsaved
    exact ⟨⟨by rw [armedValues, harmed]; exact hcovers, h⟩, by rw [armedValues, harmed]; exact hwritten⟩

end
end ReplicaRuntime

namespace Process

def Accounted : Process V → Prop
  | .up r => r.Durable
  | .down trace => eventReading.Orderly trace

private theorem orderly_of_accounted {p : Process V} (h : p.Accounted) : eventReading.Orderly p.trace := by
  cases p with
  | up r => exact ReplicaRuntime.Recorded.orderly (ReplicaRuntime.Durable.toRecorded h)
  | down trace => exact h

variable [DecidableEq V]

def armsDurably (env : Environment V) : Process V → ProcessAction V → Bool
  | .up r, .call op => r.callsDurably env op
  | _, _ => true

private theorem accounted_step {p : Process V} {a : ProcessAction V} (h : p.Accounted)
    (hdurably : armsDurably env p a = true) : (p.step env a).Accounted := by
  cases p with
  | up r =>
    cases a with
    | call op => exact (r.perform_durable env op h).2 hdurably
    | crash op requests =>
      have hrecorded := (r.perform_durable env op h).1
      exact hrecorded.orderly.earlier (List.take_prefix ..)
    | restart => exact h
  | down trace =>
    cases a with
    | call | crash => exact h
    | restart config proposer recorders noop =>
      have horderly : eventReading.Orderly (trace ++ [.started]) := Reading.Orderly.neutral h rfl rfl
      have hstored : lastSaved (trace ++ [.started]) = lastSaved trace :=
        Reading.lastSaved_of_none (R := eventReading) rfl
      simp only [step]
      cases hnew : ReplicaRuntime.new config proposer recorders (lastSaved trace) (trace ++ [.started]) with
      | error e => exact h
      | ok r =>
        have hr : r.Durable := ReplicaRuntime.new_durable horderly (hstored ▸ hnew)
        cases noop with
        | none => exact hr
        | some value => exact hr.congr rfl rfl rfl

/-- Every proposal is the pending entry of the snapshot saved last, and a slot is never
proposed with two value lists, over all lifetimes of the process. -/
theorem proposes_only_what_is_saved (env : Environment V) (actions : List (ProcessAction V))
    (h : Along (step env) (fun p a => armsDurably env p a = true) fresh actions) :
    let trace := (run (step env) fresh actions).trace
    (∀ before call result, before ++ [.proposed call result] <+: trace →
      ∃ saved, lastSaved before = some saved ∧ saved.pending.get call.slot = some ⟨call.valueIds⟩) ∧
    ∀ call result call' result', .proposed call result ∈ trace → .proposed call' result' ∈ trace →
      call.slot = call'.slot → call.valueIds = call'.valueIds := by
  have hfresh : (fresh : Process V).Accounted := Reading.orderly_nil
  have horderly := orderly_of_accounted (run_invariant (fun p a => accounted_step) hfresh h)
  have hmem : ∀ {call : ProposeCall V} {result}, .proposed call result ∈ (run (step env) fresh actions).trace →
      (call.slot, call.valueIds) ∈ eventReading.offers (run (step env) fresh actions).trace :=
    fun hcall => List.mem_filterMap.mpr ⟨_, hcall, rfl⟩
  refine ⟨?_, ?_⟩
  · intro before call result hbefore
    exact horderly.writtenAhead before _ hbefore _ rfl
  · intro call result call' result' hcall hcall' hslot
    exact horderly.oneOfferPerSlot _ (hmem hcall) _ (hmem hcall') hslot

/-! A disk that is full for one save. The second save belongs to a poll that has claimed
slot 1 for value 5: the poll fails, and the next one has nothing to claim, so it proposes
the slot without a save. After a crash the slot is claimed again, for values 5 and 6. -/

def fullDisk (failures : Nat → Bool) : Environment Nat :=
  { Environment.obliging with
    save := fun trace _ =>
      if failures (trace.countP fun | .saved .. => true | _ => false) then .error (.storageError "disk full")
      else .ok () }

def bootReplicaOne : ProcessAction Nat :=
  .restart ⟨1, 0, ⟨[1, 2, 3], 1, 0, none⟩, ReplicaConfig.default, 100, 0, true, none⟩ ⟨1, 0, ProposerConfig.default⟩
    [1, 2, 3] none

def retriedAfterFailedSave : List (ProcessAction Nat) :=
  [bootReplicaOne, .call (.submit [5]), .call (.poll 0), .call (.poll 0), .crash .recover 0,
    bootReplicaOne, .call (.submit [6]), .call (.poll 0)]

theorem proposes_unsaved_values :
    let trace := (run (step (fullDisk (· = 1))) fresh retriedAfterFailedSave).trace
    (∃ before call result, before ++ [.proposed call result] <+: trace ∧
      (lastSaved before).any (fun saved => saved.pending.get call.slot = some ⟨call.valueIds⟩) = false) ∧
    ∃ call result call' result', .proposed call result ∈ trace ∧ .proposed call' result' ∈ trace ∧
      call.slot = call'.slot ∧ call.valueIds ≠ call'.valueIds := by
  refine ⟨⟨(run (step (fullDisk (· = 1))) fresh retriedAfterFailedSave).trace.take 3, ⟨1, [5], some 1, [1, 2, 3], []⟩,
    .error (.quorumNotReached 2 1), ?_, ?_⟩, ⟨1, [5], some 1, [1, 2, 3], []⟩, .error (.quorumNotReached 2 1),
    ⟨1, [5, 6], some 1, [1, 2, 3], []⟩, .error (.quorumNotReached 2 1), ?_, ?_, rfl, by decide⟩
  all_goals decide +kernel

def diedAfterFailedSave : List (ProcessAction Nat) :=
  [bootReplicaOne, .call (.submit [5]), .crash (.poll 0) 1, bootReplicaOne, .call (.submit [6]), .call (.poll 0)]

theorem proposes_only_what_is_saved_after_crash :
    let trace := (run (step (fullDisk (· = 1))) fresh diedAfterFailedSave).trace
    eventReading.offers trace = [(1, [5, 6])] ∧ ∀ before call result, before ++ [.proposed call result] <+: trace →
      ∃ saved, lastSaved before = some saved ∧ saved.pending.get call.slot = some ⟨call.valueIds⟩ := by
  have hrun : Along (step (fullDisk (· = 1))) (fun p a => armsDurably (fullDisk (· = 1)) p a = true) fresh
      diedAfterFailedSave := by
    refine ⟨rfl, ?_, rfl, rfl, ?_, ?_, trivial⟩ <;> decide +kernel
  exact ⟨by decide +kernel, (proposes_only_what_is_saved _ _ hrun).1⟩

end Process
end QuePaxa
