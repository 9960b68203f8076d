import QuePaxa.Runtime.Quiet

/-! The moves that change the pipeline, and the calls of the runtime as sequences of moves. -/
namespace QuePaxa
open Library
variable {V : Type}
variable {r : ReplicaRuntime V}

inductive RuntimeOp (V : Type) where
  | submit (valueIds : List V)
  | installEpochSchedule (schedule : EpochSchedule)
  | installMembership (change : MembershipChange V) (nextRecorders : List ReplicaId)
  | armAvailable (now : Instant)
  | poll (now : Instant)
  | receiveDecision (decision : Decision V)
  | recover
  | checkpointThrough (slot : SlotIndex)
  | createStateTransfer (slot : SlotIndex)
  deriving DecidableEq

def RuntimeOp.arms : RuntimeOp V → Bool
  | .armAvailable _ | .poll _ => true
  | _ => false

/-- The decisions a call may take in: the one it is given, or the answer of the proposer. -/
def RuntimeOp.Learns (env : Environment V) (op : RuntimeOp V) (d : Decision V) : Prop :=
  op = .receiveDecision d ∨ ∃ now trace call, op = .poll now ∧ env.propose trace call = .ok d

def RuntimeOp.Prunes (op : RuntimeOp V) (slot : SlotIndex) : Prop :=
  op = .checkpointThrough slot ∨ op = .createStateTransfer slot

namespace ReplicaRuntime

theorem activate_eq (env : Environment V) (change : MembershipChange V) (next : List ReplicaId)
    (s : ReplicaRuntime V) : activate env change next s =
    match env.save s.trace (s.reconfigured change next).runtimeSnapshot with
    | .ok () => .ok () ((s.reconfigured change next).log (.saved (s.reconfigured change next).runtimeSnapshot (.ok ())))
    | .error e => .error e (s.log (.saved (s.reconfigured change next).runtimeSnapshot (.error e))) := by
  have htrace : (s.reconfigured change next).trace = s.trace := rfl
  simp only [activate, bind_apply, get_apply, set_apply, tryCatch, tryCatchThe, MonadExceptOf.tryCatch,
    EStateM.tryCatch, persist, request, modify_apply, htrace]
  cases env.save s.trace (s.reconfigured change next).runtimeSnapshot <;> rfl

private theorem not_claimed_gap {gap : SlotIndex}
    (hgap : r.replica.committedThrough.checkedNext = some gap) (hblock : r.gapIsBlocking gap = true) :
    ¬r.replica.Claimed gap := by
  have hfrontier : r.replica.nextCommit ≤ gap := by
    rw [(SlotIndex.checkedNext_eq_some.mp hgap).2]
    exact Nat.le_succ_of_pred_le (le_refl _)
  simp only [gapIsBlocking, Bool.and_eq_true] at hblock
  have hfree : (r.replica.log.get gap).all (fun entry => !entry.taken) = true := hblock.2
  rintro (hlt | htaken)
  · exact absurd hlt (not_lt.mpr hfrontier)
  · cases hget : r.replica.log.get gap with
    | none => rw [hget] at htaken; cases htaken
    | some entry =>
      rw [hget] at htaken hfree
      simp only [Option.any_some, Option.all_some] at htaken hfree
      rw [htaken] at hfree
      cases hfree

theorem get_of_nextDeadline {slot : SlotIndex} {deadline : Instant}
    (h : r.nextDeadline = some (slot, deadline)) :
    ∃ p, r.pending.get slot = some p ∧ p.readyAt = some deadline := by
  have hfold : ∀ e, r.nextDeadline = some e → ∃ p, (e.1, p) ∈ r.pending.entries ∧ p.readyAt = some e.2 := by
    refine List.foldlRecOn (motive := fun best : Option (SlotIndex × Instant) =>
      ∀ e, best = some e → ∃ p, (e.1, p) ∈ r.pending.entries ∧ p.readyAt = some e.2) r.pending.entries _ ?_ ?_
    · intro e he
      cases he
    intro best hbest first hfirst e he
    split at he
    · exact hbest e he
    · next deadline hready =>
      cases he
      exact ⟨first.2, hfirst, hready⟩
    · next deadline slot earliest hready =>
      split_ifs at he
      · cases he
        exact ⟨first.2, hfirst, hready⟩
      · exact hbest e he
  obtain ⟨p, hp, hready⟩ := hfold (slot, deadline) h
  exact ⟨p, (OrderedMap.get_eq_some ..).mpr hp, hready⟩

variable [DecidableEq V]

structure Fresh (r : ReplicaRuntime V) (d : Decision V) : Prop where
  valid : r.validateDecision d = .ok ()
  live : r.replica.checkpointedThrough < d.slot
  new : r.decisions.get d.slot = none

structure Anchored (r : ReplicaRuntime V) (change : MembershipChange V) (next : List ReplicaId) : Prop where
  binding : change.validateBinding = .ok ()
  successor : change.next.isSuccessorOf r.config.cluster = true
  drained : r.ensureDrained change = .ok ()
  announced : r.ensureFullyAnnounced change.anchor.slot = .ok ()
  recorders : validateRecordersForCluster change.next next = .ok ()

inductive Move (env : Environment V) (op : RuntimeOp V) : ReplicaRuntime V → ReplicaRuntime V → Prop
  | quiet {r r' : ReplicaRuntime V} (h : Quiet env r r') : Move env op r r'
  | enqueued (r : ReplicaRuntime V) {values : List V} (asked : op = .submit values) :
      Move env op r { r with replica := after (ReplicaCore.enqueue values) r.replica }
  | decided {r : ReplicaRuntime V} {d : Decision V} {ds : List (Decision V)} {replica : ReplicaCore V}
      (learnt : op.Learns env d) (fresh : r.Fresh d)
      (applied : ReplicaCore.applyDecision d r.replica = .ok ds replica) :
      Move env op r (retainDecision { r with replica } d)
  | refused {r : ReplicaRuntime V} {d : Decision V} {e : QuePaxaError} {replica : ReplicaCore V}
      (learnt : op.Learns env d) (fresh : r.Fresh d)
      (applied : ReplicaCore.applyDecision d r.replica = .error e replica) : Move env op r { r with replica }
  | scheduleInstalled {r : ReplicaRuntime V} {schedule : EpochSchedule} (asked : op = .installEpochSchedule schedule)
      (valid : r.validateSchedule schedule = .ok ()) :
      Move env op r { r with tuner := after (EpochTuner.install schedule) r.tuner }
  | exported (r : ReplicaRuntime V) {through : SlotIndex} (asked : op = .createStateTransfer through)
      (result : Result (List UInt8)) : Move env op r (r.log (.exported through result))
  | pruned {r : ReplicaRuntime V} {slot : SlotIndex} (asked : op.Prunes slot)
      (committed : slot ≤ r.replica.committedThrough) (idle : (r.pending.upTo slot).keys = [])
      (announced : r.ensureFullyAnnounced slot = .ok ()) : Move env op r (r.pruned slot)
  | reconnected {r : ReplicaRuntime V} {change : MembershipChange V} {next : List ReplicaId}
      (asked : op = .installMembership change next) (same : change.next = r.config.cluster)
      (valid : validateRecordersForCluster r.config.cluster next = .ok ()) : Move env op r { r with recorders := next }
  | reconfigured {r : ReplicaRuntime V} {change : MembershipChange V} {next : List ReplicaId}
      (asked : op = .installMembership change next) (anchored : r.Anchored change next) :
      Move env op r ((r.reconfigured change next).log (.saved (r.reconfigured change next).runtimeSnapshot (.ok ())))
  | reconfigureFailed {r : ReplicaRuntime V} {change : MembershipChange V} {next : List ReplicaId}
      (e : QuePaxaError) (asked : op = .installMembership change next) (anchored : r.Anchored change next) :
      Move env op r (r.log (.saved (r.reconfigured change next).runtimeSnapshot (.error e)))

/-- Claiming an open slot, for values off the queue the lowest one, for the no-op the one at
the frontier. A failing claim may have emptied part of the queue. -/
inductive Arming : ReplicaRuntime V → ReplicaRuntime V → Prop
  | armed {r : ReplicaRuntime V} {slot : SlotIndex} {values : List V} (n : Nat) (isOpen : ¬r.replica.Claimed slot)
      (admitted : ReplicaCore.admitProposal { r.replica with pending := r.replica.pending.drop n } slot values = .ok ())
      (place : r.replica.inflightCount < r.replica.config.pipelineLen ∧ r.replica.TakenUpTo slot ∨
        slot = r.replica.committedThrough + 1) :
      Arming r { r with
        replica := ReplicaCore.proposed { r.replica with pending := r.replica.pending.drop n } slot values
        pending := r.pending.insert slot (.armed values) }
  | lost (r : ReplicaRuntime V) (n : Nat) :
      Arming r { r with replica := { r.replica with pending := r.replica.pending.drop n } }

theorem Arming.trace {r' : ReplicaRuntime V} (h : Arming r r') : r'.trace = r.trace := by
  cases h <;> rfl

/-- One turn of the arming loop claims a slot, or stops where it is, or fails. -/
theorem armNext_cases (changed : Bool) (r : ReplicaRuntime V) :
    (∃ r', armNext changed r = .ok (.inl true) r' ∧ Arming r r') ∨
    armNext changed r = .ok (.inr changed) r ∨
    ∃ e r', armNext changed r = .error e r' ∧ (r' = r ∨ Arming r r') := by
  simp only [armNext, onReplica, zoom, bind_apply]
  rcases ReplicaCore.nextProposal_cases r.replica with ⟨slot, values, replica, heq, harm⟩ | heq |
    ⟨e, replica, heq, hrep⟩
  · simp only [heq, bind_apply, modify_apply, pure_apply]
    obtain ⟨n, _, _, hadm, rfl⟩ := harm.taken
    have hopen : ¬r.replica.Claimed slot := by
      rintro (hlt | htaken)
      · exact absurd hlt (not_lt.mpr harm.lowest.frontier)
      · exact Bool.false_ne_true (harm.isOpen.symm.trans htaken)
    exact .inl ⟨_, rfl, .armed n hopen hadm (.inl ⟨harm.spare, harm.lowest⟩)⟩
  · simp only [heq]
    exact .inr (.inl rfl)
  · simp only [heq]
    rcases hrep with rfl | ⟨n, _, rfl⟩
    · exact .inr (.inr ⟨e, r, rfl, .inl rfl⟩)
    · exact .inr (.inr ⟨e, _, rfl, .inr (.lost r n)⟩)

theorem armGapNoop_cases (r : ReplicaRuntime V) :
    (∃ r', armGapNoop r = .ok true r' ∧ Arming r r') ∨ armGapNoop r = .ok false r ∨ ∃ e, armGapNoop r = .error e r := by
  simp only [armGapNoop, bind_apply, get_apply]
  cases hnoop : r.noopValue with
  | none => exact .inr (.inl rfl)
  | some noop =>
    by_cases hidle : r.pending.keys ≠ []
    · simp only [hidle, if_true, ne_eq, not_false_eq_true]
      exact .inr (.inl rfl)
    · simp only [hidle, if_false]
      cases hgap : r.replica.committedThrough.checkedNext with
      | none => exact .inr (.inr ⟨_, rfl⟩)
      | some gap =>
        by_cases hblock : r.gapIsBlocking gap = true
        · simp only [hblock, if_true, onReplica, zoom, bind_apply, ReplicaCore.noteProposed_eq]
          cases hadm : r.replica.admitProposal gap [noop] with
          | error e => exact .inr (.inr ⟨e, rfl⟩)
          | ok u =>
            have hplace := (SlotIndex.checkedNext_eq_some.mp hgap).2
            exact .inl ⟨_, rfl, .armed 0 (not_claimed_gap hgap hblock) hadm (.inr hplace)⟩
        · simp only [hblock]
          exact .inr (.inl rfl)

section Arming
variable {I : ReplicaRuntime V → Prop} (hA : ∀ r r', I r → Arming r r' → I r')
include hA

private theorem keeps_armNext (changed : Bool) : Keeps I (armNext (V := V) changed) := by
  intro r hr
  rcases armNext_cases changed r with ⟨r', heq, harm⟩ | heq | ⟨e, r', heq, rfl | harm⟩
  · rw [heq]
    exact hA r r' hr harm
  · rw [heq]
    exact hr
  · rw [heq]
    exact hr
  · rw [heq]
    exact hA r r' hr harm

private theorem keeps_armGapNoop : Keeps I (armGapNoop (V := V)) := by
  intro r hr
  rcases armGapNoop_cases r with ⟨r', heq, harm⟩ | heq | ⟨e, heq⟩
  · rw [heq]
    exact hA r r' hr harm
  · rw [heq]
    exact hr
  · rw [heq]
    exact hr

theorem keeps_armProposals : Keeps I (armProposals (V := V)) := by
  refine Keeps.bind Keeps.get fun r => Keeps.bind ?_ fun _ => Keeps.bind (keeps_armGapNoop hA) fun _ => Keeps.pure _
  exact Keeps.loop (keeps_armNext hA) _ _

end Arming

private theorem ensureDrained_same {s : ReplicaRuntime V} (h : SamePipeline r s) {change : MembershipChange V}
    (hr : r.ensureDrained change = .ok ()) : s.ensureDrained change = .ok () := by
  have hkeys : s.pending.keys = r.pending.keys := by
    have hvalues := congrArg OrderedMap.keys h.armedValues
    simpa only [ReplicaRuntime.armedValues, OrderedMap.keys_mapValues] using hvalues
  rw [ensureDrained, require_eq_ok] at hr ⊢
  rw [h.replica, h.decisions, hkeys]
  exact hr

section Polling
variable {env : Environment V} {I : ReplicaRuntime V → Prop} (hI : ∀ r r', I r → Quiet env r r' → I r')
  (haccept : ∀ d trace call, env.propose trace call = .ok d → Keeps I (acceptDecision env d))
include hI haccept

private theorem keeps_runProposal (slot : SlotIndex) (schedule : EpochSchedule) :
    Keeps I (runProposal env slot schedule) := by
  intro r hr
  simp only [runProposal, bind_apply (x := get), get_apply]
  cases hget : r.pending.get slot with
  | none => exact hr
  | some p =>
    cases hleader : schedule.leader with
    | error e => exact hr
    | ok leader =>
      have hlogged := hI r _ hr (.proposed hget leader
        (env.propose r.trace ⟨slot, p.valueIds, some leader, r.recorders, []⟩))
      simp only [bind_apply (x := check _), check_ok, request]
      cases hresult : env.propose r.trace ⟨slot, p.valueIds, some leader, r.recorders, []⟩ with
      | error e => rw [hresult] at hlogged; exact hlogged
      | ok decision =>
        rw [hresult] at hlogged
        exact haccept decision _ _ hresult _ (hI _ _ hlogged (.observed _ _))

/-- Polling makes quiet moves and takes in what the proposer returns. -/
theorem keeps_pollLoop_of (now : Instant) (n : Nat) : Keeps I (loop (pollStep env now) (fun _ => .idle) n ()) := by
  apply Keeps.loop
  intro _
  refine Keeps.bind Keeps.get fun r => ?_
  cases r.nextDeadline with
  | none => exact Keeps.pure _
  | some e =>
    refine Keeps.ite (fun _ => Keeps.pure _) fun _ => ?_
    refine Keeps.bind (keeps_ensureScheduleFor hI _) fun schedule => ?_
    refine Keeps.bind (keeps_deferForProgress hI _ _ _) fun deferred => ?_
    exact Keeps.ite (fun _ => Keeps.pure _) fun _ => Keeps.bind (keeps_runProposal hI haccept _ _) fun _ => Keeps.pure _

end Polling

section Moves
variable {env : Environment V} {I : ReplicaRuntime V → Prop}

section
variable {op : RuntimeOp V} (hM : ∀ r r', I r → Move env op r r' → I r')
include hM

private theorem quiet_of_move : ∀ r r', I r → Quiet env r r' → I r' := fun r r' hr hq => hM r r' hr (.quiet hq)

private theorem triple_storeDecision {d : Decision V} (hlearnt : op.Learns env d) :
    Triple (fun r => I r ∧ r.validateDecision d = .ok () ∧ r.replica.checkpointedThrough < d.slot)
      (storeDecision env d) (fun _ => I) fun _ => I := by
  rintro r ⟨hr, hvalid, hlive⟩
  simp only [storeDecision, bind_apply, get_apply]
  cases hget : r.decisions.get d.slot with
  | some existing => exact Keeps.check _ r hr
  | none =>
    have hfresh : r.Fresh d := ⟨hvalid, hlive, hget⟩
    simp only [onReplica, zoom, bind_apply]
    cases happly : ReplicaCore.applyDecision d r.replica with
    | error e replica => exact hM r _ hr (.refused hlearnt hfresh happly)
    | ok ds replica => exact keeps_persist (quiet_of_move hM) _ (hM r _ hr (.decided hlearnt hfresh happly))

theorem keeps_recover : Keeps I (recover env) :=
  Keeps.bind (keeps_dispatchCommitted (quiet_of_move hM)) fun _ =>
    Keeps.bind (keeps_flushDecisionNotifications (quiet_of_move hM)) fun _ => Keeps.pure _

theorem keeps_acceptDecision {d : Decision V} (hlearnt : op.Learns env d) : Keeps I (acceptDecision env d) := by
  intro r hr
  simp only [acceptDecision, bind_apply (x := get), get_apply]
  cases hvalid : r.validateDecision d with
  | error e => exact hr
  | ok u =>
    by_cases hlive : d.slot ≤ r.replica.checkpointedThrough
    · simp only [bind_apply, check_ok, hlive, if_true]
      exact hr
    · simp only [bind_apply (x := check _), check_ok, hlive, if_false]
      exact Triple.bind (triple_storeDecision hM hlearnt) (fun _ => keeps_recover hM) r ⟨hr, hvalid, not_le.mp hlive⟩

theorem keeps_pollLoop {now : Instant} (hop : op = .poll now) (n : Nat) :
    Keeps I (loop (pollStep env now) (fun _ => .idle) n ()) :=
  keeps_pollLoop_of (quiet_of_move hM) (fun _ trace call h => keeps_acceptDecision hM (.inr ⟨now, trace, call, hop, h⟩))
    now n

theorem keeps_checkpointThrough {slot : SlotIndex} (hop : op.Prunes slot) : Keeps I (checkpointThrough env slot) := by
  refine Keeps.bind (keeps_flushDecisionNotifications (quiet_of_move hM)) fun _ => ?_
  intro r hr
  simp only [bind_apply (x := get), get_apply, require]
  by_cases hcommitted : slot ≤ r.replica.committedThrough
  swap
  · simp only [hcommitted, if_false, bind_apply, check_error]
    exact hr
  by_cases hidle : (r.pending.upTo slot).keys = []
  swap
  · simp only [hcommitted, hidle, if_true, if_false, bind_apply, check_ok, check_error]
    exact hr
  simp only [hcommitted, hidle, if_true, bind_apply (x := check _), check_ok]
  cases hannounced : r.ensureFullyAnnounced slot with
  | error e => exact hr
  | ok u => exact keeps_persist (quiet_of_move hM) _ (hM r _ hr (.pruned hop hcommitted hidle hannounced))

end

theorem keeps_submit {values : List V} (hM : ∀ r r', I r → Move env (.submit values) r r' → I r') :
    Keeps I (submit env values) := by
  refine Keeps.bind ?_ fun _ => keeps_persist (quiet_of_move hM)
  apply Keeps.zoom (J := fun r replica => I { r with replica })
  · exact fun r hr => hM r _ hr (.enqueued r rfl)
  · exact fun _ _ _ h => h

theorem keeps_installEpochSchedule {schedule : EpochSchedule}
    (hM : ∀ r r', I r → Move env (.installEpochSchedule schedule) r r' → I r') :
    Keeps I (installEpochSchedule env schedule) := by
  intro r hr
  simp only [installEpochSchedule, bind_apply, get_apply]
  cases hvalid : r.validateSchedule schedule with
  | error e => exact hr
  | ok u =>
    have hinstall : I { r with tuner := after (EpochTuner.install schedule) r.tuner } :=
      hM r _ hr (.scheduleInstalled rfl hvalid)
    simp only [check_ok, onTuner, zoom]
    cases hx : EpochTuner.install schedule r.tuner with
    | error e t => rw [after_error hx] at hinstall; exact hinstall
    | ok changed t =>
      rw [after_ok hx] at hinstall
      exact Keeps.onlyIf (fun _ => keeps_persist (quiet_of_move hM)) _ hinstall

theorem keeps_createStateTransfer {slot : SlotIndex}
    (hM : ∀ r r', I r → Move env (.createStateTransfer slot) r r' → I r') : Keeps I (createStateTransfer env slot) := by
  refine Keeps.bind (keeps_flushDecisionNotifications (quiet_of_move hM)) fun _ => Keeps.bind Keeps.get fun r => ?_
  refine Keeps.bind (Keeps.check _) fun _ => Keeps.bind ?_ fun _ => ?_
  · exact Keeps.bind (Keeps.modify fun s hs => hM s _ hs (.exported s rfl _)) fun _ => Keeps.check _
  · exact Keeps.bind (keeps_checkpointThrough hM (.inr rfl)) fun _ => Keeps.bind Keeps.get fun _ => Keeps.pure _

theorem keeps_installMembership {change : MembershipChange V} {next : List ReplicaId}
    (hM : ∀ r r', I r → Move env (.installMembership change next) r r' → I r') :
    Keeps I (installMembership env change next) := by
  intro r hr
  simp only [installMembership, bind_apply (x := check _)]
  cases hbind : change.validateBinding with
  | error e => exact hr
  | ok u =>
    simp only [check_ok, bind_apply (x := get), get_apply]
    by_cases hsame : change.next = r.config.cluster
    · rw [if_pos hsame]
      cases hrec : validateRecordersForCluster change.next next with
      | error e => exact hr
      | ok u => exact hM r _ hr (.reconnected rfl hsame (hsame ▸ hrec))
    rw [if_neg hsame]
    by_cases hsucc : change.next.isSuccessorOf r.config.cluster = true
    swap
    · simp only [require, hsucc]
      exact hr
    cases hdrained : r.ensureDrained change with
    | error e =>
      simp only [require, hsucc, if_true, bind_apply (x := check _), check_ok, check_error]
      exact hr
    | ok u =>
      simp only [require, hsucc, if_true, bind_apply (x := check _), check_ok]
      -- from here on only quiet moves until the next epoch is saved
      have hclosed : ∀ s s', (I s ∧ SamePipeline r s) → Quiet env s s' → I s' ∧ SamePipeline r s' :=
        fun s s' hs hq => ⟨hM s s' hs.1 (.quiet hq), hs.2.trans hq.samePipeline⟩
      refine Triple.bind (P := fun s => I s ∧ SamePipeline r s) (Q := fun _ s => I s ∧ SamePipeline r s)
        ((keeps_flushDecisionNotifications hclosed).conseq (fun _ h => h) (fun _ _ h => h) fun _ _ h => h.1)
        (fun _ => ?_) r ⟨hr, .refl r⟩
      intro s hs
      simp only [bind_apply (x := get), get_apply, bind_apply (x := check _)]
      cases hann : s.ensureFullyAnnounced change.anchor.slot with
      | error e => exact hs.1
      | ok u =>
        cases hrec : validateRecordersForCluster change.next next with
        | error e => exact hs.1
        | ok u =>
          simp only [check_ok]
          have hloop : Keeps (fun t => (I t ∧ SamePipeline r t) ∧ t.announcedTo = s.announcedTo)
              (next.forM (installOn env change)) := by
            apply Keeps.forM
            intro recorder _
            refine Keeps.bind Keeps.get fun _ => Keeps.bind (Keeps.modify fun t ht => ?_) fun _ => Keeps.check _
            exact ⟨hclosed t _ ht.1 (.installing ..), ht.2⟩
          refine Triple.bind (hloop.conseq (fun _ h => h) (fun _ _ h => h) fun _ _ h => h.1.1) (fun _ => ?_) s ⟨hs, rfl⟩
          rintro t ⟨⟨ht, hpipe⟩, hannt⟩
          have hanchored : t.Anchored change next := by
            refine ⟨hbind, ?_, ensureDrained_same hpipe hdrained, ?_, hrec⟩
            · rw [hpipe.config]
              exact hsucc
            · simp only [ensureFullyAnnounced, hannt, hpipe.config, hpipe.decisions]
              simp only [ensureFullyAnnounced, hs.2.config, hs.2.decisions] at hann
              exact hann
          rw [activate_eq]
          cases env.save t.trace (t.reconfigured change next).runtimeSnapshot with
          | ok u => exact hM t _ ht (.reconfigured rfl hanchored)
          | error e => exact hM t _ ht (.reconfigureFailed e rfl hanchored)

end Moves
end ReplicaRuntime
end QuePaxa
