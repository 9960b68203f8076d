import QuePaxa.Network.Cancellation
import QuePaxa.Runtime.WriteAhead

/-! Proposals of a network node are written ahead of being proposed, as long as no decision
the node has already arms the gap: that claim alone is not saved. Calls in flight hold
proposals they have read under the lock, so these count as offers before they are made. -/
namespace QuePaxa
open Library
variable {V : Type}
variable {s : ConsensusState V}

def NetworkEvent.offered : NetworkEvent V → Option (Offer V)
  | .proposed call => some (call.slot, call.valueIds)
  | _ => none

def networkReading : Reading (NetworkEvent V) V := ⟨NetworkEvent.stored, NetworkEvent.offered⟩

def Task.held : Task V → Option (Offer V)
  | .waiting slot values | .hedging slot values _ | .probing slot values _ | .ready slot values _ => some (slot, values)
  | _ => none

namespace NetworkConsensusHandler
variable {h h' : NetworkConsensusHandler V} {held : List (Offer V)}

/-- The pipeline in memory, and the past, account for every proposal made or held. -/
structure Recorded (h : NetworkConsensusHandler V) (held : List (Offer V)) : Prop where
  covers : QuePaxa.Covers h.state.replica.snapshot h.state.pending (networkReading.offers h.trace ++ held)
  orderly : networkReading.Orderly h.trace

structure Durable (h : NetworkConsensusHandler V) (held : List (Offer V)) : Prop extends h.Recorded held where
  written : networkReading.Written h.state.pending h.trace

private theorem armed_snapshot (h : NetworkConsensusHandler V) : h.snapshot.armed = h.state.pending := by
  simp only [RuntimeSnapshot.armed, snapshot, OrderedMap.mapValues_mapValues]
  exact OrderedMap.mapValues_id _ _ fun _ => rfl

theorem Recorded.log {e : NetworkEvent V} (hr : h.Recorded held) (hoffered : e.offered = none)
    (hstored : e.stored = none) :
    (h.log e).Recorded held := by
  refine ⟨?_, hr.orderly.neutral hoffered hstored⟩
  simp only [NetworkConsensusHandler.log, Reading.offers_of_none (R := networkReading) hoffered]
  exact hr.covers

theorem Durable.log {e : NetworkEvent V} (hd : h.Durable held) (hoffered : e.offered = none)
    (hstored : e.stored = none) :
    (h.log e).Durable held :=
  ⟨hd.toRecorded.log hoffered hstored, hd.written.concat hstored⟩

theorem Recorded.saved (hr : h.Recorded held) : h.saved.Durable held := by
  have hcovers : QuePaxa.Covers h.snapshot.replica h.snapshot.armed (networkReading.offers h.trace) := by
    rw [armed_snapshot]
    exact hr.covers.fewer fun o ho => List.mem_append_left _ ho
  have hwritten : networkReading.Written h.snapshot.armed (h.trace ++ [.saved h.snapshot (.ok ())]) :=
    Reading.written_saved rfl
  rw [armed_snapshot] at hwritten
  refine ⟨⟨?_, hr.orderly.saved rfl rfl hcovers⟩, hwritten⟩
  have hoffers : networkReading.offers h.saved.trace = networkReading.offers h.trace := Reading.offers_of_none rfl
  rw [hoffers]
  exact hr.covers

private theorem Recorded.saveFailed (hr : h.Recorded held) (s : ConsensusState V) (e : QuePaxaError) :
    (h.saveFailed s e).Recorded held :=
  hr.log rfl rfl

theorem Recorded.congr (hr : h.Recorded held) (hreplica : s.replica = h.state.replica)
    (hpending : s.pending = h.state.pending) : (h.withState s).Recorded held := by
  refine ⟨?_, hr.orderly⟩
  simp only [withState, hreplica, hpending]
  exact hr.covers

theorem Durable.congr (hd : h.Durable held) (hreplica : s.replica = h.state.replica)
    (hpending : s.pending = h.state.pending) : (h.withState s).Durable held := by
  refine ⟨hd.toRecorded.congr hreplica hpending, ?_⟩
  simp only [withState, hpending]
  exact hd.written

private theorem Recorded.executes (hr : h.Recorded held) (d : Decision V) : (h.executes d).Recorded held :=
  (hr.log (e := .executed d (.ok ())) rfl rfl).congr rfl rfl

private theorem Durable.executes (hd : h.Durable held) (d : Decision V) : (h.executes d).Durable held :=
  (hd.log (e := .executed d (.ok ())) rfl rfl).congr rfl rfl

private theorem keeps_recorded {env : NetworkEnvironment V} (ds : List (Decision V)) :
    Keeps (fun h => Recorded h held) (executeDecisions env ds) :=
  keeps_executeDecisions (fun _ d _ hr _ => hr.executes d) (fun _ _ _ _ hr => hr.log rfl rfl)
    (fun _ hr => hr.saved.toRecorded) fun _ s e hr => hr.saveFailed s e

theorem keeps_durable {env : NetworkEnvironment V} (ds : List (Decision V)) :
    Keeps (fun h => Durable h held) (executeDecisions env ds) :=
  keeps_executeDecisions (fun _ d _ hd _ => hd.executes d) (fun _ _ _ _ hd => hd.log rfl rfl)
    (fun _ hd => hd.toRecorded.saved) fun _ _ _ hd => hd.log rfl rfl

theorem keeps_executeReady (env : NetworkEnvironment V) {I : NetworkConsensusHandler V → Prop}
    (hI : ∀ ds, Keeps I (executeDecisions env ds)) : Keeps I (executeReady env) :=
  Keeps.bind Keeps.get fun _ => hI _

/-- Whoever holds proposals that are armed, or were held before, adds nothing to account for. -/
theorem Durable.hold {held' : List (Offer V)} (hd : h.Durable held)
    (hheld : ∀ o ∈ held', h.state.pending.get o.1 = some o.2 ∨ o ∈ held) : h.Durable held' := by
  refine ⟨⟨?_, hd.orderly⟩, hd.written⟩
  have hmore : QuePaxa.Covers h.state.replica.snapshot h.state.pending
    (networkReading.offers h.trace ++ held ++ held') := by
    apply hd.covers.repeated
    intro o ho
    rcases hheld o ho with harmed | ho
    · exact .inl harmed
    · exact .inr (List.mem_append_right _ ho)
  apply hmore.fewer
  intro o ho
  rcases List.mem_append.mp ho with ho | ho
  · exact List.mem_append_left _ (List.mem_append_left _ ho)
  · exact List.mem_append_right _ ho

/-- A held proposal whose slot is still pending is the armed one, and may be made. -/
theorem Durable.propose {slot : SlotIndex} {values : List V} (hd : h.Durable held) (hheld : (slot, values) ∈ held)
    (hpending : h.state.pending.contains slot = true) (leader : Option ReplicaId) :
    (h.log (.proposed ⟨slot, values, leader, h.recorders, []⟩)).Durable held := by
  obtain ⟨armed, hget⟩ := (OrderedMap.contains_iff ..).mp hpending
  obtain rfl := hd.covers.same (slot, values) (List.mem_append_right _ hheld) armed hget
  have hcovers : QuePaxa.Covers h.state.replica.snapshot h.state.pending (networkReading.offers h.trace) :=
    hd.covers.fewer fun o ho => List.mem_append_left _ ho
  refine ⟨⟨?_, hd.orderly.offer hcovers hd.written hget rfl rfl⟩, hd.written.concat rfl⟩
  simp only [NetworkConsensusHandler.log, Reading.offers_concat]
  apply hd.covers.fewer
  intro o ho
  rcases List.mem_append.mp ho with ho | ho
  · rcases List.mem_append.mp ho with ho | ho
    · exact List.mem_append_left _ ho
    · cases List.mem_singleton.mp ho
      exact List.mem_append_right _ hheld
  · exact List.mem_append_right _ ho

private theorem Durable.retain (hd : h.Durable held) (d : Decision V) :
    (h.withState (h.state.retainDecision d)).Durable held :=
  ⟨⟨hd.covers.sub fun _ _ => OrderedMap.get_of_get_erase, hd.orderly⟩, hd.written.sub
    fun _ _ => OrderedMap.get_of_get_erase⟩

section
variable [DecidableEq V]

theorem Durable.change {replica : ReplicaCore V} (hd : h.Durable held)
    (hc : ReplicaCore.Change h.state.replica replica) :
    (h.withState (h.state.withReplica replica)).Durable held :=
  ⟨⟨hd.covers.change hc, hd.orderly⟩, hd.written⟩

/-- Claiming a slot goes against no earlier proposal, even before it is saved. -/
theorem Recorded.claims {n : Nat} {slot : SlotIndex} {values : List V} (hr : h.Recorded held)
    (hs : h.state.Claims n slot values s) : (h.withState s).Recorded held := by
  refine ⟨?_, hr.orderly⟩
  simp only [withState, hs.replica, hs.pending]
  exact (hr.covers.change (.drain n)).arm (.propose hs.admitted) hs.isOpen (ReplicaCore.claimed_proposed hs.admitted)

theorem closed_durable (held : List (Offer V)) : Closed (fun h : NetworkConsensusHandler V => h.Durable held) where
  quiet := by
    intro h h' hd hq
    cases hq with
    | @noted event note =>
      have hneutral : event.offered = none ∧ event.stored = none := by
        cases event <;> first | exact ⟨rfl, rfl⟩ | cases note
      exact hd.log hneutral.1 hneutral.2
    | timed same => exact hd.congr same.replica same.pending
  saved := fun _ hd => hd.toRecorded.saved
  saveFailed := fun _ _ _ hd => hd.log rfl rfl
  steady := fun _ _ hd hc _ => hd.change hc
  claims := fun _ _ _ _ _ hd hs => (hd.toRecorded.claims hs).saved

private theorem Durable.apply (hd : h.Durable held) (d : Decision V) :
    (h.withState (h.state.withReplica (after (ReplicaCore.applyDecision d) h.state.replica))).Durable held := by
  have hkeeps := ReplicaCore.keeps_applyDecision (I := fun replica =>
    (h.withState (h.state.withReplica replica)).Durable held)
    (fun r r' hr hc => hr.change hc) d
  exact hkeeps.after (s := h.state.replica) hd

private theorem Durable.pruned (hd : h.Durable held) (slot : SlotIndex) :
    (h.withState (h.state.pruned slot)).Durable held := by
  have hsub : ∀ k values, (h.state.pruned slot).pending.get k = some values → h.state.pending.get k = some values :=
    fun k values hget => ((OrderedMap.get_retain ..).mp hget).1
  exact ⟨⟨(hd.covers.change (.prune slot)).sub hsub, hd.orderly⟩, hd.written.sub hsub⟩

variable {env : NetworkEnvironment V}

private theorem acceptNew_durable (env : NetworkEnvironment V) (now : Instant) (d : Decision V) :
    Keeps (fun h => Durable h held) (acceptNew env now d) := by
  intro h hd
  have happly := hd.apply d
  rcases acceptNew_cases env h now d with ⟨ds, s, ⟨replica, hok, hmay⟩, heq⟩ | ⟨e, h', heq, hl⟩ |
    ⟨e, replica, herr, heq⟩ |
    ⟨e, ds, replica, hok, _, heq⟩
  · rw [heq]
    rw [after_ok hok] at happly
    apply keeps_durable ds
    rcases hmay with hsame | ⟨slot, values, hs⟩
    · exact ((happly.retain d).congr hsame.replica hsame.pending).toRecorded.saved
    · exact ((happly.retain d).toRecorded.claims hs).saved
  · rw [heq]
    exact (closed_durable held).undone hd hl
  · rw [heq]
    rw [after_error herr] at happly
    exact happly
  · rw [heq]
    rw [after_ok hok] at happly
    exact happly.retain d

/-- A decision that is not new must not arm the gap; otherwise the claim is recorded but not saved. -/
theorem acceptDecision_durable (env : NetworkEnvironment V) (now : Instant) {d : Decision V} (hd : h.Durable held) :
    (after (acceptDecision env now d) h).Recorded held ∧
      ((h.state.decisions.contains d.slot && h.gapOpen) = false →
        (after (acceptDecision env now d) h).Durable held) := by
  cases hget : h.state.decisions.get d.slot with
  | none =>
    have heq : after (acceptDecision env now d) h = after (acceptNew env now d) h := by
      simp only [after, acceptDecision_new env h hget]
    rw [heq]
    have hnew := (acceptNew_durable env now d).after hd
    exact ⟨hnew.toRecorded, fun _ => hnew⟩
  | some existing =>
    have hknown : h.state.decisions.contains d.slot = true := (OrderedMap.contains_iff ..).mpr ⟨existing, hget⟩
    rcases acceptDecision_known env h now hget with ⟨e, heq⟩ | heq | ⟨slot, noop, s, hs, hopen, heq⟩
    · rw [after_error heq]
      exact ⟨hd.toRecorded, fun _ => hd⟩
    · have hready := (keeps_executeReady env keeps_durable).after hd
      simp only [after, heq] at hready ⊢
      exact ⟨hready.toRecorded, fun _ => hready⟩
    · have hready := (keeps_executeReady env keeps_recorded).after (hd.toRecorded.claims hs)
      simp only [after, heq] at hready ⊢
      exact ⟨hready, fun hcond => by simp [hknown, hopen] at hcond⟩

private theorem recoverLocked_durable (now : Instant) : Keeps (fun h => Durable h held) (recoverLocked env now) := by
  intro h hd
  rcases recoverLocked_cases env h now with ⟨e, h', heq, hl⟩ | ⟨h₁, hfirst, heq⟩
  · rw [heq]
    exact (closed_durable held).undone hd hl
  · rw [heq]
    have hstart : h₁.Durable held := by
      rcases hfirst with rfl | ⟨slot, noop, s, hs, rfl⟩
      · exact hd
      · exact (hd.toRecorded.claims hs).saved
    exact Keeps.bind (keeps_executeReady env keeps_durable) (fun _ => Keeps.bind Keeps.get fun _ => Keeps.pure _) h₁
      hstart

private theorem durable_installMembership (env : NetworkEnvironment V) (change : MembershipChange V)
    (next : List ReplicaId) :
    Keeps (fun h => Durable h held) (installMembership env change next) := by
  refine keeps_installMembership (closed_durable held).quiet (fun h hd => ⟨⟨hd.covers, hd.orderly⟩, hd.written⟩) ?_
    fun _ _ _ hd => hd.log rfl rfl
  intro h hd _
  have hnext : (h.reconfigured change next).Recorded held := ⟨hd.covers, hd.orderly⟩
  exact hnext.saved

private theorem new_durable {config : ReplicaRuntimeConfig} {recorders : List ReplicaId} {trace : List (NetworkEvent V)}
    (horderly : networkReading.Orderly trace)
    (hnew : new config recorders (networkReading.lastSaved trace) trace = .ok h) : h.Durable [] := by
  obtain ⟨htrace, ⟨hnone, hstate⟩ | ⟨s, hsome, hs⟩⟩ := new_ok hnew
  · have hempty : networkReading.offers trace = [] := by
      have hres := horderly.resumable.now
      simpa only [Reading.Resumable, hnone] using hres
    refine ⟨⟨?_, htrace ▸ horderly⟩, ?_⟩
    · rw [hstate, htrace, hempty]
      exact QuePaxa.Covers.new config.replica
    · rw [hstate]
      intro slot values hget
      cases hget
  · obtain ⟨hcovers, hwritten⟩ := horderly.resume hsome
    refine ⟨⟨?_, htrace ▸ horderly⟩, ?_⟩
    · rw [hs.replica, hs.pending, htrace, List.append_nil]
      exact hcovers
    · rw [hs.pending, htrace]
      exact hwritten

end
end NetworkConsensusHandler

namespace Task
open NetworkConsensusHandler
variable [DecidableEq V] {env : NetworkEnvironment V} {h h' : NetworkConsensusHandler V} {now : Instant}

private theorem held_of_advance {task : Task V} {next : List (Task V)} (hx : task.advance env now h = .ok next h') :
    ∀ t ∈ next, ∀ o, t.held = some o → task.held = some o ∨ h'.state.pending.get o.1 = some o.2 := by
  intro t ht o ho
  cases follows_of_advance hx t ht with
  | took pending | recovered pending =>
    cases ho
    exact .inr pending
  | hedged | due | probed | deferred | passed => exact .inl ho
  | _ => cases ho

/-- One section of any task but an install. The claim of a gap by a known decision is the
one that is recorded without being saved. -/
theorem advance_durable (env : NetworkEnvironment V) (now : Instant) {task : Task V} {held : List (Offer V)}
    (hd : h.Durable held)
    (hinstall : ∀ incoming, task ≠ .install incoming) (hheld : ∀ o, task.held = some o → o ∈ held) :
    (after (advance env now task) h).Recorded held ∧
      ((∀ d, task.accepts = some d → (h.state.decisions.contains d.slot && h.gapOpen) = false) →
        (after (advance env now task) h).Durable held) := by
  have hkeeps : ∀ {x : EStateM QuePaxaError (NetworkConsensusHandler V) (List (Task V))} {c : Prop},
      Keeps (fun h => Durable h held) x → (after x h).Recorded held ∧ (c → (after x h).Durable held) := by
    intro x c hx
    have hafter := hx.after hd
    exact ⟨hafter.toRecorded, fun _ => hafter⟩
  have haccept : ∀ {d : Decision V} {ts : List (Task V)}, task.accepts = some d →
      (after (acceptDecision env now d >>= fun _ => pure ts) h).Recorded held ∧
        ((∀ d, task.accepts = some d → (h.state.decisions.contains d.slot && h.gapOpen) = false) →
          (after (acceptDecision env now d >>= fun _ => pure ts) h).Durable held) := by
    intro d ts hd'
    rw [after_bind_pure (fun _ => ts)]
    have hboth := acceptDecision_durable env now (d := d) hd
    exact ⟨hboth.1, fun hcond => hboth.2 (hcond d hd')⟩
  by_cases hroutine : task.isRoutine = true
  · exact hkeeps (keeps_advance env (closed_durable held) hroutine now)
  cases task with
  | receiving decisions =>
    cases decisions with
    | nil => exact absurd rfl hroutine
    | cons d rest => exact haccept rfl
  | accepting d => exact haccept rfl
  | recovering => exact hkeeps (Keeps.bind (recoverLocked_durable now) fun _ => Keeps.pure _)
  | ready slot values leader =>
    have hmem := hheld (slot, values) rfl
    have hstate : (after (advance env now (.ready slot values leader)) h).Durable held := by
      simp only [after, advance, bind_apply (x := get), get_apply]
      by_cases hpending : h.state.pending.contains slot = true
      · simp only [hpending, if_true]
        exact hd.propose hmem hpending (some leader)
      · simp only [hpending]
        exact hd
    exact ⟨hstate.toRecorded, fun _ => hstate⟩
  | exporting slot ids =>
    exact hkeeps (Keeps.bind (keeps_exportCheckpoint fun h result hd => hd.log rfl rfl) fun _ => Keeps.pure _)
  | sealing slot ids checkpoint =>
    have hstate : (after (advance env now (.sealing slot ids checkpoint)) h).Durable held := by
      rcases sealTransfer_cases env h slot ids checkpoint with ⟨e, h', heq, hl⟩ | ⟨_, _, heq⟩
      · simp only [after, advance, bind_apply (x := sealTransfer _ _ _ _), heq]
        exact (closed_durable held).undone hd hl
      · simp only [after, advance, bind_apply, heq, modify_apply, pure_apply]
        exact (hd.pruned slot).toRecorded.saved.log rfl rfl
    exact ⟨hstate.toRecorded, fun _ => hstate⟩
  | install incoming => exact absurd rfl (hinstall incoming)
  | _ => exact absurd rfl hroutine

end Task

namespace Node

def heldBy (tasks : List (Task V)) : List (Offer V) := tasks.filterMap Task.held

def Accounted : Node V → Prop
  | .up h tasks => h.Durable (heldBy tasks)
  | .down trace => networkReading.Orderly trace

private theorem mem_heldBy_eraseIdx {tasks : List (Task V)} {i : Nat} {o : Offer V}
    (ho : o ∈ heldBy (tasks.eraseIdx i)) :
    o ∈ heldBy tasks := by
  obtain ⟨task, htask, hheld⟩ := List.mem_filterMap.mp ho
  exact List.mem_filterMap.mpr ⟨task, List.mem_of_mem_eraseIdx htask, hheld⟩

private theorem mem_heldBy_of_getElem? {tasks : List (Task V)} {i : Nat} {task : Task V} {o : Offer V}
    (hi : tasks[i]? = some task)
    (hheld : task.held = some o) : o ∈ heldBy tasks :=
  List.mem_filterMap.mpr ⟨task, List.mem_of_getElem? hi, hheld⟩

theorem orderly_of_accounted {n : Node V} (h : n.Accounted) : networkReading.Orderly n.trace := by
  cases n with
  | up handler tasks => exact NetworkConsensusHandler.Recorded.orderly (NetworkConsensusHandler.Durable.toRecorded h)
  | down trace => exact h

/-- No decision the node has already is accepted while it would arm the gap, and no state is
replaced by a transfer. -/
def armsDurably : Node V → NodeAction V → Bool
  | .up h tasks, .run i _ =>
    match tasks[i]? with
    | some (.install _) => false
    | some task => task.accepts.all fun d => !(h.state.decisions.contains d.slot && h.gapOpen)
    | none => true
  | .up _ tasks, .crash i _ _ =>
    match tasks[i]? with
    | some (.install _) => false
    | _ => true
  | _, _ => true

private theorem armsDurably_run {h : NetworkConsensusHandler V} {tasks : List (Task V)} {task : Task V} {i : Nat}
    {now : Instant} (here : tasks[i]? = some task) (harms : (Node.up h tasks).armsDurably (.run i now) = true) :
    (∀ incoming, task ≠ .install incoming) ∧
      ∀ d, task.accepts = some d → (h.state.decisions.contains d.slot && h.gapOpen) = false := by
  simp only [armsDurably, here] at harms
  constructor
  · rintro incoming rfl
    cases harms
  · intro d hd
    split at harms
    · cases harms
    · rename_i task' _ heq
      cases heq
      rw [hd, Option.all_some] at harms
      exact (Bool.not_eq_true' _).mp harms
    · rename_i heq
      cases heq

variable [DecidableEq V] {env : NetworkEnvironment V}

private theorem accounted_step {n : Node V} {a : NodeAction V} (h : n.Accounted) (harms : n.armsDurably a = true) :
    (n.step env a).Accounted := by
  have hstep := step_cases env n a
  generalize n.step env a = n' at hstep ⊢
  cases hstep with
  | idle => exact h
  | @called handler tasks task call =>
    apply NetworkConsensusHandler.Durable.hold h
    intro o ho
    simp only [heldBy, List.filterMap_append, List.mem_append] at ho
    rcases ho with ho | ho
    · exact .inr ho
    · have hnone : task.held = none := by cases task <;> first | rfl | cases call
      simp [hnone] at ho
  | @advanced handler handler' tasks next task i now here returned =>
    obtain ⟨hinstall, hcond⟩ := armsDurably_run here harms
    have hd := (Task.advance_durable env now h hinstall fun o => mem_heldBy_of_getElem? here).2 hcond
    rw [after_ok returned] at hd
    apply hd.hold
    intro o ho
    simp only [heldBy, List.filterMap_append, List.mem_append] at ho
    rcases ho with ho | ho
    · exact .inr (mem_heldBy_eraseIdx ho)
    · obtain ⟨t, ht, hheld⟩ := List.mem_filterMap.mp ho
      rcases Task.held_of_advance returned t ht o hheld with hsame | hpending
      · exact .inr (mem_heldBy_of_getElem? here hsame)
      · exact .inl hpending
  | @failed handler handler' tasks task i now e here failure =>
    obtain ⟨hinstall, hcond⟩ := armsDurably_run here harms
    have hd := (Task.advance_durable env now h hinstall fun o => mem_heldBy_of_getElem? here).2 hcond
    rw [after_error failure] at hd
    exact hd.hold fun o ho => .inr (mem_heldBy_eraseIdx ho)
  | @notified handler tasks i slot values leader here =>
    apply NetworkConsensusHandler.Durable.hold h
    intro o ho
    simp only [heldBy, List.filterMap_append, List.mem_append] at ho
    rcases ho with ho | ho
    · exact .inr (mem_heldBy_eraseIdx ho)
    · obtain ⟨t, ht, hheld⟩ := List.mem_filterMap.mp ho
      rw [List.mem_singleton.mp ht] at hheld
      exact .inr (mem_heldBy_of_getElem? here hheld)
  | dropped i => exact NetworkConsensusHandler.Durable.hold h fun o ho => .inr (mem_heldBy_eraseIdx ho)
  | @crashed handler tasks task i now here requests =>
    have hinstall : ∀ incoming, task ≠ .install incoming := by
      rintro incoming rfl
      simp [armsDurably, here] at harms
    have hr := (Task.advance_durable env now h hinstall fun o => mem_heldBy_of_getElem? here).1
    exact hr.orderly.earlier (List.take_prefix ..)
  | halted => exact orderly_of_accounted h
  | @reconfigured handler change next =>
    exact (NetworkConsensusHandler.durable_installMembership env change next).after h
  | @reconfigureCrashed handler change next requests =>
    have hd := (NetworkConsensusHandler.durable_installMembership env change next).after h
    exact hd.orderly.earlier (List.take_prefix ..)
  | @restarted trace config recorders handler noop new =>
    have horderly : networkReading.Orderly (trace ++ [.started]) := Reading.Orderly.neutral h rfl rfl
    have hstored : networkReading.lastSaved (trace ++ [.started]) = networkReading.lastSaved trace :=
      Reading.lastSaved_of_none rfl
    have hd : handler.Durable [] := by
      apply NetworkConsensusHandler.new_durable horderly
      rw [hstored]
      exact new
    exact ⟨⟨hd.covers, hd.orderly⟩, hd.written⟩

end Node

namespace NodeProcess
variable [DecidableEq V]

end NodeProcess
end QuePaxa
