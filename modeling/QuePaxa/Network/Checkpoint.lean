import QuePaxa.Network.Execution
import QuePaxa.Runtime.Checkpoint

/-! Checkpoints of both runtimes. In a network node other sections run between the check of
the committed prefix, the export and the pruning, but executions are never taken back, so it
is enough that the slots are executed when the transfer begins. -/
namespace QuePaxa
open Library
variable {V : Type}

def NetworkEvent.exportedThrough : NetworkEvent V → Option SlotIndex
  | .exported through _ => some through
  | _ => none

def networkLedger : Ledger (NetworkEvent V) (RuntimeSnapshot V) :=
  checkpointLedger NetworkEvent.executedSlot NetworkEvent.stored NetworkEvent.exportedThrough

def NetworkEvent.Executed (t : List (NetworkEvent V)) (slot : SlotIndex) : Prop :=
  ∃ d : Decision V, d.slot = slot ∧ .executed d (.ok ()) ∈ t

private theorem NetworkEvent.executed_of_done {t : List (NetworkEvent V)} {slot : SlotIndex}
    (h : networkLedger.Done t slot) :
    NetworkEvent.Executed t slot := by
  obtain ⟨e, he, hslot⟩ := h
  cases e with
  | executed d result =>
    cases result with
    | ok u => exact ⟨d, Option.some.inj hslot, he⟩
    | error => cases hslot
  | _ => cases hslot

namespace NetworkConsensusHandler
variable {h h' : NetworkConsensusHandler V} {s₀ : RuntimeSnapshot V} {t₀ : List (NetworkEvent V)}

theorem observes_since (s₀ : RuntimeSnapshot V) (t₀ : List (NetworkEvent V)) :
    Observes (networkLedger.Since s₀ t₀) where
  same := fun _ _ _ hs hr hd he => RuntimeSnapshot.since_same hs hr hd he
  note := by
    intro s t event hs note
    refine hs.silent (NetworkEvent.quiet_of_isNote note).1 ?_
    cases event <;> first | rfl | cases note
  saveFailed := fun _ _ _ _ hs => hs.silent rfl rfl
  saved := fun _ _ hs => hs.concat (fun _ hstored => (Option.some.inj hstored).symm) fun _ hn => nomatch hn

theorem since_executeDecisions {env : NetworkEnvironment V} (ds : List (Decision V)) :
    Keeps (On (networkLedger.Since s₀ t₀)) (executeDecisions env ds) := by
  apply keeps_executeDecisions
  · exact fun _ _ _ hs _ => Ledger.Since.mark hs rfl rfl rfl rfl rfl rfl rfl
  · exact fun _ _ _ _ hs => Ledger.Since.silent hs rfl rfl
  · exact fun _ hs => (observes_since s₀ t₀).on_saved hs
  · exact fun _ _ _ hs => Ledger.Since.silent hs rfl rfl

theorem since_executeReady {env : NetworkEnvironment V} : Keeps (On (networkLedger.Since s₀ t₀)) (executeReady env) :=
  Keeps.bind Keeps.get fun _ => since_executeDecisions _

section
variable [DecidableEq V] {env : NetworkEnvironment V}

private theorem since_acceptDecision (now : Instant) (d : Decision V) :
    Keeps (On (networkLedger.Since s₀ t₀)) (acceptDecision env now d) := by
  intro h hs
  have hO := observes_since s₀ t₀
  cases hget : h.state.decisions.get d.slot with
  | some existing =>
    rcases acceptDecision_known env h now hget with ⟨e, heq⟩ | heq | ⟨slot, noop, s, hclaims, _, heq⟩
    · rw [heq]
      exact hs
    · rw [heq]
      exact since_executeReady h hs
    · rw [heq]
      exact since_executeReady _ (hO.on_claims hs hclaims)
  | none =>
    have hfrontier := ReplicaCore.frontier_applyDecision h.state.replica d
    have hretained : ∀ ds replica, ReplicaCore.applyDecision d h.state.replica = .ok ds replica →
        On (networkLedger.Since s₀ t₀) (h.withState ((h.state.withReplica replica).retainDecision d)) := by
      intro ds replica hok
      rw [after_ok hok] at hfrontier
      refine RuntimeSnapshot.since_grown hs hfrontier.1 hfrontier.2 rfl fun slot hslot => ?_
      show (h.state.decisions.insert d.slot d).get slot ≠ none
      rw [OrderedMap.get_insert]
      split_ifs
      · exact Option.some_ne_none d
      · exact hslot
    rw [acceptDecision_new env h hget]
    rcases acceptNew_cases env h now d with ⟨ds, s, ⟨replica, hok, hmay⟩, heq⟩ | ⟨e, h', heq, hl⟩ |
      ⟨e, replica, herr, heq⟩ |
      ⟨e, ds, replica, hok, _, heq⟩
    · rw [heq]
      exact since_executeDecisions ds _ (hO.on_mayClaim (hretained ds replica hok) hmay)
    · rw [heq]
      exact hO.closed.undone hs hl
    · rw [heq]
      rw [after_error herr] at hfrontier
      exact RuntimeSnapshot.since_grown hs hfrontier.1 hfrontier.2 rfl fun slot hslot => hslot
    · rw [heq]
      exact hretained ds replica hok

private theorem since_recoverLocked (now : Instant) :
    Keeps (On (networkLedger.Since s₀ t₀)) (recoverLocked env now) := by
  intro h hs
  have hO := observes_since s₀ t₀
  rcases recoverLocked_cases env h now with ⟨e, h', heq, hl⟩ | ⟨h₁, hfirst, heq⟩
  · rw [heq]
    exact hO.closed.undone hs hl
  · rw [heq]
    have hstart : On (networkLedger.Since s₀ t₀) h₁ := by
      rcases hfirst with rfl | ⟨slot, noop, s, hclaims, rfl⟩
      · exact hs
      · exact hO.on_saved (hO.on_claims hs hclaims)
    exact Keeps.bind since_executeReady (fun _ => Keeps.bind Keeps.get fun _ => Keeps.pure _) h₁ hstart

end

def Covers (h : NetworkConsensusHandler V) (slot : SlotIndex) : Prop := networkLedger.Covers h.snapshot h.trace slot

def AccountsSince (h₀ h : NetworkConsensusHandler V) : Prop := On (networkLedger.Since h₀.snapshot h₀.trace) h

end NetworkConsensusHandler

namespace Task

def givesUp : Task V → Option SlotIndex
  | .disseminating slot _ | .exporting slot _ | .sealing slot _ _ => some slot
  | _ => none

def Covered (h : NetworkConsensusHandler V) (task : Task V) : Prop := ∀ slot, task.givesUp = some slot → h.Covers slot

def isInstall : Task V → Bool
  | .install _ => true
  | _ => false

def beginsMarked (h : NetworkConsensusHandler V) : Task V → Bool
  | .transfer slot => Finset.Ioc h.state.replica.checkpointedThrough slot ⊆ h.state.executed
  | _ => true

variable {env : NetworkEnvironment V} {h h' : NetworkConsensusHandler V} {task task' : Task V}

theorem Covered.later (h₀ : task.Covered h) (hs : h.AccountsSince h') : task.Covered h' :=
  fun slot hslot => Ledger.Since.covers hs (h₀ slot hslot)

private theorem Covered.follows (hc : task.Covered h) (hbacked : networkLedger.Backed h.snapshot h.trace)
    (hmarked : task.beginsMarked h = true) (hf : Follows env h h' task task') : task'.Covered h := by
  intro slot hslot
  cases hf with
  | began committed same =>
    cases hslot
    have hmarks : Finset.Ioc h.state.replica.checkpointedThrough slot ⊆ h.state.executed := of_decide_eq_true hmarked
    exact ⟨committed, fun k hm hn => hbacked k (hmarks (Finset.mem_Ioc.mpr ⟨hm, hn⟩))⟩
  | disseminated => exact hc slot hslot
  | exported => exact hc slot hslot
  | _ => cases hslot

variable [DecidableEq V]

open NetworkConsensusHandler in
theorem advance_since (env : NetworkEnvironment V) (now : Instant) (hb : On networkLedger.Balanced h)
    (hc : task.Covered h) (hkind : task.isInstall = false) :
    h.AccountsSince (after (advance env now task) h) := by
  have hO := observes_since h.snapshot h.trace
  have hs : On (networkLedger.Since h.snapshot h.trace) h := Ledger.Balanced.here hb
  by_cases hroutine : task.isRoutine = true
  · exact (keeps_advance env hO.closed hroutine now).after hs
  cases task with
  | receiving decisions =>
    cases decisions with
    | nil => exact absurd rfl hroutine
    | cons d rest => exact (Keeps.bind (since_acceptDecision now d) fun _ => Keeps.pure _).after hs
  | accepting d => exact (Keeps.bind (since_acceptDecision now d) fun _ => Keeps.pure _).after hs
  | recovering => exact (Keeps.bind (since_recoverLocked now) fun _ => Keeps.pure _).after hs
  | ready slot values leader =>
    refine Keeps.after (Keeps.bind Keeps.get fun h => Keeps.ite (fun _ => ?_) fun _ => Keeps.pure _) hs
    exact Keeps.bind (Keeps.modify fun h hs => Ledger.Since.silent hs rfl rfl) fun _ => Keeps.pure _
  | exporting slot ids =>
    have hexported : ∀ result, h.AccountsSince (h.log (.exported slot result)) := by
      refine fun result => Ledger.Since.concat hs (fun s hstored => nomatch hstored) fun n hn => ?_
      exact Option.some.inj hn ▸ hc slot rfl
    simp only [advance, exportCheckpoint, request, after, bind_apply, get_apply, modify_apply]
    cases env.exportCheckpoint h.trace slot with
    | ok checkpoint => exact hexported _
    | error e => exact hexported _
  | sealing slot ids checkpoint =>
    rcases sealTransfer_cases env h slot ids checkpoint with ⟨e, h', heq, hl⟩ | ⟨hcommitted, _, heq⟩
    · simp only [after, advance, bind_apply (x := sealTransfer _ _ _ _), heq]
      exact hO.closed.undone hs hl
    · simp only [after, advance, bind_apply, heq, modify_apply, pure_apply]
      have hpruned : h.AccountsSince (h.withState (h.state.pruned slot)) :=
        RuntimeSnapshot.since_pruned hs (hc slot rfl).2 (RuntimeSnapshot.checkpointedThrough_prune hcommitted) rfl rfl
          rfl
      exact Ledger.Since.silent (hO.on_saved hpruned) rfl rfl
  | install => cases hkind
  | _ => exact absurd rfl hroutine

open NetworkConsensusHandler in
/-- A transfer that marks nothing new keeps the marks true. -/
theorem advance_install (now : Instant) {incoming : StateTransferSnapshot V} (hb : On networkLedger.Balanced h)
    (hmarks : incoming.runtime.executed ⊆ h.state.executed) :
    On networkLedger.Balanced (after (advance env now (.install incoming)) h) := by
  have hlog : ∀ h : NetworkConsensusHandler V, On networkLedger.Balanced h → ∀ e : NetworkEvent V, e.stored = none →
      On networkLedger.Balanced (h.log e) :=
    fun h hb e he => ⟨hb.sound.silent he, hb.backed.later (List.prefix_append ..)⟩
  have himported := hlog h hb (.imported incoming.through incoming.applicationCheckpoint (.ok ())) rfl
  simp only [advance, after, bind_apply (x := installStateTransfer _ _)]
  rcases installStateTransfer_cases env h incoming with ⟨e, heq⟩ | ⟨e, heq⟩ | ⟨e, heq⟩ | ⟨s, hrestore, _, _, heq⟩
  · rw [heq]
    exact hb
  · rw [heq]
    exact hlog h hb _ rfl
  · rw [heq]
    exact hlog _ himported _ rfl
  · rw [heq]
    have hincoming : networkLedger.Backed incoming.runtime
        (h.trace ++ [.imported incoming.through incoming.applicationCheckpoint (.ok ())]) :=
      fun k hk => himported.backed k (hmarks hk)
    refine ⟨himported.sound.concat fun s' hs' => Option.some.inj hs' ▸ hincoming, ?_⟩
    intro k hk
    rw [show networkLedger.marks (NetworkConsensusHandler.snapshot _) = s.executed from rfl,
      (restore_ok hrestore).1.executed] at hk
    exact (hincoming k hk).later (List.prefix_append ..)

end Task

namespace Node
open NetworkConsensusHandler
variable {env : NetworkEnvironment V} {h : NetworkConsensusHandler V} {tasks : List (Task V)} {task : Task V} {i : Nat}
  {now : Instant}

def Balanced : Node V → Prop
  | .up h tasks => On networkLedger.Balanced h ∧ ∀ task ∈ tasks, task.Covered h
  | .down t => networkLedger.Sound t

/-- A transfer begins when the slots it gives up are marked executed; one is installed while
no other is in progress, and marks no further slots. -/
def givesUpMarked : Node V → NodeAction V → Bool
  | .up h tasks, .run i _ | .up h tasks, .crash i _ _ =>
    match tasks[i]? with
    | some (.install incoming) =>
      decide (incoming.runtime.executed ⊆ h.state.executed) && tasks.all fun task => task.givesUp.isNone
    | some task => task.beginsMarked h
    | none => true
  | _, _ => true

def installs : Node V → NodeAction V → Bool
  | .up _ tasks, .run i _ | .up _ tasks, .crash i _ _ => tasks[i]?.any Task.isInstall
  | _, _ => false

def AccountsSince (h : NetworkConsensusHandler V) : Node V → Prop
  | .up h' _ => h.AccountsSince h'
  | .down t => Extends (fun e => ∀ n, e.exportedThrough = some n → h.Covers n) h.trace t ∧ networkLedger.Sound t

private theorem marked_of_run (hmarked : (Node.up h tasks).givesUpMarked (.run i now) = true)
    (here : tasks[i]? = some task) :
    (∃ incoming, task = .install incoming ∧ incoming.runtime.executed ⊆ h.state.executed ∧
      ∀ t ∈ tasks, t.givesUp = none) ∨
      task.isInstall = false ∧ task.beginsMarked h = true := by
  simp only [givesUpMarked, here] at hmarked
  cases task with
  | install incoming =>
    obtain ⟨hmarks, hidle⟩ := Bool.and_eq_true_iff.mp hmarked
    refine .inl ⟨incoming, rfl, of_decide_eq_true hmarks, fun t ht => ?_⟩
    exact Option.isNone_iff_eq_none.mp (List.all_eq_true.mp hidle t ht)
  | _ => exact .inr ⟨rfl, hmarked⟩

variable [DecidableEq V]

private theorem balanced_restart {config : ReplicaRuntimeConfig} {recorders : List ReplicaId}
    {t : List (NetworkEvent V)}
    (hsound : networkLedger.Sound t)
    (hnew : NetworkConsensusHandler.new config recorders (latest NetworkEvent.stored t) (t ++ [.started]) = .ok h) :
    On networkLedger.Balanced h := by
  obtain ⟨htrace, hstart⟩ := new_ok hnew
  rw [On, htrace]
  refine ⟨hsound.silent rfl, Ledger.Backed.later ?_ (List.prefix_append t [.started])⟩
  intro k hk
  change k ∈ h.state.executed at hk
  rcases hstart with ⟨_, hs⟩ | ⟨s, hsome, hs⟩
  · rw [hs] at hk
    exact absurd hk (Finset.notMem_empty k)
  · rw [hs.executed] at hk
    exact hsound.latest hsome k hk

/-- A section keeps the marks true, and the claims of all tasks covered. -/
theorem balanced_section (env : NetworkEnvironment V) (hn : (Node.up h tasks).Balanced)
    (hmarked : (Node.up h tasks).givesUpMarked (.run i now) = true)
    (here : tasks[i]? = some task) : (Node.up (after (task.advance env now) h) tasks).Balanced := by
  rcases marked_of_run hmarked here with ⟨incoming, rfl, hmarks, hidle⟩ | ⟨hkind, _⟩
  · refine ⟨Task.advance_install now hn.1 hmarks, fun t ht slot hslot => ?_⟩
    rw [hidle t ht] at hslot
    cases hslot
  · have hsince := Task.advance_since env now hn.1 (hn.2 task (List.mem_of_getElem? here)) hkind
    exact ⟨hsince.toBalanced, fun t ht => (hn.2 t ht).later hsince⟩

private theorem covered_of_next {h' : NetworkConsensusHandler V} {next : List (Task V)}
    (hn : (Node.up h tasks).Balanced)
    (hmarked : (Node.up h tasks).givesUpMarked (.run i now) = true) (here : tasks[i]? = some task)
    (returned : task.advance env now h = .ok next h') : ∀ t ∈ next, t.Covered h' := by
  intro t ht
  have hfollows := Task.follows_of_advance returned t ht
  rcases marked_of_run hmarked here with ⟨incoming, rfl, _, _⟩ | ⟨hkind, hbegins⟩
  · cases hfollows
  · have hcovered := hn.2 task (List.mem_of_getElem? here)
    have hsince := Task.advance_since env now hn.1 hcovered hkind
    rw [after_ok returned] at hsince
    exact (hcovered.follows hn.1.backed hbegins hfollows).later hsince

private theorem balanced_step {n : Node V} {a : NodeAction V} (hn : n.Balanced) (hmarked : n.givesUpMarked a = true) :
    (n.step env a).Balanced := by
  have hstep := step_cases env n a
  generalize n.step env a = n' at hstep ⊢
  cases hstep with
  | idle => exact hn
  | @called h tasks task call =>
    refine ⟨hn.1, fun t ht => ?_⟩
    rcases List.mem_append.mp ht with ht | ht
    · exact hn.2 t ht
    · rw [List.mem_singleton.mp ht]
      intro slot hslot
      cases task <;> first | (cases hslot; done) | cases call
  | advanced here returned =>
    have hsection := balanced_section env hn hmarked here
    rw [after_ok returned] at hsection
    refine ⟨hsection.1, fun t ht => ?_⟩
    rcases List.mem_append.mp ht with ht | ht
    · exact hsection.2 t (List.mem_of_mem_eraseIdx ht)
    · exact covered_of_next hn hmarked here returned t ht
  | failed here failure =>
    have hsection := balanced_section env hn hmarked here
    rw [after_error failure] at hsection
    exact ⟨hsection.1, fun t ht => hsection.2 t (List.mem_of_mem_eraseIdx ht)⟩
  | notified here =>
    refine ⟨hn.1, fun t ht => ?_⟩
    rcases List.mem_append.mp ht with ht | ht
    · exact hn.2 t (List.mem_of_mem_eraseIdx ht)
    · rw [List.mem_singleton.mp ht]
      exact fun slot hslot => nomatch hslot
  | dropped i => exact ⟨hn.1, fun t ht => hn.2 t (List.mem_of_mem_eraseIdx ht)⟩
  | @crashed h tasks task i now here requests =>
    have hmarks : (Node.up h tasks).givesUpMarked (.run i now) = true := hmarked
    have hsection := balanced_section env hn hmarks here
    exact hsection.1.sound.earlier (List.take_prefix ..)
  | halted => exact hn.1.sound
  | @reconfigured h change next =>
    have hs := ((observes_since h.snapshot h.trace).on_installMembership env change next).after
      (Ledger.Balanced.here hn.1)
    exact ⟨hs.toBalanced, fun task ht => nomatch ht⟩
  | @reconfigureCrashed h change next requests =>
    have hs := ((observes_since h.snapshot h.trace).on_installMembership env change next).after
      (Ledger.Balanced.here hn.1)
    exact hs.sound.earlier (List.take_prefix ..)
  | restarted new =>
    have hstart := balanced_restart hn new
    exact ⟨hstart, fun task ht => nomatch ht⟩

private theorem balanced_run {actions : List (NodeAction V)}
    (h : Along (step env) (fun n a => n.givesUpMarked a = true) fresh actions) :
      (run (step env) fresh actions).Balanced :=
  run_invariant (I := Balanced) (fun _ _ => balanced_step) Ledger.sound_nil h

/-- Installations aside, a step gives up only what was executed. -/
theorem accounts_step {a : NodeAction V} (hn : (Node.up h tasks).Balanced)
    (hkind : (Node.up h tasks).installs a = false) : ((Node.up h tasks).step env a).AccountsSince h := by
  have hs : h.AccountsSince h := Ledger.Balanced.here hn.1
  have hsection : ∀ (task : Task V) (i : Nat) (now : Instant), tasks[i]? = some task → task.isInstall = false →
      h.AccountsSince (after (task.advance env now) h) :=
    fun task _ now here hkind => Task.advance_since env now hn.1 (hn.2 task (List.mem_of_getElem? here)) hkind
  have hstep := step_cases env (.up h tasks) a
  generalize (Node.up h tasks).step env a = n' at hstep ⊢
  cases hstep with
  | idle | called | notified | dropped => exact hs
  | @advanced _ h' _ next task i now here returned =>
    simp only [installs, here, Option.any_some] at hkind
    exact after_ok returned ▸ hsection task i now here hkind
  | @failed _ h' _ task i now e here failure =>
    simp only [installs, here, Option.any_some] at hkind
    exact after_error failure ▸ hsection task i now here hkind
  | @crashed _ _ task i now here requests =>
    simp only [installs, here, Option.any_some] at hkind
    have hnext := hsection task i now here hkind
    exact ⟨hnext.journal.take requests, hnext.sound.earlier (List.take_prefix ..)⟩
  | halted => exact ⟨.refl _, hn.1.sound⟩
  | reconfigured change next =>
    exact ((observes_since h.snapshot h.trace).on_installMembership env change next).after hs
  | reconfigureCrashed change next requests =>
    have hnext := ((observes_since h.snapshot h.trace).on_installMembership env change next).after hs
    exact ⟨hnext.journal.take requests, hnext.sound.earlier (List.take_prefix ..)⟩

end Node

section
variable [DecidableEq V]

/-- Whatever a call or a section exports is committed and executed, and so is every decision
it drops. -/
theorem checkpoints_cover_executed_slots :
    (∀ (env : Environment V) (actions : List (DeploymentAction V)) (r : ReplicaRuntime V) (op : RuntimeOp V),
      Along (Deployment.step env) (fun p a => Deployment.givesUpMarked p a = true) Process.fresh actions →
      run (Deployment.step env) Process.fresh actions = .up r → r.givesUpMarked op = true →
      let r' := after (ReplicaRuntime.perform env op) r
      (∀ new n result, r'.trace = r.trace ++ new → .exported n result ∈ new → n ≤ r.replica.committedThrough ∧
        ∀ slot, r.replica.checkpointedThrough < slot → slot ≤ n → Event.Executed r.trace slot) ∧
      ∀ slot, r.replica.checkpointedThrough < slot → r.decisions.get slot ≠ none → r'.decisions.get slot = none →
        Event.Executed r'.trace slot) ∧
    ∀ (env : NetworkEnvironment V) (actions : List (NodeAction V)) (h : NetworkConsensusHandler V)
      (tasks : List (Task V))
      (a : NodeAction V), Along (Node.step env) (fun n a => n.givesUpMarked a = true) Node.fresh actions →
      run (Node.step env) Node.fresh actions = .up h tasks → (Node.up h tasks).installs a = false →
      let n := (Node.up h tasks).step env a
      (∀ new through result, n.trace = h.trace ++ new → .exported through result ∈ new →
        through ≤ h.state.replica.committedThrough ∧
        ∀ slot, h.state.replica.checkpointedThrough < slot → slot ≤ through → NetworkEvent.Executed h.trace slot) ∧
      ∀ h' tasks' slot, n = .up h' tasks' → h.state.replica.checkpointedThrough < slot →
        h.state.decisions.get slot ≠ none → h'.state.decisions.get slot = none →
          NetworkEvent.Executed h'.trace slot := by
  constructor
  · intro env actions r op hrun hup hop r'
    have hend := Deployment.balanced_run hrun
    rw [hup] at hend
    have hsince : r.AccountsSince r' := ReplicaRuntime.Balanced.perform hend hop
    refine ⟨?_, ?_⟩
    · intro new n result htrace hmem
      obtain ⟨new', htrace', hnew⟩ := hsince.journal
      obtain rfl := List.append_cancel_left (htrace'.symm.trans htrace)
      obtain ⟨hle, hdone⟩ := hnew _ hmem n rfl
      exact ⟨hle, fun slot hm hn => Event.executed_of_done (hdone slot hm hn)⟩
    · intro slot hfloor hheld hdropped
      exact Event.executed_of_done (hsince.done_of_dropped hheld (fun hkept => hkept hdropped) hfloor)
  · intro env actions h tasks a hrun hup hkind n
    have hend := Node.balanced_run hrun
    rw [hup] at hend
    have hsince : n.AccountsSince h := Node.accounts_step hend hkind
    have hjournal : Extends (fun e => ∀ m, NetworkEvent.exportedThrough e = some m → h.Covers m) h.trace n.trace := by
      cases hn : n with
      | up h' tasks' =>
        rw [hn] at hsince
        exact hsince.journal
      | down t =>
        rw [hn] at hsince
        exact hsince.1
    refine ⟨?_, ?_⟩
    · intro new through result htrace hmem
      obtain ⟨new', htrace', hnew⟩ := hjournal
      obtain rfl := List.append_cancel_left (htrace'.symm.trans htrace)
      obtain ⟨hle, hdone⟩ := hnew _ hmem through rfl
      exact ⟨hle, fun slot hm hn => NetworkEvent.executed_of_done (hdone slot hm hn)⟩
    · intro h' tasks' slot hn hfloor hheld hdropped
      rw [hn] at hsince
      exact NetworkEvent.executed_of_done (Ledger.Since.done_of_dropped hsince hheld (fun hkept => hkept hdropped)
        hfloor)

end

/-! The execution of slot 1 fails; a checkpoint through slot 1 is exported all the same, and the
decision is dropped. The synchronous runtime also exports slots that nobody decided. -/

namespace Deployment

def refusesFirst : Environment Nat :=
  { Environment.obliging with
    execute := fun _ d => if d.slot = 1 then .error (.storageError "state machine") else .ok () }

def boot : DeploymentAction Nat :=
  .process (.restart ReplicaRuntime.replicaTwo ⟨2, 0, ProposerConfig.default⟩ [1, 2, 3] none)

def transferFirst : List (DeploymentAction Nat) :=
  [boot, .process (.call (.receiveDecision ⟨1, [10], 1, 4⟩)), .process (.call (.createStateTransfer 1))]

def transferUndecided : List (DeploymentAction Nat) := [boot, .process (.call (.createStateTransfer 5))]

end Deployment

namespace Node

def transferFirst : List (NodeAction Nat) :=
  .restart nodeOne [1, 2, 3] none :: receive (slotDecision 1) 0 1 ++ [.call (.transfer 1), .run 0 0, .run 0 0, .run 0 0,
    .run 0 0]

def exportExecuted : List (NodeAction Nat) :=
  .restart nodeOne [1, 2, 3] none :: receive (slotDecision 1) 0 1 ++ [.drop 0, .call (.transfer 1), .run 0 0, .run 0 0]

end Node

theorem checkpoint_covers_unexecuted_slot :
    (let t := (run (Deployment.step Deployment.refusesFirst) Process.fresh Deployment.transferFirst).trace;
      Event.exported 1 (.ok []) ∈ t ∧ t.filterMap Event.executedSlot = [] ∧
        (lastSaved t).map (fun s => (s.replica.checkpointedThrough, s.decisions.get 1)) = some (1, none)) ∧
    (let t := (run (Deployment.step Environment.obliging) Process.fresh Deployment.transferUndecided).trace;
      t = [.started, .exported 5 (.ok [])]) ∧
    (let t := (run (Node.step Node.refusesFirst) Node.fresh Node.transferFirst).trace;
      NetworkEvent.exported 1 (.ok []) ∈ t ∧ t.filterMap NetworkEvent.executedSlot = [] ∧
        (latest NetworkEvent.stored t).map (fun s => (s.replica.checkpointedThrough, s.decisions.get 1)) =
          some (1, none)) := by
  decide +kernel

/-- The runtime before its transfer, and the node before its export. -/
theorem checkpoints_cover_executed_slots_first :
    (∃ r, run (Deployment.step Environment.obliging) Process.fresh (Deployment.transferFirst.take 2) = .up r ∧
      r.givesUpMarked (.createStateTransfer 1) = true ∧
      ∀ slot, r.replica.checkpointedThrough < slot → r.decisions.get slot ≠ none →
        (after (ReplicaRuntime.perform Environment.obliging (.createStateTransfer 1)) r).decisions.get slot = none →
        Event.Executed (after (ReplicaRuntime.perform Environment.obliging (.createStateTransfer 1)) r).trace slot) ∧
    ∃ h tasks, run (Node.step NetworkEnvironment.obliging) Node.fresh Node.exportExecuted = .up h tasks ∧
      tasks = [.exporting 1 {1}] ∧ ∀ new through result,
        ((Node.up h tasks).step NetworkEnvironment.obliging (.run 0 0)).trace = h.trace ++ new →
        .exported through result ∈ new → through ≤ h.state.replica.committedThrough ∧
          ∀ slot, h.state.replica.checkpointedThrough < slot → slot ≤ through → NetworkEvent.Executed h.trace slot := by
  constructor
  · have hrun : Along (Deployment.step Environment.obliging) (fun p a => Deployment.givesUpMarked p a = true)
      Process.fresh
        (Deployment.transferFirst.take 2) := by decide +kernel
    have hmarked : (run (Deployment.step Environment.obliging) Process.fresh (Deployment.transferFirst.take 2)).passes
        (·.givesUpMarked (.createStateTransfer 1)) = true := by decide +kernel
    obtain ⟨r, hp, hresult⟩ := Process.up_of_passes hmarked
    exact ⟨r, hp, hresult, (checkpoints_cover_executed_slots.1 _ _ r _ hrun hp hresult).2⟩
  · have hrun : Along (Node.step NetworkEnvironment.obliging) (fun n a => n.givesUpMarked a = true) Node.fresh
        Node.exportExecuted := by decide +kernel
    have hexports : (run (Node.step NetworkEnvironment.obliging) Node.fresh Node.exportExecuted).upWith (fun _ tasks =>
        decide (tasks = [.exporting 1 {1}])) = true := by decide +kernel
    obtain ⟨h, tasks, hn, hresult⟩ := Node.exists_up hexports
    obtain rfl := of_decide_eq_true hresult
    exact ⟨h, _, hn, rfl, (checkpoints_cover_executed_slots.2 _ _ h _ (.run 0 0) hrun hn rfl).1⟩

end QuePaxa
