import QuePaxa.Library.Delivery
import QuePaxa.Network.Cancellation
import QuePaxa.Network.Settled

/-! In-order execution in a network node. Recovery executes whatever is committed and not
executed yet, but accepting a decision executes only what that decision commits. The order
is kept as long as no decision for the frontier slot is accepted while an earlier execution
is outstanding. -/
namespace QuePaxa
open Library
variable {V : Type}

namespace NetworkEvent

def isStart : NetworkEvent V → Bool
  | .started => true
  | _ => false

def executedSlot : NetworkEvent V → Option SlotIndex
  | .executed d (.ok ()) => some d.slot
  | _ => none

structure Silent (e : NetworkEvent V) : Prop where
  start : e.isStart = false
  slot : e.executedSlot = none
  stored : e.stored = none

private theorem silent_of_isNote {e : NetworkEvent V} (h : e.isNote = true) : e.Silent := by
  cases e <;> first | exact ⟨rfl, rfl, rfl⟩ | cases h

end NetworkEvent

def networkExecutions : Library.Delivery (NetworkEvent V) (RuntimeSnapshot V) where
  starts := NetworkEvent.isStart
  stored := NetworkEvent.stored
  number := NetworkEvent.executedSlot
  marks := (·.executed)

namespace NetworkConsensusHandler
variable {h h' : NetworkConsensusHandler V} {s s' : RuntimeSnapshot V} {t : List (NetworkEvent V)}

structure Resumable (s : RuntimeSnapshot V) : Prop where
  whole : s.Whole
  bound : s.executed.card < s.replica.nextCommit

structure InOrder (s : RuntimeSnapshot V) (t : List (NetworkEvent V)) : Prop where
  whole : s.Whole
  marks : Library.Delivery.Marks s.executed (networkExecutions.next t)
  bound : networkExecutions.next t ≤ s.replica.nextCommit
  orderly : networkExecutions.Orderly t
  stored : ∀ e ∈ t, ∀ s', e.stored = some s' → Resumable s'

theorem InOrder.silent {e : NetworkEvent V} (hi : InOrder s t) (he : e.Silent) : InOrder s (t ++ [e]) := by
  have hnext : networkExecutions.next (t ++ [e]) = networkExecutions.next t :=
    Library.Delivery.next_concat_silent he.start he.slot
  refine ⟨hi.whole, hnext ▸ hi.marks, hnext ▸ hi.bound, hi.orderly.silent he.slot he.stored, ?_⟩
  intro e' he' s' hs'
  rcases List.mem_append.mp he' with hold | hnew
  · exact hi.stored e' hold s' hs'
  · rw [List.mem_singleton.mp hnew, he.stored] at hs'
    cases hs'

theorem observes_inOrder : Observes (InOrder (V := V)) where
  same := by
    intro s s' t hi hsame hd he
    refine ⟨hi.whole.same hsame hd, he ▸ hi.marks, ?_, hi.orderly, hi.stored⟩
    rw [hsame.nextCommit]
    exact hi.bound
  note := fun s t event hi note => hi.silent (NetworkEvent.silent_of_isNote note)
  saveFailed := fun s t s' e hi => hi.silent ⟨rfl, rfl, rfl⟩
  saved := by
    intro s t hi
    have hnext : networkExecutions.next (t ++ [.saved s (.ok ())]) = networkExecutions.next t :=
      Library.Delivery.next_concat_silent rfl rfl
    refine ⟨hi.whole, hnext ▸ hi.marks, hnext ▸ hi.bound, Library.Delivery.orderly_concat.mpr ⟨hi.orderly, ?_, ?_⟩, ?_⟩
    · intro k hk
      cases hk
    · intro s' hs'
      cases hs'
      exact hi.marks
    · intro e he s' hs'
      rcases List.mem_append.mp he with hold | hnew
      · exact hi.stored e hold s' hs'
      · rw [List.mem_singleton.mp hnew] at hs'
        cases hs'
        exact ⟨hi.whole, (hi.marks.card Library.Delivery.one_le_next).trans_le hi.bound⟩

private theorem InOrder.executed {d : Decision V} (hi : InOrder s t) (hslot : d.slot = networkExecutions.next t)
    (hcommitted : d.slot < s.replica.nextCommit) (hr : s'.replica = s.replica) (hd : s'.decisions = s.decisions)
    (he : s'.executed = insert d.slot s.executed) : InOrder s' (t ++ [.executed d (.ok ())]) := by
  have hnext : networkExecutions.next (t ++ [.executed d (.ok ())]) = networkExecutions.next t + 1 :=
    Library.Delivery.next_concat_number rfl rfl
  refine ⟨hi.whole.same (hr ▸ .refl _) hd, ?_, ?_, Library.Delivery.orderly_concat.mpr ⟨hi.orderly, ?_, ?_⟩, ?_⟩
  · rw [hnext, he, hslot]
    exact hi.marks.insert Library.Delivery.one_le_next
  · rw [hnext, hr, ← hslot]
    exact hcommitted
  · intro k hk
    cases hk
    exact hslot
  · intro s' hs'
    cases hs'
  · intro e he s' hs'
    rcases List.mem_append.mp he with hold | hnew
    · exact hi.stored e hold s' hs'
    · rw [List.mem_singleton.mp hnew] at hs'
      cases hs'

structure Lined (ds : List (Decision V)) (h : NetworkConsensusHandler V) : Prop where
  now : On InOrder h
  slots : ds.map (·.slot) = List.range' (networkExecutions.next h.trace) ds.length
  committed : networkExecutions.next h.trace + ds.length ≤ h.state.replica.nextCommit

theorem inOrder_execute (env : NetworkEnvironment V) (ds : List (Decision V)) :
    Triple (Lined ds) (executeDecisions env ds) (fun _ => On InOrder) fun _ => On InOrder := by
  have hone : ∀ d ds, Triple (Lined (d :: ds)) (executeOne env d) (fun _ => Lined ds) fun _ => On InOrder := by
    intro d ds h hl
    obtain ⟨hslot, hslots⟩ : d.slot = networkExecutions.next h.trace ∧
        ds.map (·.slot) = List.range' (networkExecutions.next h.trace + 1) ds.length := by
      have hall := hl.slots
      rw [List.map_cons, List.length_cons, List.range'_succ, List.cons.injEq] at hall
      exact hall
    have hbound : networkExecutions.next h.trace + (ds.length + 1) ≤ h.state.replica.nextCommit := hl.committed
    have hlt : d.slot < h.state.replica.nextCommit := by lia
    have hexecuted : On InOrder (h.executes d) := hl.now.executed hslot hlt rfl rfl rfl
    have hnext : networkExecutions.next (h.executes d).trace = networkExecutions.next h.trace + 1 :=
      Library.Delivery.next_concat_number rfl rfl
    rcases executeOne_cases env h d with ⟨hdone, _⟩ | ⟨_, ⟨e, heq⟩ | heq | ⟨e, heq⟩⟩
    · -- a slot executed before would lie below the next one
      have hlt := ((hl.now.marks d.slot).mp hdone).2
      exact absurd hslot (Nat.ne_of_lt hlt)
    · rw [heq]
      exact hl.now.silent ⟨rfl, rfl, rfl⟩
    · rw [heq]
      have hsaved : networkExecutions.next (h.executes d).saved.trace = networkExecutions.next h.trace + 1 :=
        (Library.Delivery.next_concat_silent rfl rfl).trans hnext
      refine ⟨observes_inOrder.on_saved hexecuted, hsaved ▸ hslots, ?_⟩
      rw [hsaved]
      show networkExecutions.next h.trace + 1 + ds.length ≤ h.state.replica.nextCommit
      lia
    · rw [heq]
      exact observes_inOrder.saveFailed _ _ _ e hexecuted
  exact (Triple.forM hone ds).conseq (fun _ h => h) (fun _ _ h => h.now) fun _ _ h => h

theorem inOrder_executeReady (env : NetworkEnvironment V) : Keeps (On InOrder) (executeReady env) := by
  intro h hi
  apply inOrder_execute env _ h
  have hslots : ∀ l : List (SlotIndex × Decision V), (∀ e ∈ l, h.state.decisions.get e.1 = some e.2) →
      (l.map (·.2)).map (·.slot) = l.map (·.1) := by
    intro l hl
    rw [List.map_map]
    exact List.map_congr_left fun e he => (hi.whole.settled.retained e.1 e.2 (hl e he)).2
  have hready : (h.state.decisions.upTo h.state.replica.committedThrough).keys.filter (· ∉ h.state.executed) =
      List.range' (networkExecutions.next h.trace) (h.state.replica.nextCommit - networkExecutions.next h.trace) :=
    hi.whole.ready_from Library.Delivery.one_le_next hi.bound hi.marks
  have hkeys : ((h.state.decisions.upTo h.state.replica.committedThrough).entries.filter
      (·.1 ∉ h.state.executed)).map (·.1) =
      List.range' (networkExecutions.next h.trace) (h.state.replica.nextCommit - networkExecutions.next h.trace) := by
    rw [← hready]
    exact (List.filter_map (p := (· ∉ h.state.executed)) ..).symm
  have hlength := congrArg List.length hkeys
  rw [List.length_map, List.length_range'] at hlength
  refine ⟨hi, ?_, ?_⟩
  · rw [hslots, hkeys, List.length_map, hlength]
    intro e he
    exact ((OrderedMap.get_upTo ..).mp ((OrderedMap.get_eq_some ..).mpr (List.mem_of_mem_filter he))).1
  · rw [List.length_map, hlength]
    exact (Nat.add_sub_cancel' hi.bound).le

section
variable [DecidableEq V] {env : NetworkEnvironment V}

/-- A decision that is new to the node comes above the checkpoint, and for the frontier slot
only when nothing committed waits for its execution. -/
def acceptsInOrder (h : NetworkConsensusHandler V) (d : Decision V) : Bool :=
  h.state.decisions.contains d.slot || h.takesLive d && (d.slot ≠ h.state.replica.nextCommit ||
    (h.state.decisions.upTo h.state.replica.committedThrough).keys.all (· ∈ h.state.executed))

private theorem inOrder_acceptNew (now : Instant) {d : Decision V} (hi : On InOrder h) (hlive : h.takesLive d = true)
    (hnext : d.slot = h.state.replica.nextCommit → networkExecutions.next h.trace = h.state.replica.nextCommit)
    (hfits : (after (acceptNew env now d) h).state.replica.log.size < u64Max) :
    On InOrder (after (acceptNew env now d) h) := by
  have hspec := ReplicaCore.triple_applyDecision hi.whole.settled.ordered d h.state.replica rfl
  have hretain : ∀ {ds replica}, ReplicaCore.applyDecision d h.state.replica = .ok ds replica →
      On InOrder (h.withState ((h.state.withReplica replica).retainDecision d)) := by
    intro ds replica hok
    rw [hok] at hspec
    refine ⟨hi.whole.retain rfl (live_of_ok hlive hok) hspec.1 hspec.2 rfl rfl, hi.marks, ?_, hi.orderly, hi.stored⟩
    have hgrow : h.state.replica.nextCommit ≤ replica.nextCommit := by
      rw [hspec.1.nextCommit]
      exact Nat.le_add_right _ _
    exact hi.bound.trans hgrow
  rcases acceptNew_cases env h now d with ⟨ds, s, ⟨replica, hok, hmay⟩, heq⟩ | ⟨e, h', heq, hl⟩ |
    ⟨e, replica, herr, heq⟩ |
    ⟨e, ds, replica, hok, _, heq⟩
  · have hsaved := observes_inOrder.on_mayClaim (hretain hok) hmay
    rw [hok] at hspec
    have hsilent : networkExecutions.next (h.withState s).saved.trace = networkExecutions.next h.trace :=
      Library.Delivery.next_concat_silent rfl rfl
    have hfrontier : s.replica.nextCommit = h.state.replica.nextCommit + ds.length :=
      hmay.sameOutcome.nextCommit.trans hspec.1.nextCommit
    have hlined : Lined ds (h.withState s).saved := by
      refine ⟨hsaved, ?_, ?_⟩
      · rw [hsilent, hspec.1.slots]
        by_cases hslot : d.slot = h.state.replica.nextCommit
        · rw [hnext hslot]
        · rw [hspec.1.idle hi.whole.waits hslot]
          rfl
      · rw [hsilent]
        show networkExecutions.next h.trace + ds.length ≤ s.replica.nextCommit
        rw [hfrontier]
        exact Nat.add_le_add_right hi.bound _
    have hrun := inOrder_execute env ds _ hlined
    simp only [after, heq]
    cases hx : executeDecisions env ds (h.withState s).saved with
    | ok u h'' => rw [hx] at hrun; exact hrun
    | error e h'' => rw [hx] at hrun; exact hrun
  · rw [after_error heq]
    exact observes_inOrder.closed.undone hi hl
  · rw [after_error heq] at hfits ⊢
    rw [herr] at hspec
    have hsame : replica = h.state.replica := hi.whole.refused rfl hfits hspec
    rw [hsame]
    exact hi
  · rw [after_error heq]
    exact hretain hok

private theorem inOrder_acceptDecision (now : Instant) {d : Decision V} (hi : On InOrder h)
    (hin : h.acceptsInOrder d = true)
    (hfits : (after (acceptDecision env now d) h).state.replica.log.size < u64Max) :
    On InOrder (after (acceptDecision env now d) h) := by
  cases hget : h.state.decisions.get d.slot with
  | none =>
    simp only [acceptsInOrder, OrderedMap.contains, hget, Option.isSome_none, Bool.false_or, Bool.and_eq_true,
      Bool.or_eq_true,
      decide_eq_true_eq, List.all_eq_true] at hin
    simp only [after, acceptDecision_new env h hget] at hfits ⊢
    refine inOrder_acceptNew now hi hin.1 ?_ hfits
    intro hslot
    have hdone := hin.2.resolve_left (not_not.mpr hslot)
    refine le_antisymm hi.bound (not_lt.mp fun hlt => ?_)
    -- the next slot would be committed and not executed
    have hmem := (hi.whole.mem_ready (networkExecutions.next h.trace)).mpr ⟨Library.Delivery.one_le_next, hlt⟩
    exact absurd ((hi.marks _).mp (hdone _ hmem)).2 (lt_irrefl _)
  | some existing =>
    rcases acceptDecision_known env h now hget with ⟨e, heq⟩ | heq | ⟨slot, noop, s, hs, _, heq⟩
    · rw [after_error heq]
      exact hi
    · have hready := (inOrder_executeReady env).after hi
      simpa only [after, heq] using hready
    · have hready := (inOrder_executeReady env).after (observes_inOrder.on_claims hi hs)
      simpa only [after, heq] using hready

private theorem inOrder_recoverLocked (now : Instant) : Keeps (On InOrder) (recoverLocked env now) := by
  intro h hi
  rcases recoverLocked_cases env h now with ⟨e, h', heq, hl⟩ | ⟨h₁, hfirst, heq⟩
  · rw [heq]
    exact observes_inOrder.closed.undone hi hl
  · rw [heq]
    have hstart : On InOrder h₁ := by
      rcases hfirst with rfl | ⟨slot, noop, s, hs, rfl⟩
      · exact hi
      · exact observes_inOrder.on_saved (observes_inOrder.on_claims hi hs)
    exact Keeps.bind (inOrder_executeReady env) (fun _ => Keeps.bind Keeps.get fun _ => Keeps.pure _) h₁ hstart

end
end NetworkConsensusHandler

namespace Task
open NetworkConsensusHandler
variable [DecidableEq V] {env : NetworkEnvironment V} {h : NetworkConsensusHandler V}

/-- Nothing is checkpointed or replaced, decisions are accepted in order, and the log fits
into memory. -/
def runsInOrder (env : NetworkEnvironment V) (now : Instant) (h : NetworkConsensusHandler V) (task : Task V) : Bool :=
  (match task with
    | .sealing _ _ _ | .install _ => false
    | _ => true) &&
  task.accepts.all h.acceptsInOrder && (after (advance env now task) h).state.replica.log.size < u64Max

private theorem advance_inOrder {now : Instant} {task : Task V} (hi : On InOrder h)
    (hin : task.runsInOrder env now h = true) :
    On InOrder (after (advance env now task) h) := by
  simp only [runsInOrder, Bool.and_eq_true, decide_eq_true_eq] at hin
  obtain ⟨⟨hkind, haccepts⟩, hfits⟩ := hin
  by_cases hroutine : task.isRoutine = true
  · exact (keeps_advance env observes_inOrder.closed hroutine now).after hi
  cases task with
  | receiving decisions =>
    cases decisions with
    | nil => exact absurd rfl hroutine
    | cons d rest =>
      rw [advance, after_bind_pure fun _ => [Task.receiving rest]] at hfits ⊢
      exact inOrder_acceptDecision now hi haccepts hfits
  | accepting d =>
    rw [advance, after_bind_pure fun _ => []] at hfits ⊢
    exact inOrder_acceptDecision now hi haccepts hfits
  | recovering =>
    exact (Keeps.bind (inOrder_recoverLocked now) fun pending => Keeps.pure _).after hi
  | ready slot values leader =>
    refine Keeps.after (Keeps.bind Keeps.get fun h => Keeps.ite (fun _ => ?_) fun _ => Keeps.pure _) hi
    exact Keeps.bind (Keeps.modify fun h hi => InOrder.silent hi ⟨rfl, rfl, rfl⟩) fun _ => Keeps.pure _
  | exporting slot ids =>
    have hexport : Keeps (On InOrder) (exportCheckpoint env slot) :=
      keeps_exportCheckpoint fun h result hi => InOrder.silent hi ⟨rfl, rfl, rfl⟩
    exact (Keeps.bind hexport fun _ => Keeps.pure _).after hi
  | sealing | install => cases hkind
  | _ => exact absurd rfl hroutine

end Task

namespace Node
open NetworkConsensusHandler
variable [DecidableEq V] {env : NetworkEnvironment V}

def InOrder : Node V → Prop
  | .up h _ => On NetworkConsensusHandler.InOrder h
  | .down t => networkExecutions.Orderly t ∧ ∀ e ∈ t, ∀ s, e.stored = some s → Resumable s

def runsInOrder (env : NetworkEnvironment V) : Node V → NodeAction V → Bool
  | .up h tasks, .run i now | .up h tasks, .crash i now _ => tasks[i]?.all (·.runsInOrder env now h)
  | _, _ => true

private theorem inOrder_restart {config : ReplicaRuntimeConfig} {recorders : List ReplicaId} {t : List (NetworkEvent V)}
    {h : NetworkConsensusHandler V} (horder : networkExecutions.Orderly t)
    (hstored : ∀ e ∈ t, ∀ s, e.stored = some s → Resumable s)
    (hnew : NetworkConsensusHandler.new config recorders (latest NetworkEvent.stored t) (t ++ [.started]) = .ok h) :
    On NetworkConsensusHandler.InOrder h := by
  have hmarks : Library.Delivery.Marks (((latest NetworkEvent.stored t).map RuntimeSnapshot.executed).getD ∅)
      (networkExecutions.next (t ++ [.started])) := horder.marks_start rfl rfl
  have hcard := hmarks.card Library.Delivery.one_le_next
  have horder' : networkExecutions.Orderly (t ++ [.started]) := horder.silent rfl rfl
  have hstored' : ∀ e ∈ t ++ [.started], ∀ s, e.stored = some s → Resumable s := by
    intro e he s hs
    rcases List.mem_append.mp he with hold | hstart
    · exact hstored e hold s hs
    · rw [List.mem_singleton.mp hstart] at hs
      cases hs
  obtain ⟨htrace, ⟨hnone, hs⟩ | ⟨s, hsome, hs⟩⟩ := new_ok hnew
  · rw [hnone] at hmarks hcard
    have hexecuted : h.snapshot.executed = ∅ := by simp only [snapshot, hs]; rfl
    have hreplica : h.snapshot.replica = (ReplicaCore.new config.replica).snapshot := by simp only [snapshot, hs]; rfl
    have hdecisions : h.snapshot.decisions = ∅ := by simp only [snapshot, hs]; rfl
    rw [On, htrace]
    refine ⟨RuntimeSnapshot.whole_new config.replica hreplica hdecisions, hexecuted ▸ hmarks, ?_, horder', hstored'⟩
    rw [← hcard, hreplica]
    exact le_refl 1
  · rw [hsome] at hmarks hcard
    have hexecuted : h.snapshot.executed = s.executed := hs.executed
    have hreplica : h.snapshot.replica = s.replica := by simp only [snapshot, hs.replica]; rfl
    have hresume : Resumable s := Always.latest hstored hsome
    rw [On, htrace]
    refine ⟨hresume.whole.same (hreplica ▸ .refl _) hs.decisions, hexecuted ▸ hmarks, ?_, horder', hstored'⟩
    rw [← hcard, hreplica]
    exact hresume.bound

private theorem inOrder_step {n : Node V} {a : NodeAction V} (h : n.InOrder) (hin : n.runsInOrder env a = true) :
    (n.step env a).InOrder := by
  have hstep := step_cases env n a
  generalize n.step env a = n' at hstep ⊢
  cases hstep with
  | idle | called _ | notified _ | dropped _ => exact h
  | @advanced handler handler' tasks next task i now here returned =>
    simp only [runsInOrder, here, Option.all_some] at hin
    have hi := Task.advance_inOrder h hin
    rw [after_ok returned] at hi
    exact hi
  | @failed handler handler' tasks task i now e here failure =>
    simp only [runsInOrder, here, Option.all_some] at hin
    have hi := Task.advance_inOrder h hin
    rw [after_error failure] at hi
    exact hi
  | @crashed handler tasks task i now here requests =>
    simp only [runsInOrder, here, Option.all_some] at hin
    have hi := Task.advance_inOrder h hin
    exact ⟨hi.orderly.earlier (List.take_prefix _ _), fun e he => hi.stored e (List.mem_of_mem_take he)⟩
  | @halted handler tasks i now requests =>
    have hi : On NetworkConsensusHandler.InOrder handler := h
    exact ⟨hi.orderly, hi.stored⟩
  | @reconfigured handler change next => exact (observes_inOrder.on_installMembership env change next).after h
  | @reconfigureCrashed handler change next requests =>
    have hi := (observes_inOrder.on_installMembership env change next).after h
    exact ⟨hi.orderly.earlier (List.take_prefix _ _), fun e he => hi.stored e (List.mem_of_mem_take he)⟩
  | @restarted trace config recorders handler noop new =>
    have hi := inOrder_restart h.1 h.2 new
    exact hi

private theorem inOrder_run {actions : List (NodeAction V)}
    (hrun : Along (step env) (fun n a => n.runsInOrder env a = true) fresh actions) :
    networkExecutions.Orderly (run (step env) fresh actions).trace := by
  have hfresh : (fresh : Node V).InOrder := ⟨Library.Delivery.orderly_nil, fun _ he => by cases he⟩
  have hend := run_invariant (fun n a => inOrder_step) hfresh hrun
  generalize run (step env) fresh actions = n at hend
  cases n with
  | up h tasks => exact NetworkConsensusHandler.InOrder.orderly hend
  | down trace => exact hend.1

def refusesFirst : NetworkEnvironment Nat :=
  { NetworkEnvironment.obliging with
    execute := fun _ d => if d.slot = 1 then .error (.storageError "state machine") else .ok () }

end Node

namespace NodeProcess
variable [DecidableEq V]

/-- In one lifetime executions succeed for consecutive slots, from the first one not marked in
the snapshot it was started from; every earlier slot was executed before. -/
theorem executes_in_order (env : NetworkEnvironment V) (actions : List (NodeProcessAction V))
    (hrun : Along (step env) (Uncancelled fun n a => n.runsInOrder env a = true) fresh actions) :
    let t := (run (step env) fresh actions).node.trace
    (∃ first, 1 ≤ first ∧ first ∉ networkExecutions.loaded t ∧
      (∀ k, 1 ≤ k → k < first → k ∈ networkExecutions.loaded t) ∧
      networkExecutions.now t = List.range' first (networkExecutions.now t).length) ∧
    ∀ past d, past ++ [.executed d (.ok ())] <+: t → ∀ k, 1 ≤ k → k < d.slot →
      ∃ e ∈ past, NetworkEvent.executedSlot e = some k := by
  have hstart : ∀ e : NetworkEvent V, e.isStart = true → e.stored = none := by
    intro e he
    cases e <;> first | rfl | cases he
  obtain ⟨hend, halong⟩ := run_uncancelled hrun
  have horder : networkExecutions.Orderly (run (step env) fresh actions).node.trace := by
    rw [fresh, hend]
    exact Node.inOrder_run halong
  intro t
  refine ⟨horder.resumes hstart, ?_⟩
  · intro past d hpast k hk hlt
    have hslot : d.slot = networkExecutions.next past := (horder past _ hpast).1 d.slot rfl
    have hbefore := horder.earlier ((List.prefix_append past [.executed d (.ok ())]).trans hpast)
    exact hbefore.delivered hstart hk (hslot ▸ hlt)

/-! The execution of slot 1 fails; the decision of slot 2 arrives and is executed alone. A
recovery in between would have executed slot 1 first. -/

def receiveBoth : List (NodeProcessAction Nat) :=
  List.map NodeProcessAction.act
    (.restart nodeOne [1, 2, 3] none :: Node.receive (slotDecision 1) 0 1 ++ Node.receive (slotDecision 2) 0 1)

/-- The call that delivers slot 1 is dropped while the slot is executed. The execution succeeds
without being marked, and the next recovery executes the slot again. -/
def droppedExecution : List (NodeProcessAction Nat) :=
  [.act (.restart nodeOne [1, 2, 3] none), .act (.call (.receiving [slotDecision 1])), .cancel 0 0 1, .land 0,
    .act (.call .recovering), .act (.run 0 0)]

theorem executes_out_of_order :
    let t := (run (step Node.refusesFirst) fresh receiveBoth).node.trace
    let t' := (run (step .obliging) fresh droppedExecution).node.trace
    networkExecutions.loaded t = ∅ ∧ networkExecutions.now t = [2] ∧
      networkExecutions.loaded t' = ∅ ∧ networkExecutions.now t' = [1, 1] := by
  decide +kernel

def refusesOnce : NetworkEnvironment Nat :=
  { NetworkEnvironment.obliging with
    execute := fun t _ => if t.length ≤ 2 then .error (.storageError "state machine") else .ok () }

def recoverBetween : List (NodeProcessAction Nat) :=
  List.map NodeProcessAction.act (.restart nodeOne [1, 2, 3] none :: Node.receive (slotDecision 1) 0 1 ++
    [.call .recovering, .run 0 0] ++ Node.receive (slotDecision 2) 0 1)

theorem executes_in_order_recovered :
    let t := (run (step refusesOnce) fresh recoverBetween).node.trace
    networkExecutions.now t = [1, 2] ∧ ∀ past d, past ++ [.executed d (.ok ())] <+: t → ∀ k, 1 ≤ k → k < d.slot →
      ∃ e ∈ past, NetworkEvent.executedSlot e = some k := by
  have hrun : Along (step refusesOnce) (Uncancelled fun n a => n.runsInOrder refusesOnce a = true) fresh
    recoverBetween := by
    decide +kernel
  exact ⟨by decide +kernel, (executes_in_order refusesOnce recoverBetween hrun).2⟩

end NodeProcess
end QuePaxa
