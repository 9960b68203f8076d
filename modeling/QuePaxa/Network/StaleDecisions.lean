import QuePaxa.Network.Cancellation
import QuePaxa.Network.Settled

/-! Decisions at or below the checkpoint. Once the checkpoint has passed a slot, the slot is
neither retained nor executed again, provided the replica refuses whatever arrives for it. -/
namespace QuePaxa
open Library
variable {V : Type}

def RuntimeSnapshot.SettledFrom (c : SlotIndex) (s : RuntimeSnapshot V) : Prop :=
  s.Settled ∧ c ≤ s.replica.checkpointedThrough

def NetworkEvent.above (c : SlotIndex) (event : NetworkEvent V) : Prop :=
  (∀ s, event.stored = some s → s.SettledFrom c) ∧ ∀ d result, event = .executed d result → c < d.slot

namespace NetworkConsensusHandler
variable {h h' : NetworkConsensusHandler V} {c : SlotIndex} {t₀ : List (NetworkEvent V)}
variable {s : RuntimeSnapshot V}

/-- Checkpointed through `c` and in order, in memory and in the store, with nothing at or
below `c` executed since `t₀`. -/
structure Inert (c : SlotIndex) (t₀ : List (NetworkEvent V)) (s : RuntimeSnapshot V)
    (t : List (NetworkEvent V)) : Prop where
  now : s.SettledFrom c
  stored : ∀ s', latest NetworkEvent.stored t = some s' → s.replica.checkpointedThrough ≤ s'.replica.checkpointedThrough
  empty : latest NetworkEvent.stored t = none → s.replica.checkpointedThrough = 0
  past : Extends (NetworkEvent.above c) t₀ t

theorem above_silent {event : NetworkEvent V} (hstored : event.stored = none)
    (hsilent : ∀ d result, event ≠ .executed d result) :
    event.above c := by
  refine ⟨fun s hs => ?_, fun d result heq => absurd heq (hsilent d result)⟩
  rw [hstored] at hs
  cases hs

private theorem above_executed {d : Decision V} (hslot : c < d.slot) (result : Result Unit) :
    (NetworkEvent.executed d result).above c := by
  refine ⟨fun s hs => ?_, fun d' result' heq => ?_⟩
  · cases hs
  · cases heq
    exact hslot

private theorem above_saved (hs : s.SettledFrom c) : (NetworkEvent.saved s (.ok ())).above c := by
  refine ⟨fun s' hs' => ?_, fun _ _ heq => by cases heq⟩
  cases hs'
  exact hs

theorem Inert.concat {t : List (NetworkEvent V)} {event : NetworkEvent V} (hi : Inert c t₀ s t)
    (hstored : event.stored = none) (habove : event.above c) : Inert c t₀ s (t ++ [event]) := by
  have hlatest : latest NetworkEvent.stored (t ++ [event]) = latest NetworkEvent.stored t := by
    rw [latest_concat, hstored]
    rfl
  exact ⟨hi.now, hlatest ▸ hi.stored, hlatest ▸ hi.empty, hi.past.concat habove⟩

theorem inert_saved {s' : RuntimeSnapshot V} {t : List (NetworkEvent V)} (hs : s.SettledFrom c)
    (hs' : s'.SettledFrom c) (hfloor : s.replica.checkpointedThrough ≤ s'.replica.checkpointedThrough)
    (hpast : Extends (NetworkEvent.above c) t₀ t) :
    Inert c t₀ s (t ++ [.saved s' (.ok ())]) := by
  refine ⟨hs, ?_, ?_, hpast.concat (above_saved hs')⟩
  · intro s'' hlatest
    rw [latest_concat] at hlatest
    cases hlatest
    exact hfloor
  · intro hnone
    rw [latest_concat] at hnone
    cases hnone

theorem observes_inert (c : SlotIndex) (t₀ : List (NetworkEvent V)) : Observes (Inert c t₀) where
  same := by
    intro s s' t hi hsame hd _
    have hfloor := hsame.checkpointedThrough
    exact ⟨⟨hi.now.1.same hsame hd, hfloor ▸ hi.now.2⟩, hfloor ▸ hi.stored, hfloor ▸ hi.empty, hi.past⟩
  note := by
    intro s t event hi note
    have hquiet := NetworkEvent.quiet_of_isNote note
    exact hi.concat hquiet.1 (above_silent hquiet.1 hquiet.2)
  saveFailed := fun s t s' e hi => hi.concat rfl (above_silent rfl fun _ _ heq => by cases heq)
  saved := fun s t hi => inert_saved hi.now hi.now (le_refl _) hi.past

theorem Inert.withState {s : ConsensusState V} (hi : On (Inert c t₀) h) (hs : (h.withState s).snapshot.Settled)
    (hfloor : s.replica.checkpointedThrough = h.state.replica.checkpointedThrough) : On (Inert c t₀)
    (h.withState s) := by
  have hfloor' : (h.withState s).snapshot.replica.checkpointedThrough = h.snapshot.replica.checkpointedThrough := hfloor
  exact ⟨⟨hs, hfloor' ▸ hi.now.2⟩, hfloor' ▸ hi.stored, hfloor' ▸ hi.empty, hi.past⟩

theorem inert_execute (env : NetworkEnvironment V) {ds : List (Decision V)} (hds : ∀ d ∈ ds, c < d.slot) :
    Keeps (On (Inert c t₀)) (executeDecisions env ds) := by
  apply keeps_executeDecisions
  · intro h d hd hi _
    have hlogged : On (Inert c t₀) (h.log (.executed d (.ok ()))) := hi.concat rfl (above_executed (hds d hd) (.ok ()))
    exact Inert.withState hlogged (hi.now.1.same (.refl _) rfl) rfl
  · intro h d hd e hi
    exact hi.concat rfl (above_executed (hds d hd) (.error e))
  · exact fun h hi => (observes_inert c t₀).on_saved hi
  · exact fun h s e hi => (observes_inert c t₀).saveFailed _ _ _ e hi

theorem inert_executeReady (env : NetworkEnvironment V) : Keeps (On (Inert c t₀)) (executeReady env) := by
  intro h hi
  apply inert_execute env ?_ h hi
  intro d hd
  obtain ⟨e, he, rfl⟩ := List.mem_map.mp hd
  have hget : h.state.decisions.get e.1 = some e.2 :=
    ((OrderedMap.get_upTo ..).mp ((OrderedMap.get_eq_some ..).mpr (List.mem_of_mem_filter he))).1
  obtain ⟨hlt, hslot⟩ := hi.now.1.retained e.1 e.2 hget
  rw [hslot]
  exact hi.now.2.trans_lt hlt

private theorem inert_sealed {slot : SlotIndex} (hi : On (Inert c t₀) h)
    (hcommitted : slot ≤ h.state.replica.committedThrough) :
    On (Inert c t₀) (h.withState (h.state.pruned slot)).saved := by
  have hs : (h.withState (h.state.pruned slot)).snapshot.SettledFrom c := by
    refine ⟨hi.now.1.prune rfl hcommitted rfl rfl, ?_⟩
    show c ≤ (h.state.replica.pruneThrough slot).checkpointedThrough
    rw [RuntimeSnapshot.checkpointedThrough_prune hcommitted]
    exact hi.now.2.trans (le_max_right _ _)
  exact inert_saved hs hs (le_refl _) hi.past

section
variable [DecidableEq V] {env : NetworkEnvironment V}

private theorem inert_acceptNew (env : NetworkEnvironment V) (now : Instant) {d : Decision V} (hi : On (Inert c t₀) h)
    (hlive : h.takesLive d = true) :
    On (Inert c t₀) (after (acceptNew env now d) h) := by
  have hspec := ReplicaCore.triple_applyDecision hi.now.1.ordered d h.state.replica rfl
  have hretain : ∀ {ds replica}, ReplicaCore.applyDecision d h.state.replica = .ok ds replica →
      On (Inert c t₀) (h.withState ((h.state.withReplica replica).retainDecision d)) := by
    intro ds replica hok
    rw [hok] at hspec
    exact Inert.withState hi (hi.now.1.retain rfl (live_of_ok hlive hok) hspec.1 rfl rfl) hspec.1.checkpointedThrough
  rcases acceptNew_cases env h now d with ⟨ds, s, ⟨replica, hok, hmay⟩, heq⟩ | ⟨e, h', heq, hl⟩ |
    ⟨e, replica, herr, heq⟩ |
    ⟨e, ds, replica, hok, _, heq⟩
  · have hsaved := (observes_inert c t₀).on_mayClaim (hretain hok) hmay
    rw [hok] at hspec
    have hds : ∀ e ∈ ds, c < e.slot := by
      intro e he
      have hfrontier : h.state.replica.checkpointedThrough < h.state.replica.nextCommit := hi.now.1.ordered.frontier
      exact (hi.now.2.trans_lt hfrontier).trans_le (hspec.1.slot_range he).1
    have hrun := (inert_execute env hds).after hsaved
    simpa only [after, heq] using hrun
  · rw [after_error heq]
    exact (observes_inert c t₀).closed.undone hi hl
  · rw [after_error heq]
    rw [herr] at hspec
    rcases hspec with rfl | ⟨⟨ds, happly⟩, hjam⟩
    · exact hi
    · exact Inert.withState hi (hi.now.1.jam rfl happly hjam rfl rfl) happly.checkpointedThrough
  · rw [after_error heq]
    exact hretain hok

private theorem inert_acceptDecision (now : Instant) {d : Decision V} (hi : On (Inert c t₀) h)
    (hlive : h.takesLive d = true) :
    On (Inert c t₀) (after (acceptDecision env now d) h) := by
  cases hget : h.state.decisions.get d.slot with
  | none =>
    have hnew := inert_acceptNew env now hi hlive
    simpa only [after, acceptDecision_new env h hget] using hnew
  | some existing =>
    rcases acceptDecision_known env h now hget with ⟨e, heq⟩ | heq | ⟨slot, noop, s, hs, _, heq⟩
    · rw [after_error heq]
      exact hi
    · have hready := (inert_executeReady env).after hi
      simpa only [after, heq] using hready
    · have hready := (inert_executeReady env).after ((observes_inert c t₀).on_claims hi hs)
      simpa only [after, heq] using hready

private theorem inert_recoverLocked (now : Instant) : Keeps (On (Inert c t₀)) (recoverLocked env now) := by
  intro h hi
  rcases recoverLocked_cases env h now with ⟨e, h', heq, hl⟩ | ⟨h₁, hfirst, heq⟩
  · rw [heq]
    exact (observes_inert c t₀).closed.undone hi hl
  · rw [heq]
    have hstart : On (Inert c t₀) h₁ := by
      rcases hfirst with rfl | ⟨slot, noop, s, hs, rfl⟩
      · exact hi
      · exact (observes_inert c t₀).on_saved ((observes_inert c t₀).on_claims hi hs)
    exact Keeps.bind (inert_executeReady env) (fun _ => Keeps.bind Keeps.get fun _ => Keeps.pure _) h₁ hstart

private theorem inert_install {incoming : StateTransferSnapshot V} (hi : On (Inert c t₀) h)
    (hin : incoming.runtime.SettledFrom c) :
    On (Inert c t₀) (after (installStateTransfer env incoming) h) := by
  have himported : ∀ result, On (Inert c t₀) (h.log
    (.imported incoming.through incoming.applicationCheckpoint result)) :=
    fun result => hi.concat rfl (above_silent rfl fun _ _ heq => by cases heq)
  rcases installStateTransfer_cases env h incoming with ⟨e, heq⟩ | ⟨e, heq⟩ | ⟨e, heq⟩ | ⟨s, hrestore, _, _, heq⟩
  · rw [after_error heq]
    exact hi
  · rw [after_error heq]
    exact himported _
  · rw [after_error heq]
    exact (observes_inert c t₀).saveFailed _ _ _ e (himported _)
  · rw [after_ok heq]
    have hs := (restore_ok hrestore).1
    have hsaved := inert_saved hin hin (le_refl _) (himported (.ok ())).past
    refine (observes_inert c t₀).same incoming.runtime _ _ hsaved ?_ hs.decisions hs.executed
    have hreplica : s.replica.snapshot = incoming.runtime.replica := by rw [hs.replica]; rfl
    exact hreplica ▸ .refl _

end
end NetworkConsensusHandler

namespace Task
open NetworkConsensusHandler
variable [DecidableEq V] {env : NetworkEnvironment V} {h : NetworkConsensusHandler V} {c : SlotIndex}
  {t₀ : List (NetworkEvent V)}

def feedsLive (c : SlotIndex) (h : NetworkConsensusHandler V) (task : Task V) : Prop :=
  (∀ d, task.accepts = some d → h.takesLive d = true) ∧ ∀ incoming, task = .install incoming →
    incoming.runtime.SettledFrom c

private theorem advance_inert (env : NetworkEnvironment V) (now : Instant) {task : Task V} (hi : On (Inert c t₀) h)
    (hlive : task.feedsLive c h) :
    On (Inert c t₀) (after (advance env now task) h) := by
  by_cases hroutine : task.isRoutine = true
  · exact (keeps_advance env (observes_inert c t₀).closed hroutine now).after hi
  cases task with
  | receiving decisions =>
    cases decisions with
    | nil => exact absurd rfl hroutine
    | cons d rest =>
      rw [advance, after_bind_pure fun _ => [Task.receiving rest]]
      exact inert_acceptDecision now hi (hlive.1 d rfl)
  | accepting d =>
    rw [advance, after_bind_pure fun _ => []]
    exact inert_acceptDecision now hi (hlive.1 d rfl)
  | recovering => exact (Keeps.bind (inert_recoverLocked now) fun _ => Keeps.pure _).after hi
  | ready slot values leader =>
    simp only [after, advance, bind_apply (x := get), get_apply]
    by_cases hpending : h.state.pending.contains slot = true
    · simp only [hpending, if_true]
      exact hi.concat rfl (above_silent rfl fun _ _ heq => by cases heq)
    · simp only [hpending]
      exact hi
  | exporting slot ids =>
    have hexport : Keeps (On (Inert c t₀)) (exportCheckpoint env slot) :=
      keeps_exportCheckpoint fun h result hi => Inert.concat hi rfl (above_silent rfl fun _ _ heq => by cases heq)
    exact (Keeps.bind hexport fun _ => Keeps.pure _).after hi
  | sealing slot ids checkpoint =>
    rcases sealTransfer_cases env h slot ids checkpoint with ⟨e, h', heq, hl⟩ | ⟨hcommitted, _, heq⟩
    · simp only [after, advance, bind_apply (x := sealTransfer _ _ _ _), heq]
      exact (observes_inert c t₀).closed.undone hi hl
    · simp only [after, advance, bind_apply, heq, modify_apply, pure_apply]
      exact (inert_sealed hi hcommitted).concat rfl (above_silent rfl fun _ _ heq => by cases heq)
  | install incoming =>
    rw [advance, after_bind_pure fun _ => []]
    exact inert_install hi (hlive.2 incoming rfl)
  | _ => exact absurd rfl hroutine

end Task

namespace Node
variable {c : SlotIndex} {t₀ : List (NetworkEvent V)}
open NetworkConsensusHandler

def Inert (c : SlotIndex) (t₀ : List (NetworkEvent V)) : Node V → Prop
  | .up h _ => On (NetworkConsensusHandler.Inert c t₀) h
  | .down trace => Extends (NetworkEvent.above c) t₀ trace

private theorem extends_of_inert {n : Node V} (h : n.Inert c t₀) : Extends (NetworkEvent.above c) t₀ n.trace := by
  cases n with
  | up handler tasks => exact NetworkConsensusHandler.Inert.past h
  | down trace => exact h

variable [DecidableEq V] {env : NetworkEnvironment V}

def feedsLive (c : SlotIndex) : Node V → NodeAction V → Prop
  | .up h tasks, .run i _ | .up h tasks, .crash i _ _ => ∀ task, tasks[i]? = some task → task.feedsLive c h
  | _, _ => True

private theorem inert_restart {config : ReplicaRuntimeConfig} {recorders : List ReplicaId}
    {trace : List (NetworkEvent V)}
    {h : NetworkConsensusHandler V} (hpast : Extends (NetworkEvent.above c) t₀ trace)
    (hstored : ∀ s, latest NetworkEvent.stored t₀ = some s → s.SettledFrom c)
    (hempty : latest NetworkEvent.stored t₀ = none → c = 0)
    (hnew : NetworkConsensusHandler.new config recorders (latest NetworkEvent.stored trace) (trace ++ [.started]) =
      .ok h) :
    On (NetworkConsensusHandler.Inert c t₀) h := by
  have hpast' : Extends (NetworkEvent.above c) t₀ (trace ++ [.started]) :=
    hpast.concat (above_silent rfl fun _ _ heq => by cases heq)
  have hlatest : latest NetworkEvent.stored (trace ++ [.started]) = latest NetworkEvent.stored trace := latest_concat
  have hsaved : ∀ s, latest NetworkEvent.stored trace = some s → s.SettledFrom c := by
    intro s hs
    rcases hpast.latest hs with hold | ⟨e, habove, he⟩
    · exact hstored s hold
    · exact habove.1 s he
  have hsettled := settled_start hnew fun s hs => (hsaved s hs).1
  obtain ⟨htrace, ⟨hnone, hs⟩ | ⟨s, hsome, hs⟩⟩ := new_ok hnew
  · have hfloor : h.snapshot.replica.checkpointedThrough = 0 := by simp only [snapshot, hs]; rfl
    have hc : c = 0 := hempty (hpast.latest_none hnone)
    refine ⟨⟨hsettled, hc ▸ Nat.zero_le _⟩, ?_, fun _ => hfloor, htrace ▸ hpast'⟩
    intro s' hs'
    rw [hfloor]
    exact Nat.zero_le _
  · have hreplica : h.snapshot.replica = s.replica := by simp only [snapshot, hs.replica]; rfl
    refine ⟨⟨hsettled, hreplica ▸ (hsaved s hsome).2⟩, ?_, ?_, htrace ▸ hpast'⟩
    · intro s' hs'
      rw [htrace, hlatest, hsome] at hs'
      cases hs'
      rw [hreplica]
    · intro hnone
      rw [htrace, hlatest, hsome] at hnone
      cases hnone

private theorem inert_step {n : Node V} {a : NodeAction V}
    (hstored : ∀ s, latest NetworkEvent.stored t₀ = some s → s.SettledFrom c)
    (hempty : latest NetworkEvent.stored t₀ = none → c = 0) (h : n.Inert c t₀) (hlive : n.feedsLive c a) :
    (n.step env a).Inert c t₀ := by
  have hstep := step_cases env n a
  generalize n.step env a = n' at hstep ⊢
  cases hstep with
  | idle | called _ | notified _ | dropped _ => exact h
  | @advanced handler handler' tasks next task i now here returned =>
    have hi := Task.advance_inert env now h (hlive task here)
    rw [after_ok returned] at hi
    exact hi
  | @failed handler handler' tasks task i now e here failure =>
    have hi := Task.advance_inert env now h (hlive task here)
    rw [after_error failure] at hi
    exact hi
  | @crashed handler tasks task i now here requests =>
    have hi := Task.advance_inert env now h (hlive task here)
    obtain ⟨old, hold, _⟩ := NetworkConsensusHandler.Inert.past h
    have hcut := hi.past.take (old.length + requests)
    rw [← Nat.add_assoc, ← List.length_append, ← hold] at hcut
    exact hcut
  | halted => exact NetworkConsensusHandler.Inert.past h
  | @reconfigured handler change next =>
    exact ((NetworkConsensusHandler.observes_inert c t₀).on_installMembership env change next).after h
  | @reconfigureCrashed handler change next requests =>
    have hi := ((NetworkConsensusHandler.observes_inert c t₀).on_installMembership env change next).after h
    obtain ⟨old, hold, _⟩ := NetworkConsensusHandler.Inert.past h
    have hcut := hi.past.take (old.length + requests)
    rw [← Nat.add_assoc, ← List.length_append, ← hold] at hcut
    exact hcut
  | @restarted trace config recorders handler noop new =>
    have hi := inert_restart h hstored hempty new
    exact hi

/-- Once the checkpoint has reached `c`, a node by itself retains and executes no slot through `c`. -/
theorem inert_run {past later : List (NodeAction V)} {h : NetworkConsensusHandler V} {tasks : List (Task V)}
    (hpast : Along (step env) (feedsLive 0) fresh past) (hnow : run (step env) fresh past = .up h tasks)
    (hlater : Along (step env) (feedsLive h.state.replica.checkpointedThrough) (.up h tasks) later) :
    (run (step env) (.up h tasks) later).Inert h.state.replica.checkpointedThrough h.trace := by
  have hfresh : (fresh : Node V).Inert 0 [] := .refl []
  have hreached := run_invariant (fun n a => inert_step (fun _ hs => by cases hs) fun _ => rfl) hfresh hpast
  rw [hnow] at hreached
  have hi : On (NetworkConsensusHandler.Inert 0 []) h := hreached
  -- from here on the checkpoint is that of `h`, in memory and in the store
  have hstored : ∀ s, latest NetworkEvent.stored h.trace = some s →
    s.SettledFrom h.state.replica.checkpointedThrough := by
    intro s hs
    rcases hi.past.latest hs with hold | ⟨e, habove, he⟩
    · cases hold
    · exact ⟨(habove.1 s he).1, hi.stored s hs⟩
  have hstart : (Node.up h tasks).Inert h.state.replica.checkpointedThrough h.trace :=
    ⟨⟨hi.now.1, le_refl _⟩, hi.stored, hi.empty, .refl _⟩
  exact run_invariant (fun n a => inert_step hstored hi.empty) hstart hlater

def takesLive : Node V → NodeAction V → Bool
  | .up h tasks, .run i _ | .up h tasks, .crash i _ _ =>
    tasks[i]?.all fun
      | .install _ => false
      | task => task.accepts.all h.takesLive
  | _, _ => true

private theorem feedsLive_of_takesLive {n : Node V} {a : NodeAction V} (hlive : n.takesLive a = true) :
    n.feedsLive c a := by
  cases n with
  | down trace => cases a <;> trivial
  | up h tasks =>
    cases a with
    | run i now | crash i now requests =>
      intro task here
      simp only [takesLive, here, Option.all_some] at hlive
      refine ⟨fun d hd => ?_, fun incoming hinstall => ?_⟩
      · cases task <;> first | (simp only [hd, Option.all_some] at hlive; exact hlive) | cases hd
      · subst hinstall
        cases hlive
    | _ => trivial

end Node

namespace NodeProcess
open NetworkConsensusHandler
variable [DecidableEq V]

/-- Once the checkpoint has reached `c`, no slot through `c` is retained or executed again. -/
theorem decisions_through_checkpoint_are_inert (env : NetworkEnvironment V) (past later : List (NodeProcessAction V))
    (h : NetworkConsensusHandler V) (tasks : List (Task V)) (detached : List (BlockingRequest V))
    (hpast : Along (step env) (Uncancelled (Node.feedsLive 0)) fresh past)
    (hnow : run (step env) fresh past = ⟨.up h tasks, detached⟩)
    (hlater : Along (step env) (Uncancelled (Node.feedsLive h.state.replica.checkpointedThrough))
      ⟨.up h tasks, detached⟩ later) :
    let n := (run (step env) ⟨.up h tasks, detached⟩ later).node
    (∀ h' tasks', n = .up h' tasks' → ∀ slot ≤ h.state.replica.checkpointedThrough,
      h'.state.decisions.get slot = none) ∧
    ∀ d result, .executed d result ∈ n.trace.drop h.trace.length → h.state.replica.checkpointedThrough < d.slot := by
  obtain ⟨hreached, hbefore⟩ := run_uncancelled hpast
  -- the past has left no thread behind, so the node goes on by itself
  obtain ⟨hnode, rfl⟩ := NodeProcess.mk.inj (hreached.symm.trans hnow)
  obtain ⟨hrun, hafter⟩ := run_uncancelled hlater
  have hend : (run (step env) ⟨.up h tasks, []⟩ later).node.Inert h.state.replica.checkpointedThrough h.trace := by
    rw [hrun]
    exact Node.inert_run hbefore hnode hafter
  refine ⟨?_, ?_⟩
  · intro h' tasks' hn slot hslot
    rw [hn] at hend
    have hi' : On (NetworkConsensusHandler.Inert h.state.replica.checkpointedThrough h.trace) h' := hend
    cases hget : h'.state.decisions.get slot with
    | none => rfl
    | some d =>
      have hlt := (hi'.now.1.retained slot d hget).1
      exact absurd (hi'.now.2.trans_lt hlt) (not_lt.mpr hslot)
  · intro d result hmem
    obtain ⟨new, hnew, habove⟩ := Node.extends_of_inert hend
    rw [hnew, List.drop_left] at hmem
    exact (habove _ hmem).2 d result rfl

/-! Slot 1 is executed and checkpointed. A retry of its decision is then taken for a new
one: it is retained again, and the recovery that follows executes it again. -/

def transferFirst : List (NodeProcessAction Nat) :=
  List.map NodeProcessAction.act [.call (.transfer 1), .run 0 0, .run 0 0, .run 0 0, .run 0 0]

def checkpointFirst : List (NodeProcessAction Nat) :=
  List.map NodeProcessAction.act (.restart nodeOne [1, 2, 3] none :: Node.receive (slotDecision 1) 0 3) ++ transferFirst

def receiveAgain (d : Decision Nat) : List (NodeProcessAction Nat) :=
  List.map NodeProcessAction.act (Node.receive d 0 3)

/-- The call that delivers slot 1 is dropped while the slot is executed; a recovery executes it
before that thread gets its turn. -/
def checkpointDropped : List (NodeProcessAction Nat) :=
  [.act (.restart nodeOne [1, 2, 3] none), .act (.call (.receiving [slotDecision 1])), .cancel 0 0 1,
    .act (.call .recovering), .act (.run 0 0)] ++ transferFirst

theorem stale_decision_runs_again :
    (∃ h tasks h' tasks', run (step .obliging) fresh checkpointFirst = ⟨.up h tasks, []⟩ ∧
      h.state.replica.checkpointedThrough = 1 ∧
      run (step .obliging) ⟨.up h tasks, []⟩ (receiveAgain (slotDecision 1)) = ⟨.up h' tasks', []⟩ ∧
      h'.state.decisions.get 1 = some (slotDecision 1) ∧
      .executed (slotDecision 1) (.ok ()) ∈ h'.trace.drop h.trace.length) ∧
    ∃ h tasks detached h' tasks', run (step .obliging) fresh checkpointDropped = ⟨.up h tasks, detached⟩ ∧
      h.state.replica.checkpointedThrough = 1 ∧
      run (step .obliging) ⟨.up h tasks, detached⟩ [.land 0] = ⟨.up h' tasks', []⟩ ∧
      .executed (slotDecision 1) (.ok ()) ∈ h'.trace.drop h.trace.length := by
  have hruns : (run (step .obliging) fresh checkpointFirst).upWith (fun h tasks detached =>
      decide (detached = [] ∧ h.state.replica.checkpointedThrough = 1) &&
        (run (step .obliging) ⟨.up h tasks, []⟩ (receiveAgain (slotDecision 1))).upWith fun h' _ detached' =>
          decide (detached' = [] ∧ h'.state.decisions.get 1 = some (slotDecision 1) ∧
            .executed (slotDecision 1) (.ok ()) ∈ h'.trace.drop h.trace.length)) = true := by decide +kernel
  have hlands : (run (step .obliging) fresh checkpointDropped).upWith (fun h tasks detached =>
      decide (h.state.replica.checkpointedThrough = 1) &&
        (run (step .obliging) ⟨.up h tasks, detached⟩ [.land 0]).upWith fun h' _ detached' =>
          decide (detached' = [] ∧ .executed (slotDecision 1) (.ok ()) ∈ h'.trace.drop h.trace.length)) = true := by
    decide +kernel
  constructor
  · obtain ⟨h, tasks, detached, hfirst, hresult⟩ := exists_up hruns
    simp only [Bool.and_eq_true, decide_eq_true_eq] at hresult
    obtain ⟨⟨rfl, hthrough⟩, hagain⟩ := hresult
    obtain ⟨h', tasks', detached', hsecond, hresult'⟩ := exists_up hagain
    obtain ⟨rfl, hretained, hexecuted⟩ := of_decide_eq_true hresult'
    exact ⟨h, tasks, h', tasks', hfirst, hthrough, hsecond, hretained, hexecuted⟩
  · obtain ⟨h, tasks, detached, hfirst, hresult⟩ := exists_up hlands
    obtain ⟨hthrough, hagain⟩ := Bool.and_eq_true_iff.mp hresult
    obtain ⟨h', tasks', detached', hsecond, hresult'⟩ := exists_up hagain
    obtain ⟨rfl, hexecuted⟩ := of_decide_eq_true hresult'
    exact ⟨h, tasks, detached, h', tasks', hfirst, of_decide_eq_true hthrough, hsecond, hexecuted⟩

/-- A retry with an empty value list is refused, and the next slot goes on. -/
theorem decisions_through_checkpoint_are_inert_empty : ∃ h tasks,
    run (step .obliging) fresh checkpointFirst = ⟨.up h tasks, []⟩ ∧ h.state.replica.checkpointedThrough = 1 ∧
    ∀ d result, .executed d result ∈ (run (step .obliging) ⟨.up h tasks, []⟩
      (receiveAgain ⟨1, [], 2, 4⟩ ++ receiveAgain ⟨2, [20], 3, 4⟩)).node.trace.drop h.trace.length → 1 < d.slot := by
  have hmono (c : SlotIndex) (p : NodeProcess Nat) (a : NodeProcessAction Nat) :
      Uncancelled (fun n a => Node.takesLive n a = true) p a → Uncancelled (Node.feedsLive c) p a :=
    Uncancelled.mono (fun _ _ => Node.feedsLive_of_takesLive) p a
  have hpast : Along (step .obliging) (Uncancelled fun n a => Node.takesLive n a = true) fresh checkpointFirst := by
    decide +kernel
  have hruns : (run (step .obliging) fresh checkpointFirst).upWith (fun h tasks detached =>
      decide (detached = [] ∧ h.state.replica.checkpointedThrough = 1 ∧
        Along (step .obliging) (Uncancelled fun n a => Node.takesLive n a = true) ⟨.up h tasks, []⟩
          (receiveAgain ⟨1, [], 2, 4⟩ ++ receiveAgain ⟨2, [20], 3, 4⟩))) = true := by decide +kernel
  obtain ⟨h, tasks, detached, hfirst, hresult⟩ := exists_up hruns
  obtain ⟨rfl, hthrough, hlive⟩ := of_decide_eq_true hresult
  have hinert := (decisions_through_checkpoint_are_inert .obliging checkpointFirst
    (receiveAgain ⟨1, [], 2, 4⟩ ++ receiveAgain ⟨2, [20], 3, 4⟩) h tasks [] (hpast.mono (hmono _)) hfirst
    (hlive.mono (hmono _))).2
  rw [hthrough] at hinert
  exact ⟨h, tasks, hfirst, hthrough, hinert⟩

end NodeProcess
end QuePaxa
