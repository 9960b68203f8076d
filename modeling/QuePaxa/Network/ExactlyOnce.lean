import QuePaxa.Network.FileExecutor
import QuePaxa.Runtime.Execution

/-! A replica whose state machine deduplicates over a file-backed executor. Runtime and
executor keep separate files, so a crash may leave either of them ahead of the other. The
runtime executes slots in order and marks them after the executor has saved them; whatever
it executes again after a restart, the executor has seen. -/
namespace QuePaxa
open Library
variable {V A : Type}
variable {d : Decision V} {r : ReplicaRuntime V}

/-- The runtime snapshots a crash may leave: the one saved last, or one whose save failed since. -/
def survivingSnapshots (trace : List (Event V)) : List (Option (RuntimeSnapshot V)) :=
  trace.foldl (fun left e => match e with
    | .saved snapshot (.ok ()) => [some snapshot]
    | .saved snapshot (.error _) => left ++ [some snapshot]
    | _ => left) [none]

private theorem saved_of_surviving {trace : List (Event V)} {s : RuntimeSnapshot V}
    (h : some s ∈ survivingSnapshots trace) :
    ∃ result, .saved s result ∈ trace := by
  induction trace using List.reverseRecOn with
  | nil => simp [survivingSnapshots] at h
  | append_singleton trace e ih =>
    have hold : some s ∈ survivingSnapshots trace → ∃ result, .saved s result ∈ trace ++ [e] := by
      intro hs
      obtain ⟨result, hmem⟩ := ih hs
      exact ⟨result, List.mem_append_left _ hmem⟩
    rw [survivingSnapshots, List.foldl_append] at h
    cases e with
    | saved snapshot result =>
      have hhere : s = snapshot → ∃ answer, .saved s answer ∈ trace ++ [.saved snapshot result] := by
        rintro rfl
        exact ⟨result, List.mem_append_right _ (List.mem_singleton_self _)⟩
      cases result with
      | ok u => exact hhere (Option.some.inj (List.mem_singleton.mp h))
      | error e =>
        rcases List.mem_append.mp h with hs | hs
        · exact hold hs
        · exact hhere (Option.some.inj (List.mem_singleton.mp hs))
    | _ => exact hold h

/-- Whatever is loaded was saved once, if only by a save that failed. -/
theorem saved_of_stored {t : List (Event V)} {kept : Nat} {s : RuntimeSnapshot V}
    (h : (survivingSnapshots t).getD kept (lastSaved t) = some s) : ∃ result, .saved s result ∈ t := by
  rw [List.getD_eq_getElem?_getD] at h
  cases hget : (survivingSnapshots t)[kept]? with
  | some stored =>
    rw [hget] at h
    have hstored : stored = some s := h
    exact saved_of_surviving (hstored ▸ List.mem_of_getElem? hget)
  | none =>
    rw [hget] at h
    obtain ⟨e, he, hstored⟩ := exists_of_latest (show latest Event.stored t = some s from h)
    match e, hstored, he with
    | .saved _ (.ok ()), rfl, he => exact ⟨_, he⟩

section
variable [DecidableEq V] (setup : ExecutorSetup V A) (attempts : List (Event V) → V → Attempt)

namespace FileExactlyOnceExecutor

def observe (past : List (Event V)) (x : FileExactlyOnceExecutor V A) : Event V → FileExactlyOnceExecutor V A
  | .executed d _ => after (DeduplicatingStateMachine.execute setup (attempts past) d) x
  | _ => x

def follow (past : List (Event V)) (x : FileExactlyOnceExecutor V A) : List (Event V) → FileExactlyOnceExecutor V A
  | [] => x
  | e :: rest => follow (past ++ [e]) (observe setup attempts past x e) rest

def catchUp (past : List (Event V)) (x : FileExactlyOnceExecutor V A) (trace : List (Event V)) :
    FileExactlyOnceExecutor V A :=
  follow setup attempts past x (trace.drop past.length)

end FileExactlyOnceExecutor

/-- The surroundings of a runtime whose state machine uses the executor, which was `x` when the trace was `past`. -/
def Environment.executing (env : Environment V) (past : List (Event V)) (x : FileExactlyOnceExecutor V A) :
    Environment V :=
  { env with
    execute := fun trace d =>
      result (DeduplicatingStateMachine.execute setup (attempts trace) d) (x.catchUp setup attempts past trace) }

end

inductive ExactlyOnceReplica (V A : Type) where
  | up (runtime : ReplicaRuntime V) (executor : FileExactlyOnceExecutor V A)
  | down (trace : List (Event V)) (files : FileSystem StoreFile UInt8)

inductive ExactlyOnceAction (V : Type) where
  | call (op : RuntimeOp V)
  /-- The process dies during the call, after some of its requests. -/
  | crash (op : RuntimeOp V) (requests : Nat)
  /-- What the crash left of both files is decided when the process is started again. -/
  | restart (config : ReplicaRuntimeConfig) (proposer : ProposerCore) (recorders : List ReplicaId) (noop : Option V)
      (kept : Nat) (survivor : Nat) (lost : Nat → List UInt8) (surroundings : Surroundings)

namespace ExactlyOnceReplica
variable [DecidableEq V] (env : Environment V) (setup : ExecutorSetup V A) (attempts : List (Event V) → V → Attempt)

def called (r : ReplicaRuntime V) (x : FileExactlyOnceExecutor V A) (op : RuntimeOp V) : ReplicaRuntime V :=
  after (ReplicaRuntime.perform (env.executing setup attempts r.trace x) op) r

/-- An executor that dies takes the process with it; the failed request was its last one. -/
def resume (r : ReplicaRuntime V) (x : FileExactlyOnceExecutor V A) : ExactlyOnceReplica V A :=
  if x.disk.alive then .up r x else .down r.trace x.disk.files

def step : ExactlyOnceReplica V A → ExactlyOnceAction V → ExactlyOnceReplica V A
  | .up r x, .call op =>
    let r' := called env setup attempts r x op
    resume r' (x.catchUp setup attempts r.trace r'.trace)
  | .up r x, .crash op requests =>
    let trace := (called env setup attempts r x op).trace.take (r.trace.length + requests)
    .down trace (x.catchUp setup attempts r.trace trace).disk.files
  | .down trace files, .restart config proposer recorders noop kept survivor lost surroundings =>
    let found := files.crash survivor lost
    let stored := (survivingSnapshots trace).getD kept (lastSaved trace)
    match FileExactlyOnceExecutor.load setup ⟨setup.initial, ⟨found, surroundings, true⟩⟩,
        ReplicaRuntime.new config proposer recorders stored (trace ++ [.started]) with
    | .ok _ x, .ok r => .up (noop.elim r r.withNoopValue) x
    | _, _ => .down trace found
  | p, _ => p

def trace : ExactlyOnceReplica V A → List (Event V)
  | .up r _ => r.trace
  | .down trace _ => trace

def files : ExactlyOnceReplica V A → FileSystem StoreFile UInt8
  | .up _ x => x.disk.files
  | .down _ files => files

def retains : ExactlyOnceReplica V A → ExactlyOnceAction V → Bool
  | .up r x, .call op | .up r x, .crash op _ =>
    op.retains && (called env setup attempts r x op).replica.log.size < u64Max
  | _, _ => true

end ExactlyOnceReplica

def ExactlyOnceAction.Agrees (env : Environment V) (decided : SlotIndex → List V) : ExactlyOnceAction V → Prop
  | .call op | .crash op _ => ∀ d, op.Learns env d → d.valueIds = decided d.slot
  | .restart .. => True

/-! What a runtime snapshot knows of the executions. -/

structure RuntimeSnapshot.Tracks (decided : SlotIndex → List V) (reach : Nat) (s : RuntimeSnapshot V) : Prop where
  whole : s.Whole
  agrees : ∀ slot d, s.decisions.get slot = some d → d.valueIds = decided slot
  executed : ∃ next, 1 ≤ next ∧ next ≤ s.replica.nextCommit ∧ next ≤ reach + 1 ∧ Library.Delivery.Marks s.executed next

namespace RuntimeSnapshot.Tracks
variable {decided : SlotIndex → List V} {reach : Nat} {s s' : RuntimeSnapshot V}

theorem mono {reach' : Nat} (h : s.Tracks decided reach) (hle : reach ≤ reach') : s.Tracks decided reach' := by
  obtain ⟨next, hpos, hcommitted, hreach, hmarks⟩ := h.executed
  exact ⟨h.whole, h.agrees, next, hpos, hcommitted, hreach.trans (Nat.succ_le_succ hle), hmarks⟩

theorem same (h : s.Tracks decided reach) (hr : s.replica.SameOutcome s'.replica) (hd : s'.decisions = s.decisions)
    (he : s'.executed = s.executed) : s'.Tracks decided reach := by
  refine ⟨h.whole.same hr hd, hd ▸ h.agrees, ?_⟩
  rw [he, hr.nextCommit]
  exact h.executed

private theorem boot (config : ReplicaConfig) (hr : s.replica = (ReplicaCore.new config).snapshot)
    (hd : s.decisions = ∅)
    (he : s.executed = ∅) : s.Tracks decided reach := by
  have hwhole := whole_new config hr hd
  refine ⟨hwhole, fun slot d hget => ?_, 1, le_refl 1, ?_, Nat.le_add_left 1 reach, ?_⟩
  · rw [hd] at hget
    cases hget
  · exact Nat.succ_le_of_lt (Nat.zero_lt_of_lt hwhole.settled.ordered.frontier)
  · rw [he]
    exact Library.Delivery.marks_empty

/-- The decision whose turn it is belongs to the first slot that is not marked. -/
theorem turn (h : r.runtimeSnapshot.Tracks decided reach) (hturn : r.Turn d) (hfresh : d.slot ∉ r.executed) :
    1 ≤ d.slot ∧ d.slot ≤ reach + 1 ∧ d.slot < r.replica.nextCommit ∧ d.valueIds = decided d.slot ∧
      Library.Delivery.Marks r.executed d.slot := by
  obtain ⟨slot, hget, hle, hbefore⟩ := hturn
  obtain ⟨next, hpos, _, hreach, hmarks⟩ := h.executed
  have hfrontier : 0 < r.replica.nextCommit := Nat.zero_lt_of_lt h.whole.settled.ordered.frontier
  have hlt : slot < r.replica.nextCommit := Nat.lt_of_le_sub_one hfrontier hle
  have hkey : d.slot = slot := (h.whole.settled.retained slot d hget).2
  have hnext : d.slot = next :=
    h.whole.slot_eq_next hmarks hpos hget hlt (fun k d' hk hlt => (hbefore k d' hk hlt).1) hfresh
  refine ⟨hnext ▸ hpos, hnext ▸ hreach, hkey ▸ hlt, ?_, hnext ▸ hmarks⟩
  rw [hkey]
  exact h.agrees slot d hget

private theorem marked (h : r.runtimeSnapshot.Tracks decided reach) (hturn : r.Turn d)
    (hfresh : d.slot ∉ r.executed) (hle : d.slot ≤ reach) (e : Event V) :
    ({ r.log e with executed := insert d.slot r.executed } : ReplicaRuntime V).runtimeSnapshot.Tracks
      decided reach := by
  obtain ⟨hpos, _, hlt, _, hmarks⟩ := h.turn hturn hfresh
  exact ⟨h.whole.same (.refl _) rfl, h.agrees, d.slot + 1, Nat.le_add_left 1 _, hlt, Nat.succ_le_succ hle,
    hmarks.insert hpos⟩

end RuntimeSnapshot.Tracks

structure Attempted (decided : SlotIndex → List V) (reach through : Nat) (t : List (Event V)) : Prop where
  le : reach ≤ through
  executed : ∀ slot, 1 ≤ slot → slot ≤ through → ∃ d result, .executed d result ∈ t ∧ d.slot = slot ∧
    d.valueIds = decided slot
  saved : ∀ s result, .saved s result ∈ t → s.Tracks decided reach

namespace Attempted
variable {decided : SlotIndex → List V} {reach through : Nat} {t : List (Event V)} {e : Event V}

theorem concat (h : Attempted decided reach through t) (he : ∀ s result, e = .saved s result → s.Tracks decided reach) :
    Attempted decided reach through (t ++ [e]) := by
  refine ⟨h.le, fun slot hpos hle => ?_, fun s result hs => ?_⟩
  · obtain ⟨d, result, hmem, hd⟩ := h.executed slot hpos hle
    exact ⟨d, result, List.mem_append_left _ hmem, hd⟩
  · rcases List.mem_append.mp hs with hs | hs
    · exact h.saved s result hs
    · exact he s result (List.mem_singleton.mp hs).symm

private theorem attempt (h : Attempted decided reach through t) (hslot : d.slot = reach + 1)
    (hvalues : d.valueIds = decided d.slot) (result : Result Unit) :
    Attempted decided reach (max through (reach + 1)) (t ++ [.executed d result]) := by
  have hlog := h.concat (e := .executed d result) fun s result hs => nomatch hs
  refine ⟨h.le.trans (le_max_left ..), fun slot hpos hle => ?_, hlog.saved⟩
  rcases le_max_iff.mp hle with hold | hnew
  · exact hlog.executed slot hpos hold
  · rcases Nat.lt_or_eq_of_le hnew with hlt | rfl
    · exact hlog.executed slot hpos ((Nat.le_of_lt_succ hlt).trans h.le)
    · exact ⟨d, result, List.mem_append_right _ (List.mem_singleton_self _), hslot, hslot ▸ hvalues⟩

private theorem complete (h : Attempted decided reach through t) (hle : reach + 1 ≤ through) :
    Attempted decided (reach + 1) through t :=
  ⟨hle, h.executed, fun s result hs => (h.saved s result hs).mono (Nat.le_succ reach)⟩

private theorem exists_committed (h : Attempted decided reach through t) :
    ∃ committed : List (Decision V), committed.map (·.slot) = List.range' 1 committed.length ∧
      (∀ d ∈ committed, ∃ result, .executed d result ∈ t) ∧
      committed.flatMap (fun d => commandsOf d.slot d.valueIds) = commandsThrough decided through := by
  have hall : ∀ n, n ≤ through → ∃ committed : List (Decision V), committed.length = n ∧
      committed.map (·.slot) = List.range' 1 n ∧ (∀ d ∈ committed, ∃ result, .executed d result ∈ t) ∧
      committed.flatMap (fun d => commandsOf d.slot d.valueIds) = commandsThrough decided n := by
    intro n hn
    induction n with
    | zero => exact ⟨[], rfl, rfl, (fun d hd => nomatch hd), rfl⟩
    | succ n ih =>
      obtain ⟨committed, hlength, hslots, hexecuted, hcommands⟩ := ih (Nat.le_of_succ_le hn)
      obtain ⟨d, result, hd, hslot, hvalues⟩ := h.executed (n + 1) (Nat.le_add_left 1 n) hn
      refine ⟨committed ++ [d], ?_, ?_, fun d' hd' => ?_, ?_⟩
      · rw [List.length_append, hlength, List.length_singleton]
      · rw [List.map_append, hslots, List.range'_concat, List.map_singleton, hslot, Nat.one_mul, Nat.add_comm 1 n]
      · rcases List.mem_append.mp hd' with hd' | hd'
        · exact hexecuted d' hd'
        · exact ⟨result, List.mem_singleton.mp hd' ▸ hd⟩
      · rw [List.flatMap_append, hcommands, commandsThrough_succ, List.flatMap_singleton, hslot, hvalues]
  obtain ⟨committed, hlength, hslots, hrest⟩ := hall through (le_refl _)
  exact ⟨committed, hlength ▸ hslots, hrest⟩

end Attempted

section
variable [DecidableEq V] (setup : ExecutorSetup V A) (decided : SlotIndex → List V)

/-- Whatever a crash leaves of the executor's file comes from commands in order, and covers
every slot that a runtime snapshot marks. -/
def Recoverable (t : List (Event V)) (files : FileSystem StoreFile UInt8) : Prop :=
  ∃ reach through, Attempted decided reach through t ∧ files.Retains .path .temporary fun c =>
    ∃ s, setup.snapshotFrom c = some s ∧ s.Between setup (commandsThrough decided reach)
      (commandsThrough decided through)

def Coherent (r : ReplicaRuntime V) (x : FileExactlyOnceExecutor V A) : Prop :=
  ∃ reach through, Attempted decided reach through r.trace ∧ r.runtimeSnapshot.Tracks decided reach ∧
    x.Holds setup (commandsThrough decided reach) (commandsThrough decided through)

end

namespace Coherent
variable [DecidableEq V] {setup : ExecutorSetup V A} {decided : SlotIndex → List V} {r r' : ReplicaRuntime V}
  {x : FileExactlyOnceExecutor V A}

theorem recoverable (h : Coherent setup decided r x) : Recoverable setup decided r.trace x.disk.files := by
  obtain ⟨reach, through, hattempted, _, hholds⟩ := h
  refine ⟨reach, through, hattempted, hholds.files.mono fun c hc => ?_⟩
  obtain ⟨s, hs, hbetween, _⟩ := hc
  exact ⟨s, hs, hbetween⟩

theorem same (h : Coherent setup decided r x) (htrace : r'.trace = r.trace)
    (hr : r.runtimeSnapshot.replica.SameOutcome r'.runtimeSnapshot.replica) (hd : r'.decisions = r.decisions)
    (he : r'.executed = r.executed) : Coherent setup decided r' x := by
  obtain ⟨reach, through, hattempted, htracks, hholds⟩ := h
  exact ⟨reach, through, htrace ▸ hattempted, htracks.same hr hd he, hholds⟩

theorem log (h : Coherent setup decided r x) {e : Event V}
    (he : ∀ s result, e = .saved s result → s = r.runtimeSnapshot) :
    Coherent setup decided (r.log e) x := by
  obtain ⟨reach, through, hattempted, htracks, hholds⟩ := h
  exact ⟨reach, through, hattempted.concat fun s result hs => he s result hs ▸ htracks, htracks, hholds⟩

private theorem retained (h : Coherent setup decided r x) {ds : List (Decision V)} {replica : ReplicaCore V}
    (hvalues : d.valueIds = decided d.slot) (hfresh : r.Fresh d)
    (hok : ReplicaCore.applyDecision d r.replica = .ok ds replica) :
    Coherent setup decided (ReplicaRuntime.retainDecision { r with replica } d) x := by
  obtain ⟨reach, through, hattempted, htracks, hholds⟩ := h
  have hspec := ReplicaCore.triple_applyDecision htracks.whole.settled.ordered d r.replica rfl
  rw [hok] at hspec
  have hgrow : r.replica.nextCommit ≤ replica.nextCommit := by
    rw [hspec.1.nextCommit]
    exact Nat.le_add_right _ _
  obtain ⟨next, hpos, hcommitted, hreach, hmarks⟩ := htracks.executed
  refine ⟨reach, through, hattempted, ⟨?_, fun slot d' hget => ?_, next, hpos, hcommitted.trans hgrow, hreach, hmarks⟩,
    hholds⟩
  · exact htracks.whole.retain rfl hfresh.live hspec.1 hspec.2 rfl rfl
  · have hget : (r.decisions.insert d.slot d).get slot = some d' := hget
    rw [OrderedMap.get_insert] at hget
    split_ifs at hget with hslot
    · cases hget
      exact hslot ▸ hvalues
    · exact htracks.agrees slot d' hget

private theorem execute (hformat : setup.format.Faithful) (h : Coherent setup decided r x) (hturn : r.Turn d)
    (hfresh : d.slot ∉ r.executed) (attempts : V → Attempt) :
    match result (DeduplicatingStateMachine.execute setup attempts d) x with
    | .ok _ => Coherent setup decided { r.log (.executed d (.ok ())) with executed := insert d.slot r.executed }
        (after (DeduplicatingStateMachine.execute setup attempts d) x)
    | .error e => Coherent setup decided (r.log (.executed d (.error e)))
        (after (DeduplicatingStateMachine.execute setup attempts d) x) := by
  simp only [result, after]
  obtain ⟨reach, through, hattempted, htracks, hholds⟩ := h
  obtain ⟨hpos, hreach, _, hvalues, _⟩ := htracks.turn hturn hfresh
  rcases Nat.lt_or_eq_of_le hreach with hpast | hslot
  · -- executed before, and lost by the runtime
    have hle : d.slot ≤ reach := Nat.le_of_lt_succ hpast
    have hseen : ∀ v ∈ d.valueIds, v ∈ x.snapshot.seen := by
      intro v hv
      rw [hvalues] at hv
      exact hholds.memory.mem_names (mem_commandsThrough hpos hle hv)
    rw [DeduplicatingStateMachine.execute_seen attempts hseen]
    exact ⟨reach, through, hattempted.concat (fun s result hs => by cases hs), htracks.marked hturn hfresh hle _,
      hholds⟩
  · have hall : commandsThrough decided reach ++ commandsOf d.slot d.valueIds = commandsThrough decided
      (reach + 1) := by
      rw [commandsThrough_succ, hvalues, hslot]
    have hnext : commandsThrough decided reach ++ commandsOf d.slot d.valueIds <+:
        commandsThrough decided (max through (reach + 1)) := by
      rw [hall]
      exact commandsThrough_mono decided (le_max_right ..)
    have hbefore := hholds.mono (List.prefix_refl _) (commandsThrough_mono decided (le_max_left through (reach + 1)))
    have hexecuted := DeduplicatingStateMachine.triple_execute hformat attempts hnext x hbefore
    cases hresult : DeduplicatingStateMachine.execute setup attempts d x with
    | error e y =>
      rw [hresult] at hexecuted
      exact ⟨reach, _, hattempted.attempt hslot hvalues _, htracks, hexecuted⟩
    | ok u y =>
      rw [hresult, hall] at hexecuted
      have hdone := (hattempted.attempt hslot hvalues (.ok ())).complete (le_max_right ..)
      exact ⟨reach + 1, _, hdone, (htracks.mono (Nat.le_succ reach)).marked hturn hfresh (le_of_eq hslot) _, hexecuted⟩

private theorem whole (h : Coherent setup decided r x) : r.runtimeSnapshot.Whole := by
  obtain ⟨_, _, _, htracks, _⟩ := h
  exact htracks.whole

def GoesOn (setup : ExecutorSetup V A) (decided : SlotIndex → List V) (attempts : List (Event V) → V → Attempt)
    (r r' : ReplicaRuntime V) (x : FileExactlyOnceExecutor V A) : Prop :=
  (r'.trace = r.trace ∧ Coherent setup decided r' x) ∨
    ∃ e, r'.trace = r.trace ++ [e] ∧ Coherent setup decided r' (x.observe setup attempts r.trace e)

variable {env : Environment V} {op : RuntimeOp V} {attempts : List (Event V) → V → Attempt}

private theorem quiet (hformat : setup.format.Faithful) (h : Coherent setup decided r x)
    (henv : ∀ d, env.execute r.trace d = result (DeduplicatingStateMachine.execute setup (attempts r.trace) d) x)
    (hq : ReplicaRuntime.Quiet env r r') : GoesOn setup decided attempts r r' x := by
  cases hq with
  | saved =>
    refine .inr ⟨_, rfl, h.log fun s result hs => ?_⟩
    cases hs
    rfl
  | informed | probed | proposed | installing | notifyFailed => exact .inr ⟨_, rfl, h.log fun s result hs => nomatch hs⟩
  | @acknowledged slot d recorder =>
    have hlogged : Coherent setup decided (r.log (.informed recorder d (.ok ()))) x := h.log
      fun s result hs => nomatch hs
    exact .inr ⟨_, rfl, hlogged.same rfl (.refl _) rfl rfl⟩
  | @notified d =>
    have hlogged : Coherent setup decided (r.log (.notified d (.ok ()))) x := h.log fun s result hs => nomatch hs
    exact .inr ⟨_, rfl, hlogged.same rfl (.refl _) rfl rfl⟩
  | counted | scheduled | timed | observed => exact .inl ⟨rfl, h.same rfl (.refl _) rfl rfl⟩
  | @executeFailed d e turn fresh answer =>
    have hexecuted := h.execute hformat turn fresh (attempts r.trace)
    rw [← henv, answer] at hexecuted
    exact .inr ⟨_, rfl, hexecuted⟩
  | @executed d turn fresh answer =>
    have hexecuted := h.execute hformat turn fresh (attempts r.trace)
    rw [← henv, answer] at hexecuted
    exact .inr ⟨_, rfl, hexecuted⟩

private theorem move (hformat : setup.format.Faithful) (h : Coherent setup decided r x)
    (henv : ∀ d, env.execute r.trace d = result (DeduplicatingStateMachine.execute setup (attempts r.trace) d) x)
    (hop : op.retains = true) (hlearnt : ∀ d, op.Learns env d → d.valueIds = decided d.slot)
    (hm : ReplicaRuntime.Move env op r r') (hfits : r'.replica.log.size < u64Max) :
    GoesOn setup decided attempts r r' x := by
  cases hm with
  | quiet hq => exact h.quiet hformat henv hq
  | @enqueued values => exact .inl ⟨rfl, h.same rfl (ReplicaCore.sameOutcome_enqueue r.replica values) rfl rfl⟩
  | @decided d ds replica learnt fresh applied => exact .inl ⟨rfl, h.retained (hlearnt d learnt) fresh applied⟩
  | @refused d e replica learnt fresh applied =>
    have hspec := ReplicaCore.triple_applyDecision h.whole.settled.ordered d r.replica rfl
    rw [applied] at hspec
    obtain rfl : replica = r.replica := h.whole.refused rfl hfits hspec
    exact .inl ⟨rfl, h⟩
  | scheduleInstalled | reconnected => exact .inl ⟨rfl, h.same rfl (.refl _) rfl rfl⟩
  | exported asked => exact absurd (.inr asked) (RuntimeOp.not_prunes hop _)
  | pruned asked => exact absurd asked (RuntimeOp.not_prunes hop _)
  | @reconfigured change next =>
    have hnext : Coherent setup decided (r.reconfigured change next) x := h.same rfl (.refl _) rfl rfl
    refine .inr ⟨_, rfl, hnext.log fun s result hs => ?_⟩
    cases hs
    rfl
  | @reconfigureFailed change next e asked anchored =>
    obtain ⟨reach, through, hattempted, htracks, hholds⟩ := h
    refine .inr ⟨_, rfl, reach, through, hattempted.concat fun s result hs => ?_, htracks, hholds⟩
    cases hs
    exact htracks.same (.refl _) rfl rfl

private theorem arming (h : Coherent setup decided r x) (ha : ReplicaRuntime.Arming r r') :
    Coherent setup decided r' x := by
  cases ha with
  | @armed slot values n =>
    have hproposed := ReplicaCore.sameOutcome_proposed
      { r.replica with pending := r.replica.pending.drop n } slot values
    exact h.same rfl ((ReplicaCore.sameOutcome_drain r.replica n).trans hproposed) rfl rfl
  | lost n => exact h.same rfl (ReplicaCore.sameOutcome_drain r.replica n) rfl rfl

end Coherent

namespace FileExactlyOnceExecutor
variable [DecidableEq V] {setup : ExecutorSetup V A} {attempts : List (Event V) → V → Attempt} {past t : List (Event V)}
  {x : FileExactlyOnceExecutor V A}

@[simp] theorem catchUp_self : x.catchUp setup attempts t t = x := by
  simp [catchUp, follow]

private theorem follow_concat (events : List (Event V)) (e : Event V) : follow setup attempts past x (events ++ [e]) =
    (follow setup attempts past x events).observe setup attempts (past ++ events) e := by
  induction events generalizing past x with
  | nil => simp [follow]
  | cons d events ih => simp only [List.cons_append, follow, ih, List.append_assoc, List.nil_append]

private theorem catchUp_concat (h : past <+: t) (e : Event V) :
    x.catchUp setup attempts past (t ++ [e]) = (x.catchUp setup attempts past t).observe setup attempts t e := by
  obtain ⟨events, rfl⟩ := h
  simp only [catchUp, List.append_assoc, List.drop_left, follow_concat]

end FileExactlyOnceExecutor

/-- A call that began when the trace was `past` and the executor `x`, at some moment of it: runtime and executor
are coherent, and a crash at any earlier moment could have been recovered from. -/
structure Underway [DecidableEq V] (setup : ExecutorSetup V A) (decided : SlotIndex → List V)
    (attempts : List (Event V) → V → Attempt) (past : List (Event V)) (x : FileExactlyOnceExecutor V A)
    (r : ReplicaRuntime V) : Prop where
  grown : past <+: r.trace
  coherent : Coherent setup decided r (x.catchUp setup attempts past r.trace)
  recoverable : ∀ t, past <+: t → t <+: r.trace → Recoverable setup decided t
    (x.catchUp setup attempts past t).disk.files

namespace Underway
variable [DecidableEq V] {setup : ExecutorSetup V A} {decided : SlotIndex → List V}
  {attempts : List (Event V) → V → Attempt}
  {past : List (Event V)} {x : FileExactlyOnceExecutor V A} {r r' : ReplicaRuntime V} {env : Environment V}
    {op : RuntimeOp V}

private theorem start (h : Coherent setup decided r x) : Underway setup decided attempts r.trace x r := by
  refine ⟨List.prefix_refl _, ?_, fun t hpast ht => ?_⟩
  · rw [FileExactlyOnceExecutor.catchUp_self]
    exact h
  · rw [ht.eq_of_length_le hpast.length_le, FileExactlyOnceExecutor.catchUp_self]
    exact h.recoverable

private theorem goesOn (h : Underway setup decided attempts past x r)
    (hnext : Coherent.GoesOn setup decided attempts r r' (x.catchUp setup attempts past r.trace)) :
    Underway setup decided attempts past x r' := by
  rcases hnext with ⟨htrace, hcoherent⟩ | ⟨e, htrace, hcoherent⟩
  · refine ⟨htrace ▸ h.grown, htrace ▸ hcoherent, htrace ▸ h.recoverable⟩
  · have hgrown : past <+: r'.trace := htrace ▸ h.grown.trans (List.prefix_append ..)
    have hnow : Coherent setup decided r' (x.catchUp setup attempts past r'.trace) := by
      rw [htrace, FileExactlyOnceExecutor.catchUp_concat h.grown]
      exact hcoherent
    refine ⟨hgrown, hnow, fun t hpast ht => ?_⟩
    rw [htrace] at ht
    rcases List.prefix_concat_iff.mp ht with hall | hearlier
    · rw [hall, ← htrace]
      exact hnow.recoverable
    · exact h.recoverable t hpast hearlier

/-- What a call leaves, when it ends and when it is cut short. -/
theorem called (hformat : setup.format.Faithful) (h : Coherent setup decided r x) (hop : op.retains = true)
    (hlearnt : ∀ d, op.Learns env d → d.valueIds = decided d.slot)
    (hfits : (ExactlyOnceReplica.called env setup attempts r x op).replica.log.size < u64Max) :
    Underway setup decided attempts r.trace x (ExactlyOnceReplica.called env setup attempts r x op) := by
  let executing := env.executing setup attempts r.trace x
  have hlearnt : ∀ d, op.Learns executing d → d.valueIds = decided d.slot := hlearnt
  have hexecute : ∀ (s : ReplicaRuntime V) d, executing.execute s.trace d =
      result (DeduplicatingStateMachine.execute setup (attempts s.trace) d)
        (x.catchUp setup attempts r.trace s.trace) :=
    fun s d => rfl
  have hkeeps : Keeps (fun s => s.replica.log.size < u64Max → Underway setup decided attempts r.trace x s)
      (ReplicaRuntime.perform executing op) := by
    apply ReplicaRuntime.keeps_every_call
    · intro s s' hs hm hfits
      have hbefore := hs ((ReplicaRuntime.size_le_of_move hop hm).trans_lt hfits)
      exact hbefore.goesOn (hbefore.coherent.move hformat (hexecute s) hop hlearnt hm hfits)
    · intro _ s s' hs ha hfits
      have hbefore := hs ((ReplicaRuntime.size_le_of_arming ha).trans_lt hfits)
      exact hbefore.goesOn (.inl ⟨ha.trace, hbefore.coherent.arming ha⟩)
  exact hkeeps.after (fun _ => start h) hfits

end Underway

namespace ExactlyOnceReplica
variable [DecidableEq V] {env : Environment V} {setup : ExecutorSetup V A} {attempts : List (Event V) → V → Attempt}
  {decided : SlotIndex → List V}

def Sound (setup : ExecutorSetup V A) (decided : SlotIndex → List V) : ExactlyOnceReplica V A → Prop
  | .up r x => Coherent setup decided r x
  | .down t files => Recoverable setup decided t files

private theorem sound_start {t : List (Event V)} {found : FileSystem StoreFile UInt8}
    (h : Recoverable setup decided t found)
    (hsettled : found.earlier = []) {surroundings : Surroundings} {x : FileExactlyOnceExecutor V A} {u : Unit}
    (hload : FileExactlyOnceExecutor.load setup ⟨setup.initial, ⟨found, surroundings, true⟩⟩ = .ok u x) {kept : Nat}
    {config : ReplicaRuntimeConfig}
    (hboot : ReplicaRuntime.Booted config ((survivingSnapshots t).getD kept (lastSaved t)) r)
    (htrace : r.trace = t ++ [.started]) :
    Coherent setup decided r x := by
  obtain ⟨reach, through, hattempted, hfiles⟩ := h
  obtain ⟨hread, hdisk⟩ := FileExactlyOnceExecutor.load_eq_ok hload
  obtain ⟨s, hs, hbetween⟩ := hfiles.read
  obtain rfl : x.snapshot = s := Option.some.inj (hread.symm.trans hs)
  refine ⟨reach, through, htrace ▸ hattempted.concat (fun s result hs => nomatch hs), ?_, hbetween, ?_⟩
  · cases hstored : (survivingSnapshots t).getD kept (lastSaved t) with
    | none =>
      obtain ⟨hreplica, hdecisions, _, hdone, _⟩ := hboot.empty hstored
      exact .boot config.replica (congrArg ReplicaCore.snapshot hreplica) hdecisions hdone
    | some s =>
      obtain ⟨result, hmem⟩ := saved_of_stored hstored
      rw [hboot.loaded s hstored]
      exact hattempted.saved s result hmem
  · rw [hdisk]
    refine (hfiles.settled hsettled).mono fun c hc => ⟨x.snapshot, ?_, hbetween, Finset.Subset.refl _⟩
    rw [hc]
    exact hread

private theorem sound_step (hformat : setup.format.Faithful) {p : ExactlyOnceReplica V A} {a : ExactlyOnceAction V}
    (h : p.Sound setup decided) (hretains : p.retains env setup attempts a = true) (hagrees : a.Agrees env decided) :
    (p.step env setup attempts a).Sound setup decided := by
  have hcall : ∀ (r : ReplicaRuntime V) x op, Coherent setup decided r x →
      (op.retains && (called env setup attempts r x op).replica.log.size < u64Max) = true →
      (∀ d, op.Learns env d → d.valueIds = decided d.slot) →
      Underway setup decided attempts r.trace x (called env setup attempts r x op) := by
    intro r x op hr hop hlearnt
    simp only [Bool.and_eq_true, decide_eq_true_eq] at hop
    exact Underway.called hformat hr hop.1 hlearnt hop.2
  cases p with
  | up r x =>
    cases a with
    | call op =>
      have hdone := hcall r x op h hretains hagrees
      simp only [step, resume]
      split_ifs
      · exact hdone.coherent
      · exact hdone.coherent.recoverable
    | crash op requests =>
      have hdone := hcall r x op h hretains hagrees
      refine hdone.recoverable _ ?_ (List.take_prefix ..)
      obtain ⟨events, hevents⟩ := hdone.grown
      rw [← hevents, List.take_length_add_append]
      exact List.prefix_append ..
    | restart => exact h
  | down t files =>
    cases a with
    | call | crash => exact h
    | restart config proposer recorders noop kept survivor lost surroundings =>
      obtain ⟨reach, through, hattempted, hfiles⟩ := h
      have hfound : Recoverable setup decided t (files.crash survivor lost) :=
        ⟨reach, through, hattempted, hfiles.crash survivor lost⟩
      simp only [step]
      split
      · rename_i u x r hload hnew
        obtain ⟨hboot, htrace⟩ := ReplicaRuntime.new_booted hnew
        exact sound_start hfound rfl hload (hboot.noop noop) ((ReplicaRuntime.trace_noop r noop).trans htrace)
      · exact hfound

/-- In every state of a run, whatever the executor's file holds, or may hold after a crash, is
the fold of `apply` over the commands of the committed decisions in slot order, up to some
command, without those whose ID came earlier; and the IDs seen are the IDs of these commands. -/
theorem commands_take_effect_once (env : Environment V) (setup : ExecutorSetup V A) (hformat : setup.format.Faithful)
    (attempts : List (Event V) → V → Attempt) (decided : SlotIndex → List V) (files : FileSystem StoreFile UInt8)
    (hfiles : files.Retains .path .temporary (· = none)) (actions : List (ExactlyOnceAction V))
    (hrun : Along (step env setup attempts) (fun p a => p.retains env setup attempts a = true) (.down [] files) actions)
    (hdecided : ∀ a ∈ actions, a.Agrees env decided) :
    let p := run (step env setup attempts) (.down [] files) actions
    ∀ directory ∈ p.files.candidates, ∃ snapshot, setup.snapshotFrom (p.files.contents (directory .path)) =
      some snapshot ∧
      ∃ committed : List (Decision V), committed.map (·.slot) = List.range' 1 committed.length ∧
        (∀ d ∈ committed, ∃ result, .executed d result ∈ p.trace) ∧
        ∃ commands, commands <+: committed.flatMap (fun d => commandsOf d.slot d.valueIds) ∧
          snapshot.application = run (fun a c => setup.apply a c.1 c.2) setup.initialApplication
            (firsts Prod.snd commands) ∧
          snapshot.seen = (commands.map Prod.snd).toFinset := by
  intro p directory hdirectory
  have hfresh : Sound setup decided (.down [] files) := by
    refine ⟨0, 0, ⟨le_refl 0, fun slot hpos hle => ?_, fun s result hs => nomatch hs⟩, hfiles.mono fun c hc => ?_⟩
    · exact absurd (hpos.trans hle) (by decide)
    · rw [hc]
      exact ⟨setup.initial, rfl, .start _⟩
  have hsound : p.Sound setup decided := by
    have hboth := hrun.and (Along.of_mem hdecided _)
    exact run_invariant (I := Sound setup decided) (fun q a hq ha => sound_step hformat hq ha.1 ha.2) hfresh hboth
  have hleft : Recoverable setup decided p.trace p.files := by
    cases hp : p with
    | up r x =>
      rw [hp] at hsound
      exact Coherent.recoverable hsound
    | down t files =>
      rw [hp] at hsound
      exact hsound
  obtain ⟨reach, through, hattempted, hretains⟩ := hleft
  obtain ⟨snapshot, hsnapshot, commands, _, hpart, houtcome⟩ := hretains.holds directory hdirectory
  obtain ⟨committed, hslots, hexecuted, hcommands⟩ := hattempted.exists_committed
  exact ⟨snapshot, hsnapshot, committed, hslots, hexecuted, commands, hcommands ▸ hpart, congrArg Prod.fst houtcome,
    congrArg Prod.snd houtcome⟩

end ExactlyOnceReplica

/-! Value 11 is decided for slots 1 and 2. In slot 1 its save fails after the rename, the
process dies, and the renamed file is found: the next lifetime executes slot 1 again. -/

def loggingExecutor : ExecutorSetup Nat (List (SlotIndex × Nat)) where
  format := .listed .exactlyOnce [⟨0, {10}, [(1, 10)]⟩, ⟨0, {11, 10}, [(1, 10), (1, 11)]⟩,
    ⟨0, {20, 11, 10}, [(1, 10), (1, 11), (2, 20)]⟩]
  path := "app"
  temporary := "app.exactly-once.tmp"
  parent := "."
  maxSnapshotBytes := 100
  initialApplication := []
  apply := fun applied slot v => applied ++ [(slot, v)]

def unsyncedOnce (t : List (Event Nat)) (v : Nat) : Attempt :=
  if v = 11 ∧ t.length ≤ 3 then
    { Attempt.obliging with surroundings := { Surroundings.obliging with
        operation := fun p => if p = .exactlyOnceDirectorySynced then .refused "io error" [] else .done } }
  else .obliging

def repeatedCommand : List (ExactlyOnceAction Nat) :=
  [.restart ReplicaRuntime.replicaTwo ⟨2, 0, ProposerConfig.default⟩ [1, 2, 3] none 0 0 (fun _ => []) .obliging,
    .call (.receiveDecision ⟨1, [10, 11], 1, 4⟩), .crash .recover 0,
    .restart ReplicaRuntime.replicaTwo ⟨2, 0, ProposerConfig.default⟩ [1, 2, 3] none 0 2 (fun _ => []) .obliging,
    .call .recover, .call (.receiveDecision ⟨2, [11, 20], 1, 4⟩)]

private theorem RuntimeOp.learns_obliging {op : RuntimeOp V} (h : op.Learns .obliging d) :
    op = .receiveDecision d := by
  rcases h with h | ⟨_, _, _, _, h⟩
  · exact h
  · cases h

theorem ExactlyOnceReplica.commands_take_effect_once_repeated :
    let p := run (step .obliging loggingExecutor unsyncedOnce) (.down [] .empty) repeatedCommand
    let applied := [(1, 10), (1, 11), (2, 20)]
    (loggingExecutor.snapshotFrom (p.files.read .path)).map (·.application) = some applied ∧
      p.trace.filterMap Event.executedSlot = [1, 2] ∧
      ∃ committed : List (Decision Nat), committed.map (·.slot) = List.range' 1 committed.length ∧
        ∃ commands, commands <+: committed.flatMap (fun d => commandsOf d.slot d.valueIds) ∧
          applied = run (fun a c => a ++ [c]) [] (firsts Prod.snd commands) := by
  intro p applied
  have hrun : Along (step .obliging loggingExecutor unsyncedOnce)
      (fun p a => p.retains .obliging loggingExecutor unsyncedOnce a = true) (.down [] .empty) repeatedCommand := by
    decide +kernel
  have hdecided : ∀ a ∈ repeatedCommand, a.Agrees .obliging fun slot => if slot = 1 then [10, 11] else [11, 20] := by
    intro a ha
    simp only [repeatedCommand, List.mem_cons, List.not_mem_nil, or_false] at ha
    rcases ha with rfl | rfl | rfl | rfl | rfl | rfl
    · exact True.intro
    · rintro d hd
      cases RuntimeOp.learns_obliging hd
      rfl
    · rintro d hd
      cases RuntimeOp.learns_obliging hd
    · exact True.intro
    · rintro d hd
      cases RuntimeOp.learns_obliging hd
    · rintro d hd
      cases RuntimeOp.learns_obliging hd
      rfl
  have hstate : (loggingExecutor.snapshotFrom (p.files.read .path)).map (·.application) = some applied := by
    decide +kernel
  have hall := commands_take_effect_once .obliging loggingExecutor (SnapshotFormat.listed_faithful _ _) unsyncedOnce
    _ .empty (FileSystem.retains_empty rfl) repeatedCommand hrun hdecided p.files.directory
      p.files.directory_mem_candidates
  obtain ⟨snapshot, hsnapshot, committed, hslots, _, commands, hcommands, happlication, _⟩ := hall
  refine ⟨hstate, by decide +kernel, committed, hslots, commands, hcommands, ?_⟩
  have hsame : (loggingExecutor.snapshotFrom (p.files.read .path)) = some snapshot := hsnapshot
  rw [hsame] at hstate
  exact (Option.some.inj hstate).symm.trans happlication

end QuePaxa
