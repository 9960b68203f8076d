import QuePaxa.Library.Ledger
import QuePaxa.Runtime.Deployment
import QuePaxa.Runtime.Execution

/-! Checkpoints of the synchronous runtime. Neither `checkpoint_through` nor
`create_state_transfer` asks whether the slots they give up were executed, and the latter
exports the application before it looks at the committed prefix. As long as the slots are
marked executed, the marks are true: every one goes back to an execution that succeeded. -/
namespace QuePaxa
open Library
variable {V ε : Type}
variable {slot : SlotIndex}

def checkpointLedger (did : ε → Option SlotIndex) (stored : ε → Option (RuntimeSnapshot V))
    (exported : ε → Option SlotIndex) :
    Ledger ε (RuntimeSnapshot V) where
  did
  stored
  exported
  marks := (·.executed)
  held := fun s slot => s.decisions.get slot ≠ none
  floor := (·.replica.checkpointedThrough)
  reach := (·.replica.nextCommit - 1)

section
variable {did exported : ε → Option SlotIndex} {stored : ε → Option (RuntimeSnapshot V)} {s₀ s s' : RuntimeSnapshot V}
  {t₀ t : List ε}

namespace RuntimeSnapshot

theorem since_same (h : (checkpointLedger did stored exported).Since s₀ t₀ s t) (hr : s.replica.SameOutcome s'.replica)
    (hd : s'.decisions = s.decisions) (he : s'.executed = s.executed) :
    (checkpointLedger did stored exported).Since s₀ t₀ s' t := by
  apply h.grow he _ hr.checkpointedThrough
  · intro k hk
    show s'.decisions.get k ≠ none
    rw [hd]
    exact hk
  · exact Nat.sub_le_sub_right hr.nextCommit.ge 1

theorem since_grown (h : (checkpointLedger did stored exported).Since s₀ t₀ s t)
    (hgrow : s.replica.nextCommit ≤ s'.replica.nextCommit)
    (hfloor : s'.replica.checkpointedThrough = s.replica.checkpointedThrough)
    (he : s'.executed = s.executed) (hd : ∀ slot, s.decisions.get slot ≠ none → s'.decisions.get slot ≠ none) :
    (checkpointLedger did stored exported).Since s₀ t₀ s' t :=
  h.grow he (Nat.sub_le_sub_right hgrow 1) hfloor hd

theorem since_pruned (h : (checkpointLedger did stored exported).Since s₀ t₀ s t)
    (hdone : (checkpointLedger did stored exported).DoneBetween t₀ s₀.replica.checkpointedThrough slot)
    (hfloor : s'.replica.checkpointedThrough = max slot s.replica.checkpointedThrough)
    (hnext : s'.replica.nextCommit = s.replica.nextCommit) (he : s'.executed = s.executed.filter (slot < ·))
    (hd : s'.decisions = s.decisions.retain fun index _ => slot < index) :
    (checkpointLedger did stored exported).Since s₀ t₀ s' t := by
  apply h.change
  · intro k hk
    rw [show (checkpointLedger did stored exported).marks s' = s.executed.filter (slot < ·) from he] at hk
    exact Finset.mem_of_mem_filter k hk
  · exact Nat.sub_le_sub_right hnext.ge 1
  · exact (le_max_right _ _).trans hfloor.ge
  · intro k hm hn
    rw [show (checkpointLedger did stored exported).floor s' = max slot s.replica.checkpointedThrough from hfloor] at hn
    have hk : k ≤ slot := (le_max_iff.mp hn).resolve_right (not_le.mpr hm)
    exact (hdone k (h.floor.trans_lt hm) hk).later h.later
  · intro k hk
    show s'.decisions.get k ≠ none ∨ k ≤ s'.replica.checkpointedThrough
    rw [hd, OrderedMap.get_retain_key, hfloor]
    by_cases hslot : slot < k
    · rw [if_pos (decide_eq_true hslot)]
      exact .inl hk
    · exact .inr ((not_lt.mp hslot).trans (le_max_left _ _))

end RuntimeSnapshot
end

def Event.exportedThrough : Event V → Option SlotIndex
  | .exported through _ => some through
  | _ => none

def executionLedger : Ledger (Event V) (RuntimeSnapshot V) :=
  checkpointLedger Event.executedSlot Event.stored Event.exportedThrough

def Event.Executed (t : List (Event V)) (slot : SlotIndex) :
    Prop := ∃ d : Decision V, d.slot = slot ∧ .executed d (.ok ()) ∈ t

theorem Event.executed_of_done {t : List (Event V)} (h : executionLedger.Done t slot) :
    Event.Executed t slot := by
  obtain ⟨e, he, hslot⟩ := h
  cases e with
  | executed d result =>
    cases result with
    | ok u => exact ⟨d, Option.some.inj hslot, he⟩
    | error => cases hslot
  | _ => cases hslot

namespace ReplicaRuntime
variable {env : Environment V} {op : RuntimeOp V} {r₀ r r' : ReplicaRuntime V}

def Balanced (r : ReplicaRuntime V) : Prop := executionLedger.Balanced r.runtimeSnapshot r.trace

def AccountsSince (r₀ r : ReplicaRuntime V) : Prop :=
  executionLedger.Since r₀.runtimeSnapshot r₀.trace r.runtimeSnapshot r.trace

def givesUpMarked (r : ReplicaRuntime V) : RuntimeOp V → Bool
  | .checkpointThrough slot => Finset.Ioc r.replica.checkpointedThrough slot ⊆ r.executed
  | .createStateTransfer slot =>
    slot ≤ r.replica.committedThrough && decide (Finset.Ioc r.replica.checkpointedThrough slot ⊆ r.executed)
  | _ => true

theorem Balanced.done (h : r.Balanced) (hop : r.givesUpMarked op = true) (hslot : op.Prunes slot) :
    executionLedger.DoneBetween r.trace r.replica.checkpointedThrough slot := by
  have hmarked : Finset.Ioc r.replica.checkpointedThrough slot ⊆ r.executed := by
    rcases hslot with rfl | rfl
    · exact of_decide_eq_true hop
    · exact of_decide_eq_true (Bool.and_eq_true_iff.mp hop).2
  exact fun k hm hn => h.backed k (hmarked (Finset.mem_Ioc.mpr ⟨hm, hn⟩))

private theorem Balanced.covers (h : r.Balanced) (hop : r.givesUpMarked op = true)
    (hslot : op = .createStateTransfer slot) : executionLedger.Covers r.runtimeSnapshot r.trace slot := by
  have hdone := h.done hop (.inr hslot)
  subst hslot
  exact ⟨of_decide_eq_true (Bool.and_eq_true_iff.mp hop).1, hdone⟩

namespace AccountsSince

theorem log {e : Event V} (h : AccountsSince r₀ r) (hs : e.stored = none) (hx : e.exportedThrough = none) :
    AccountsSince r₀ (r.log e) := Ledger.Since.silent h hs hx

theorem saved (h : AccountsSince r₀ r) (result : Result Unit) :
    AccountsSince r₀ (r.log (.saved r.runtimeSnapshot result)) := by
  cases result with
  | error e => exact h.log rfl rfl
  | ok u => exact Ledger.Since.concat h (fun s hs => (Option.some.inj hs).symm) fun n hn => nomatch hn

private theorem quiet (h : AccountsSince r₀ r) (hq : Quiet env r r') : AccountsSince r₀ r' := by
  cases hq with
  | saved => exact h.saved _
  | informed | probed | proposed | installing | executeFailed | notifyFailed => exact h.log rfl rfl
  | @acknowledged slot d recorder =>
    exact RuntimeSnapshot.since_same (h.log (e := .informed recorder d (.ok ())) rfl rfl) (.refl _) rfl rfl
  | @notified d => exact RuntimeSnapshot.since_same (h.log (e := .notified d (.ok ())) rfl rfl) (.refl _) rfl rfl
  | counted | scheduled | timed | observed => exact RuntimeSnapshot.since_same h (.refl _) rfl rfl
  | executed => exact Ledger.Since.mark h rfl rfl rfl rfl rfl rfl rfl

end AccountsSince

private theorem Booted.balanced {config : ReplicaRuntimeConfig} {t : List (Event V)} (h : Booted config (lastSaved t) r)
    (htrace : r.trace = t ++ [.started]) (hsound : executionLedger.Sound t) : r.Balanced := by
  rw [Balanced, htrace]
  refine ⟨hsound.silent rfl, Ledger.Backed.later ?_ (List.prefix_append t [.started])⟩
  cases hlast : lastSaved t with
  | some s =>
    rw [h.loaded s hlast]
    exact hsound.latest hlast
  | none =>
    have hnone : r.executed = ∅ := (h.empty hlast).2.2.2.1
    intro k hk
    rw [show executionLedger.marks r.runtimeSnapshot = r.executed from rfl, hnone] at hk
    exact absurd hk (Finset.notMem_empty k)

variable [DecidableEq V]

private theorem AccountsSince.move (h : AccountsSince r₀ r) (hbal : r₀.Balanced) (hop : r₀.givesUpMarked op = true)
    (hm : Move env op r r') : AccountsSince r₀ r' := by
  cases hm with
  | quiet hq => exact h.quiet hq
  | @enqueued values => exact RuntimeSnapshot.since_same h (ReplicaCore.sameOutcome_enqueue r.replica values) rfl rfl
  | @decided d ds replica learnt fresh applied =>
    obtain ⟨hgrow, hfloor⟩ := ReplicaCore.frontier_applyDecision r.replica d
    rw [after_ok applied] at hgrow hfloor
    refine RuntimeSnapshot.since_grown h hgrow hfloor rfl fun slot hslot => ?_
    show (r.decisions.insert d.slot d).get slot ≠ none
    rw [OrderedMap.get_insert]
    split_ifs
    · exact Option.some_ne_none d
    · exact hslot
  | @refused d e replica learnt fresh applied =>
    obtain ⟨hgrow, hfloor⟩ := ReplicaCore.frontier_applyDecision r.replica d
    rw [after_error applied] at hgrow hfloor
    exact RuntimeSnapshot.since_grown h hgrow hfloor rfl fun slot hslot => hslot
  | scheduleInstalled | reconnected => exact RuntimeSnapshot.since_same h (.refl _) rfl rfl
  | @exported through asked result =>
    refine Ledger.Since.concat h (fun s hs => nomatch hs) fun n hn => ?_
    exact Option.some.inj hn ▸ hbal.covers hop asked
  | @pruned slot asked committed =>
    exact RuntimeSnapshot.since_pruned h (hbal.done hop asked) (RuntimeSnapshot.checkpointedThrough_prune committed) rfl
      rfl rfl
  | @reconfigured change next =>
    have hnext : AccountsSince r₀ (r.reconfigured change next) := RuntimeSnapshot.since_same h (.refl _) rfl rfl
    exact hnext.saved _
  | reconfigureFailed => exact h.log rfl rfl

private theorem AccountsSince.arming (h : AccountsSince r₀ r) (ha : Arming r r') : AccountsSince r₀ r' := by
  cases ha with
  | @armed slot values n =>
    have hproposed := ReplicaCore.sameOutcome_proposed
      { r.replica with pending := r.replica.pending.drop n } slot values
    exact RuntimeSnapshot.since_same h ((ReplicaCore.sameOutcome_drain r.replica n).trans hproposed) rfl rfl
  | lost n => exact RuntimeSnapshot.since_same h (ReplicaCore.sameOutcome_drain r.replica n) rfl rfl

/-- A call that gives up only marked slots gives up only executed ones. -/
theorem Balanced.perform (h : r.Balanced) (hop : r.givesUpMarked op = true) :
    AccountsSince r (after (ReplicaRuntime.perform env op) r) := by
  have hkeeps : Keeps (AccountsSince r) (ReplicaRuntime.perform env op) :=
    keeps_every_call (fun _ _ hr hm => hr.move h hop hm) fun _ _ _ hr ha => hr.arming ha
  exact hkeeps.after (Ledger.Balanced.here h)

private theorem Balanced.install {incoming : StateTransferSnapshot V} (h : r.Balanced)
    (hmarks : incoming.runtime.executed ⊆ r.executed) :
    (after (ReplicaRuntime.installStateTransfer env incoming) r).Balanced := by
  have hlog : ∀ s : ReplicaRuntime V, s.Balanced → ∀ e : Event V, e.stored = none → (s.log e).Balanced :=
    fun s hs e he => ⟨hs.sound.silent he, hs.backed.later (List.prefix_append ..)⟩
  rcases ReplicaRuntime.installStateTransfer_cases env incoming r with
    ⟨e, heq⟩ | ⟨e, heq⟩ | ⟨e, heq⟩ | ⟨r', heq, _, _, _, hsnapshot, _, htrace⟩
  · rw [after_error heq]
    exact h
  · rw [after_error heq]
    exact hlog r h _ rfl
  · rw [after_error heq]
    exact hlog _ (hlog r h _ rfl) _ rfl
  · rw [after_ok heq]
    have himported := hlog r h (.imported incoming.through (.ok ())) rfl
    have hincoming : executionLedger.Backed incoming.runtime (r.trace ++ [.imported incoming.through (.ok ())]) :=
      fun k hk => himported.backed k (hmarks hk)
    rw [Balanced, hsnapshot, htrace]
    refine ⟨himported.sound.concat fun s hs => ?_, hincoming.later (List.prefix_append ..)⟩
    exact Option.some.inj hs ▸ hincoming

end ReplicaRuntime

namespace Deployment
variable [DecidableEq V] {env : Environment V}

def givesUpMarked : Process V → DeploymentAction V → Bool
  | .up r, .process (.call op) | .up r, .process (.crash op _) => r.givesUpMarked op
  | .up r, .installStateTransfer incoming | .up r, .installCrash incoming _ => incoming.runtime.executed ⊆ r.executed
  | _, _ => true

theorem balanced_run {actions : List (DeploymentAction V)}
    (h : Along (step env) (fun p a => givesUpMarked p a = true) Process.fresh actions) :
    (run (step env) Process.fresh actions).Upholds ReplicaRuntime.Balanced executionLedger.Sound := by
  refine upholds_run ?_ (fun t p hcut ht => ht.earlier hcut) Ledger.sound_nil ?_ ?_ ?_ h
  · exact fun r hr => hr.sound
  · intro r op hr hmarked
    have hop : r.givesUpMarked op = true := by
      rcases hmarked with hop | ⟨n, hop⟩
      · exact hop
      · exact hop
    exact (hr.perform hop).toBalanced
  · intro r incoming hr hmarked
    apply hr.install
    rcases hmarked with hmarks | ⟨n, hmarks⟩
    · exact of_decide_eq_true hmarks
    · exact of_decide_eq_true hmarks
  · intro t config proposer recorders noop r ht _ hnew
    obtain ⟨hboot, htrace⟩ := ReplicaRuntime.new_booted hnew
    exact (hboot.noop noop).balanced ((ReplicaRuntime.trace_noop r noop).trans htrace) ht

end Deployment
end QuePaxa
