import QuePaxa.Library.Delivery
import QuePaxa.Runtime.Lifetimes
import QuePaxa.Runtime.Restart
import QuePaxa.Runtime.Settled

/-! In-order delivery in the synchronous runtime. Every way into `dispatch_committed` goes
through the retained decisions from the lowest slot on, so the executed slots are a prefix
of the committed ones and the notified slots a prefix of the executed ones, wherever a call
stops. -/
namespace QuePaxa
open Library
variable {V : Type}

namespace Event

def isStart : Event V → Bool
  | .started => true
  | _ => false

def executedSlot : Event V → Option SlotIndex
  | .executed d (.ok ()) => some d.slot
  | _ => none

def notifiedSlot : Event V → Option SlotIndex
  | .notified d (.ok ()) => some d.slot
  | _ => none

structure Silent (e : Event V) : Prop where
  start : e.isStart = false
  executed : e.executedSlot = none
  notified : e.notifiedSlot = none
  stored : e.stored = none

end Event

def executions : Library.Delivery (Event V) (RuntimeSnapshot V) where
  starts := Event.isStart
  stored := Event.stored
  number := Event.executedSlot
  marks := (·.executed)

def notifications : Library.Delivery (Event V) (RuntimeSnapshot V) where
  starts := Event.isStart
  stored := Event.stored
  number := Event.notifiedSlot
  marks := (·.notified)

structure RuntimeSnapshot.Deliverable (s : RuntimeSnapshot V) : Prop where
  whole : s.Whole
  executed : s.executed.card < s.replica.nextCommit
  notified : s.notified.card ≤ s.executed.card

/-- The first retained decision without a mark is the one of the next slot. -/
theorem RuntimeSnapshot.Whole.slot_eq_next {s : RuntimeSnapshot V} {d : Decision V} (h : s.Whole)
    {done : Finset SlotIndex}
    {next : Nat} (hmarks : Library.Delivery.Marks done next) (hnext : 1 ≤ next) {slot : SlotIndex}
    (hget : s.decisions.get slot = some d) (hle : slot < s.replica.nextCommit)
    (hbefore : ∀ k d', s.decisions.get k = some d' → k < slot → d'.slot ∈ done) (hfresh : d.slot ∉ done) :
    d.slot = next := by
  obtain ⟨hlive, hkey⟩ := h.settled.retained slot d hget
  have hpos : 1 ≤ slot := Nat.one_le_of_lt hlive
  rw [hkey] at hfresh ⊢
  have hge : next ≤ slot := not_lt.mp fun hlt => hfresh ((hmarks slot).mpr ⟨hpos, hlt⟩)
  refine le_antisymm (not_lt.mp fun hgt => ?_) hge
  -- the decision of the next slot would come before this one, and be marked
  have hmem := (h.mem_ready next).mpr ⟨hnext, hgt.trans hle⟩
  obtain ⟨d', hget'⟩ := (OrderedMap.mem_keys ..).mp hmem
  have hget' := ((OrderedMap.get_upTo ..).mp hget').1
  have hdone := hbefore next d' hget' hgt
  rw [(h.settled.retained next d' hget').2] at hdone
  exact absurd ((hmarks next).mp hdone).2 (lt_irrefl next)

structure DeliveredInOrder (t : List (Event V)) : Prop where
  executes : executions.Orderly t
  notifies : notifications.Orderly t
  stored : StoredAll RuntimeSnapshot.Deliverable t
  behind : ∀ past d, past ++ [.notified d (.ok ())] <+: t → d.slot < executions.next past

namespace DeliveredInOrder
variable {t t' : List (Event V)} {e : Event V}

private theorem nil : DeliveredInOrder ([] : List (Event V)) where
  executes := Library.Delivery.orderly_nil
  notifies := Library.Delivery.orderly_nil
  stored := Always.nil
  behind := fun past _ hp =>
    absurd (List.prefix_nil.mp hp) (List.append_ne_nil_of_right_ne_nil past (List.cons_ne_nil _ []))

theorem earlier (h : DeliveredInOrder t) (hp : t' <+: t) : DeliveredInOrder t' :=
  ⟨h.executes.earlier hp, h.notifies.earlier hp, Always.earlier h.stored hp,
    fun past d hpast => h.behind past d (hpast.trans hp)⟩

theorem behind_concat (h : DeliveredInOrder t) (he : e.notifiedSlot = none) (past : List (Event V)) (d : Decision V)
    (hpast : past ++ [.notified d (.ok ())] <+: t ++ [e]) : d.slot < executions.next past := by
  rcases concat_prefix_concat.mp hpast with ⟨_, rfl⟩ | hold
  · cases he
  · exact h.behind past d hold

theorem unstored (h : DeliveredInOrder t) (hx : e.executedSlot = none) (hn : e.notifiedSlot = none)
    (hs : e.stored = none) :
    DeliveredInOrder (t ++ [e]) := by
  refine ⟨h.executes.silent hx hs, h.notifies.silent hn hs, Always.concat h.stored fun s hs' => ?_, h.behind_concat hn⟩
  rw [hs] at hs'
  cases hs'

end DeliveredInOrder

structure InOrder (s : RuntimeSnapshot V) (t : List (Event V)) : Prop extends DeliveredInOrder t where
  whole : s.Whole
  executed : Library.Delivery.Marks s.executed (executions.next t)
  notified : Library.Delivery.Marks s.notified (notifications.next t)
  committed : executions.next t ≤ s.replica.nextCommit
  pending : notifications.next t ≤ executions.next t
  retained : ∀ d, .executed d (.ok ()) ∈ since Event.isStart t → s.decisions.get d.slot = some d

namespace InOrder
variable {s s' : RuntimeSnapshot V} {t : List (Event V)} {e : Event V} {d : Decision V}

private theorem retained_concat (h : InOrder s t) (hx : e.executedSlot = none) (d : Decision V)
    (hd : .executed d (.ok ()) ∈ since Event.isStart (t ++ [e])) : s.decisions.get d.slot = some d := by
  rw [since_concat] at hd
  split_ifs at hd
  · cases hd
  · rcases List.mem_append.mp hd with hold | hnew
    · exact h.retained d hold
    · rw [← List.mem_singleton.mp hnew] at hx
      cases hx

theorem same (h : InOrder s t) (hr : s.replica.SameOutcome s'.replica) (hd : s'.decisions = s.decisions)
    (he : s'.executed = s.executed) (hn : s'.notified = s.notified) : InOrder s' t := by
  refine ⟨h.toDeliveredInOrder, h.whole.same hr hd, he ▸ h.executed, hn ▸ h.notified, ?_, h.pending, hd ▸ h.retained⟩
  rw [hr.nextCommit]
  exact h.committed

theorem silent (h : InOrder s t) (he : e.Silent) : InOrder s (t ++ [e]) := by
  have hx : executions.next (t ++ [e]) = executions.next t := Library.Delivery.next_concat_silent he.start he.executed
  have hn : notifications.next (t ++ [e]) = notifications.next t :=
    Library.Delivery.next_concat_silent he.start he.notified
  refine ⟨h.unstored he.executed he.notified he.stored, h.whole, ?_, ?_, ?_, ?_, h.retained_concat he.executed⟩
  · exact hx ▸ h.executed
  · exact hn ▸ h.notified
  · exact hx ▸ h.committed
  · rw [hx, hn]
    exact h.pending

theorem saved (h : InOrder s t) (result : Result Unit) : InOrder s (t ++ [.saved s result]) := by
  cases result with
  | error e => exact h.silent ⟨rfl, rfl, rfl, rfl⟩
  | ok u =>
    have hx : executions.next (t ++ [.saved s (.ok ())]) = executions.next t :=
      Library.Delivery.next_concat_silent rfl rfl
    have hn : notifications.next (t ++ [.saved s (.ok ())]) = notifications.next t :=
      Library.Delivery.next_concat_silent rfl rfl
    have hcard := h.executed.card Library.Delivery.one_le_next
    have hcard' := h.notified.card Library.Delivery.one_le_next
    have hdeliverable : s.Deliverable := by
      refine ⟨h.whole, hcard.trans_le h.committed, Nat.le_of_succ_le_succ ?_⟩
      rw [Nat.succ_eq_add_one, Nat.succ_eq_add_one, hcard, hcard']
      exact h.pending
    refine ⟨⟨Library.Delivery.orderly_concat.mpr ⟨h.executes, ?_, ?_⟩, Library.Delivery.orderly_concat.mpr
      ⟨h.notifies, ?_, ?_⟩, ?_,
      h.behind_concat rfl⟩, h.whole, hx ▸ h.executed, hn ▸ h.notified, hx ▸ h.committed, ?_, h.retained_concat rfl⟩
    · exact fun k hk => nomatch hk
    · exact fun s' hs' => Option.some.inj hs' ▸ h.executed
    · exact fun k hk => nomatch hk
    · exact fun s' hs' => Option.some.inj hs' ▸ h.notified
    · exact Always.concat h.stored fun s' hs' => Option.some.inj hs' ▸ hdeliverable
    · rw [hx, hn]
      exact h.pending

private theorem execute (h : InOrder s t) (hslot : d.slot = executions.next t) (hget : s.decisions.get d.slot = some d)
    (hcommitted : d.slot < s.replica.nextCommit) :
    InOrder { s with executed := insert d.slot s.executed } (t ++ [.executed d (.ok ())]) := by
  have hx : executions.next (t ++ [.executed d (.ok ())]) = executions.next t + 1 :=
    Library.Delivery.next_concat_number rfl rfl
  have hn : notifications.next (t ++ [.executed d (.ok ())]) = notifications.next t :=
    Library.Delivery.next_concat_silent rfl rfl
  refine ⟨⟨Library.Delivery.orderly_concat.mpr ⟨h.executes, ?_, ?_⟩, h.notifies.silent rfl rfl, ?_,
    h.behind_concat rfl⟩,
    h.whole.same (.refl _) rfl, ?_, hn ▸ h.notified, ?_, ?_, ?_⟩
  · exact fun k hk => Option.some.inj hk ▸ hslot
  · exact fun s' hs' => nomatch hs'
  · exact Always.concat h.stored fun s' hs' => nomatch hs'
  · rw [hx, hslot]
    exact h.executed.insert Library.Delivery.one_le_next
  · rw [hx, ← hslot]
    exact hcommitted
  · rw [hx, hn]
    exact Nat.le_succ_of_le h.pending
  · intro d' hd'
    rw [since_concat] at hd'
    rcases List.mem_append.mp hd' with hold | hnew
    · exact h.retained d' hold
    · cases List.mem_singleton.mp hnew
      exact hget

private theorem notify (h : InOrder s t) (hslot : d.slot = notifications.next t) (hdone : d.slot ∈ s.executed) :
    InOrder { s with notified := insert d.slot s.notified } (t ++ [.notified d (.ok ())]) := by
  have hx : executions.next (t ++ [.notified d (.ok ())]) = executions.next t :=
    Library.Delivery.next_concat_silent rfl rfl
  have hn : notifications.next (t ++ [.notified d (.ok ())]) = notifications.next t + 1 :=
    Library.Delivery.next_concat_number rfl rfl
  have hlt : d.slot < executions.next t := ((h.executed d.slot).mp hdone).2
  refine ⟨⟨h.executes.silent rfl rfl, Library.Delivery.orderly_concat.mpr ⟨h.notifies, ?_, ?_⟩, ?_, ?_⟩,
    h.whole.same (.refl _) rfl, hx ▸ h.executed, ?_, hx ▸ h.committed, ?_, h.retained_concat rfl⟩
  · exact fun k hk => Option.some.inj hk ▸ hslot
  · exact fun s' hs' => nomatch hs'
  · exact Always.concat h.stored fun s' hs' => nomatch hs'
  · intro past d' hpast
    rcases concat_prefix_concat.mp hpast with ⟨rfl, heq⟩ | hold
    · cases heq
      exact hlt
    · exact h.behind past d' hold
  · rw [hn, hslot]
    exact h.notified.insert Library.Delivery.one_le_next
  · rw [hx, hn, ← hslot]
    exact hlt

end InOrder

def RuntimeOp.retains : RuntimeOp V → Bool
  | .checkpointThrough _ | .createStateTransfer _ => false
  | _ => true

theorem RuntimeOp.not_prunes {op : RuntimeOp V} (h : op.retains = true) (slot : SlotIndex) : ¬op.Prunes slot := by
  rintro (rfl | rfl) <;> cases h

namespace ReplicaRuntime

def DeliversInOrder (r : ReplicaRuntime V) : Prop := InOrder r.runtimeSnapshot r.trace

section
variable {env : Environment V} {op : RuntimeOp V} {r r' : ReplicaRuntime V}

private theorem DeliversInOrder.committed_lt (h : r.DeliversInOrder) {slot : SlotIndex}
    (hle : slot ≤ r.replica.committedThrough) :
    slot < r.runtimeSnapshot.replica.nextCommit :=
  Nat.lt_of_le_sub_one (Nat.zero_lt_of_lt h.whole.settled.ordered.frontier) hle

private theorem DeliversInOrder.quiet (h : r.DeliversInOrder) (hq : Quiet env r r') : r'.DeliversInOrder := by
  cases hq with
  | saved => exact InOrder.saved h _
  | informed | probed | proposed | installing | executeFailed | notifyFailed =>
    exact InOrder.silent h ⟨rfl, rfl, rfl, rfl⟩
  | acknowledged => exact (InOrder.silent h ⟨rfl, rfl, rfl, rfl⟩).same (.refl _) rfl rfl rfl
  | counted | scheduled | timed | observed => exact InOrder.same h (.refl _) rfl rfl rfl
  | @executed d turn fresh =>
    obtain ⟨slot, hget, hle, hbefore⟩ := turn
    have hlt := h.committed_lt hle
    have hkey := (h.whole.settled.retained slot d hget).2
    have hnext := h.whole.slot_eq_next h.executed Library.Delivery.one_le_next hget hlt
      (fun k d' hk hlt => (hbefore k d' hk hlt).1) fresh
    exact InOrder.execute h hnext (hkey.symm ▸ hget) (hkey.symm ▸ hlt)
  | @notified d turn done fresh =>
    obtain ⟨slot, hget, hle, hbefore⟩ := turn
    have hnext := h.whole.slot_eq_next h.notified Library.Delivery.one_le_next hget (h.committed_lt hle)
      (fun k d' hk hlt => (hbefore k d' hk hlt).2) fresh
    exact InOrder.notify h hnext done

private theorem Booted.deliversInOrder {config : ReplicaRuntimeConfig} {t : List (Event V)}
    (h : Booted config (lastSaved t) r)
    (htrace : r.trace = t ++ [.started]) (hpast : DeliveredInOrder t) : r.DeliversInOrder := by
  have hexecuted : Library.Delivery.Marks (((lastSaved t).map RuntimeSnapshot.executed).getD ∅)
    (executions.next (t ++ [.started])) :=
    hpast.executes.marks_start rfl rfl
  have hnotified : Library.Delivery.Marks (((lastSaved t).map RuntimeSnapshot.notified).getD ∅)
    (notifications.next (t ++ [.started])) :=
    hpast.notifies.marks_start rfl rfl
  have hxcard := hexecuted.card Library.Delivery.one_le_next
  have hncard := hnotified.card Library.Delivery.one_le_next
  have hnothing : ∀ d, .executed d (.ok ()) ∈ since Event.isStart (t ++ [.started]) →
    r.decisions.get d.slot = some d := by
    intro d hd
    rw [since_concat] at hd
    cases hd
  have hpast' : DeliveredInOrder (t ++ [.started]) := hpast.unstored rfl rfl rfl
  rw [DeliversInOrder, htrace]
  cases hstored : lastSaved t with
  | none =>
    obtain ⟨hreplica, hdecisions, _, hdone, htold, _⟩ := h.empty hstored
    rw [hstored] at hexecuted hnotified hxcard hncard
    have hwhole : r.runtimeSnapshot.Whole := by
      apply RuntimeSnapshot.whole_new config.replica
      · exact congrArg ReplicaCore.snapshot hreplica
      · exact hdecisions
    refine ⟨hpast', hwhole, ?_, ?_, ?_, ?_, hnothing⟩
    · show Library.Delivery.Marks r.executed _
      rw [hdone]
      exact hexecuted
    · show Library.Delivery.Marks r.notified _
      rw [htold]
      exact hnotified
    · rw [← hxcard]
      exact Nat.succ_le_of_lt (Nat.zero_lt_of_lt hwhole.settled.ordered.frontier)
    · rw [← hxcard, ← hncard]
      exact le_refl _
  | some s =>
    have hsame := h.loaded s hstored
    have hgood : s.Deliverable := Always.latest hpast.stored hstored
    rw [hstored] at hexecuted hnotified hxcard hncard
    have hretained : ∀ d, .executed d (.ok ()) ∈ since Event.isStart (t ++ [.started]) →
      s.decisions.get d.slot = some d := by
      rw [← hsame]
      exact hnothing
    rw [hsame]
    refine ⟨hpast', hgood.whole, hexecuted, hnotified, ?_, ?_, hretained⟩
    · rw [← hxcard]
      exact hgood.executed
    · rw [← hxcard, ← hncard]
      exact Nat.succ_le_succ hgood.notified

end

variable [DecidableEq V] {env : Environment V} {op : RuntimeOp V} {r r' : ReplicaRuntime V}

private theorem DeliversInOrder.decided {d : Decision V} {ds : List (Decision V)} {replica : ReplicaCore V}
    (h : r.DeliversInOrder)
    (hfresh : r.Fresh d) (hok : ReplicaCore.applyDecision d r.replica = .ok ds replica) :
    (retainDecision { r with replica } d).DeliversInOrder := by
  have hspec := ReplicaCore.triple_applyDecision h.whole.settled.ordered d r.replica rfl
  rw [hok] at hspec
  refine ⟨h.toDeliveredInOrder, h.whole.retain rfl hfresh.live hspec.1 hspec.2 rfl rfl, h.executed, h.notified, ?_,
    h.pending, ?_⟩
  · have hgrow : r.replica.nextCommit ≤ replica.nextCommit := by
      rw [hspec.1.nextCommit]
      exact Nat.le_add_right _ _
    exact h.committed.trans hgrow
  · intro d' hd'
    have hold := h.retained d' hd'
    have hne : d'.slot ≠ d.slot := by
      intro heq
      rw [heq] at hold
      exact absurd (hfresh.new.symm.trans hold) (Option.some_ne_none d').symm
    exact (OrderedMap.get_insert ..).trans ((if_neg hne).trans hold)

private theorem DeliversInOrder.move (h : r.DeliversInOrder) (hop : op.retains = true) (hm : Move env op r r')
    (hfits : r'.replica.log.size < u64Max) : r'.DeliversInOrder := by
  cases hm with
  | quiet hq => exact h.quiet hq
  | @enqueued values => exact InOrder.same h (ReplicaCore.sameOutcome_enqueue r.replica values) rfl rfl rfl
  | decided _ fresh applied => exact h.decided fresh applied
  | @refused d e replica learnt fresh applied =>
    have hspec := ReplicaCore.triple_applyDecision h.whole.settled.ordered d r.replica rfl
    rw [applied] at hspec
    obtain rfl : replica = r.replica := h.whole.refused rfl hfits hspec
    exact h
  | scheduleInstalled | reconnected => exact InOrder.same h (.refl _) rfl rfl rfl
  | exported asked => exact absurd (.inr asked) (RuntimeOp.not_prunes hop _)
  | pruned asked => exact absurd asked (RuntimeOp.not_prunes hop _)
  | @reconfigured change next =>
    have hnext : (r.reconfigured change next).DeliversInOrder := InOrder.same h (.refl _) rfl rfl rfl
    exact InOrder.saved hnext _
  | reconfigureFailed => exact InOrder.silent h ⟨rfl, rfl, rfl, rfl⟩

private theorem DeliversInOrder.arming (h : r.DeliversInOrder) (ha : Arming r r') : r'.DeliversInOrder := by
  cases ha with
  | @armed slot values n =>
    have hproposed := ReplicaCore.sameOutcome_proposed
      { r.replica with pending := r.replica.pending.drop n } slot values
    exact InOrder.same h ((ReplicaCore.sameOutcome_drain r.replica n).trans hproposed) rfl rfl rfl
  | lost n => exact InOrder.same h (ReplicaCore.sameOutcome_drain r.replica n) rfl rfl rfl

theorem size_le_of_move (hop : op.retains = true) (hm : Move env op r r') :
    r.replica.log.size ≤ r'.replica.log.size := by
  cases hm with
  | quiet hq => rw [hq.samePipeline.replica]
  | @enqueued values =>
    rcases ReplicaCore.enqueue_cases values r.replica with ⟨e, heq⟩ | ⟨fresh, heq, _⟩
    · rw [after_error heq]
    · rw [after_ok heq]
  | @decided d ds replica _ _ applied =>
    have hgrow := ReplicaCore.size_le_applyDecision r.replica d
    rwa [after_ok applied] at hgrow
  | @refused d e replica _ _ applied =>
    have hgrow := ReplicaCore.size_le_applyDecision r.replica d
    rwa [after_error applied] at hgrow
  | pruned asked => exact absurd asked (RuntimeOp.not_prunes hop _)
  | _ => exact le_refl _

theorem size_le_of_arming (ha : Arming r r') : r.replica.log.size ≤ r'.replica.log.size := by
  cases ha with
  | armed => exact OrderedMap.size_le_insert ..
  | lost => exact le_refl _

/-- A call that ends with a log that fits has kept the order. -/
theorem DeliversInOrder.perform (h : r.DeliversInOrder) (hop : op.retains = true)
    (hfits : (after (perform env op) r).replica.log.size < u64Max) : (after (perform env op) r).DeliversInOrder := by
  have hkeeps : Keeps (fun r => r.replica.log.size < u64Max → r.DeliversInOrder) (ReplicaRuntime.perform env op) := by
    apply keeps_every_call
    · exact fun r r' hr hm hfits => (hr ((size_le_of_move hop hm).trans_lt hfits)).move hop hm hfits
    · exact fun _ r r' hr ha hfits => (hr ((size_le_of_arming ha).trans_lt hfits)).arming ha
  exact hkeeps.after (fun _ => h) hfits

end ReplicaRuntime

namespace Process
variable [DecidableEq V] {env : Environment V}

def retains (env : Environment V) : Process V → ProcessAction V → Bool
  | .up r, .call op | .up r, .crash op _ =>
    op.retains && (after (ReplicaRuntime.perform env op) r).replica.log.size < u64Max
  | _, _ => true

private theorem inOrder_run {actions : List (ProcessAction V)}
    (h : Along (step env) (fun p a => p.retains env a = true) fresh actions) :
    (run (step env) fresh actions).Upholds ReplicaRuntime.DeliversInOrder DeliveredInOrder := by
  have hcall : ∀ (r : ReplicaRuntime V) (op : RuntimeOp V), r.DeliversInOrder →
      (op.retains && (after (ReplicaRuntime.perform env op) r).replica.log.size < u64Max) = true →
      (after (ReplicaRuntime.perform env op) r).DeliversInOrder := by
    intro r op hr hop
    simp only [Bool.and_eq_true, decide_eq_true_eq] at hop
    exact hr.perform hop.1 hop.2
  apply upholds_run hcall ?_ ?_ ?_ DeliveredInOrder.nil h
  · exact fun r op n hr hop => (hcall r op hr hop).toDeliveredInOrder
  · exact fun t p hcut ht => ht.earlier hcut
  · intro t config proposer recorders noop r ht _ hnew
    obtain ⟨hboot, htrace⟩ := ReplicaRuntime.new_booted hnew
    exact (hboot.noop noop).deliversInOrder ((ReplicaRuntime.trace_noop r noop).trans htrace) ht

/-- In one lifetime executions, and notifications, succeed for consecutive slots, from the
first one not marked in the snapshot it was started from. A slot is executed with the
decision that is retained for it, and notified after it was executed. -/
theorem delivers_in_order (env : Environment V) (actions : List (ProcessAction V))
    (hrun : Along (step env) (fun p a => p.retains env a = true) fresh actions) :
    let p := run (step env) fresh actions
    executions.Resumes p.trace ∧ notifications.Resumes p.trace ∧
    (∀ past d, past ++ [.notified d (.ok ())] <+: p.trace → ∃ e ∈ past, Event.executedSlot e = some d.slot) ∧
    ∀ r, p = .up r → ∀ d, .executed d (.ok ()) ∈ since Event.isStart p.trace → r.decisions.get d.slot = some d := by
  intro p
  have hend : p.Upholds ReplicaRuntime.DeliversInOrder DeliveredInOrder := inOrder_run hrun
  have hpast : DeliveredInOrder p.trace := by
    cases hp : p with
    | up r =>
      rw [hp] at hend
      exact InOrder.toDeliveredInOrder hend
    | down t =>
      rw [hp] at hend
      exact hend
  have hstart : ∀ e : Event V, e.isStart = true → e.stored = none := by
    intro e he
    cases e <;> first | rfl | cases he
  refine ⟨hpast.executes.resumes hstart, hpast.notifies.resumes hstart, ?_, ?_⟩
  · intro past d hnotified
    have hbefore := hpast.earlier ((List.prefix_append past _).trans hnotified)
    have hslot : d.slot = notifications.next past := (hpast.notifies past _ hnotified).1 d.slot rfl
    exact hbefore.executes.delivered hstart (hslot ▸ Library.Delivery.one_le_next) (hpast.behind past d hnotified)
  · intro r hr d hd
    rw [hr] at hend hd
    exact hend.retained d hd

/-! The state machine refuses slot 1 at first, the process dies while it delivers slot 2, and
the next lifetime delivers slot 2 again. -/

def refusesOnce : Environment Nat :=
  { Environment.obliging with
    execute := fun t _ => if t.length ≤ 3 then .error (.storageError "state machine") else .ok () }

def dyingInSlotTwo : List (ProcessAction Nat) :=
  [.restart ReplicaRuntime.replicaTwo ⟨2, 0, ProposerConfig.default⟩ [1, 2, 3] none,
    .call (.receiveDecision ⟨1, [10], 1, 4⟩), .call .recover, .crash (.receiveDecision ⟨2, [20], 1, 4⟩) 3,
    .restart ReplicaRuntime.replicaTwo ⟨2, 0, ProposerConfig.default⟩ [1, 2, 3] none, .call .recover]

theorem delivers_in_order_recovered :
    let p := run (step refusesOnce) fresh dyingInSlotTwo
    executions.now p.trace = [2] ∧ p.trace.filterMap Event.executedSlot = [1, 2, 2] ∧
      executions.Resumes p.trace ∧ notifications.Resumes p.trace := by
  have hrun : Along (step refusesOnce) (fun p a => p.retains refusesOnce a = true) fresh dyingInSlotTwo := by
    decide +kernel
  have hall := delivers_in_order refusesOnce dyingInSlotTwo hrun
  exact ⟨by decide +kernel, by decide +kernel, hall.1, hall.2.1⟩

end Process
end QuePaxa
