import QuePaxa.Core.ReplicaSpec
import QuePaxa.Runtime.Runtime

/-! Most of the runtime leaves the pipeline alone: it saves, announces, executes, notifies,
counts and schedules. These quiet moves are listed once, and every call that makes only
such moves keeps whatever they keep. -/
namespace QuePaxa
open Library
variable {V : Type}
variable {r : ReplicaRuntime V} {d : Decision V} {env : Environment V}

namespace ReplicaRuntime

def Retains (r : ReplicaRuntime V) (d : Decision V) : Prop :=
  ∃ slot, r.decisions.get slot = some d ∧ slot ≤ r.replica.committedThrough

def Turn (r : ReplicaRuntime V) (d : Decision V) : Prop :=
  ∃ slot, r.decisions.get slot = some d ∧ slot ≤ r.replica.committedThrough ∧
    ∀ k d', r.decisions.get k = some d' → k < slot → d'.slot ∈ r.executed ∧ d'.slot ∈ r.notified

theorem Turn.retains (h : r.Turn d) : r.Retains d := by
  obtain ⟨slot, hget, hle, _⟩ := h
  exact ⟨slot, hget, hle⟩

inductive Quiet (env : Environment V) : ReplicaRuntime V → ReplicaRuntime V → Prop
  | saved (r : ReplicaRuntime V) :
      Quiet env r (r.log (.saved r.runtimeSnapshot (env.save r.trace r.runtimeSnapshot)))
  | informed {r : ReplicaRuntime V} {slot : SlotIndex} {d : Decision V} {recorder : ReplicaId} (e : QuePaxaError)
      (decision : r.decisions.get slot = some d) (known : recorder ∈ r.recorders) :
      Quiet env r (r.log (.informed recorder d (.error e)))
  | acknowledged {r : ReplicaRuntime V} {slot : SlotIndex} {d : Decision V} {recorder : ReplicaId}
      (decision : r.decisions.get slot = some d) (known : recorder ∈ r.recorders) :
      Quiet env r { r.log (.informed recorder d (.ok ())) with
        announcedTo := r.announcedTo.insert slot (insert recorder ((r.announcedTo.get slot).getD ∅)) }
  | counted {r : ReplicaRuntime V} {d : Decision V} (committed : r.Retains d) :
      Quiet env r { r with tuner := after (EpochTuner.noteCommitted d.slot d.decidedStep) r.tuner }
  | scheduled (r : ReplicaRuntime V) (epoch : Nat) :
      Quiet env r { r with tuner := after (EpochTuner.ensureSchedule epoch) r.tuner }
  | executeFailed {r : ReplicaRuntime V} {d : Decision V} (e : QuePaxaError) (turn : r.Turn d)
      (fresh : d.slot ∉ r.executed) (answer : env.execute r.trace d = .error e) :
        Quiet env r (r.log (.executed d (.error e)))
  | executed {r : ReplicaRuntime V} {d : Decision V} (turn : r.Turn d) (fresh : d.slot ∉ r.executed)
      (answer : env.execute r.trace d = .ok ()) :
      Quiet env r { r.log (.executed d (.ok ())) with executed := insert d.slot r.executed }
  | notifyFailed {r : ReplicaRuntime V} {d : Decision V} (e : QuePaxaError) (turn : r.Turn d)
      (done : d.slot ∈ r.executed) (fresh : d.slot ∉ r.notified) : Quiet env r (r.log (.notified d (.error e)))
  | notified {r : ReplicaRuntime V} {d : Decision V} (turn : r.Turn d) (done : d.slot ∈ r.executed)
      (fresh : d.slot ∉ r.notified) :
      Quiet env r { r.log (.notified d (.ok ())) with notified := insert d.slot r.notified }
  | timed {r : ReplicaRuntime V} {slot : SlotIndex} {p : PendingProposal V} (pending : r.pending.get slot = some p)
      (readyAt : Option Instant) (seen : Option Step) :
      Quiet env r { r with pending := r.pending.insert slot ⟨p.valueIds, readyAt, seen⟩ }
  | probed (r : ReplicaRuntime V) (recorder : ReplicaId) (slot : SlotIndex) (step : Option Step) :
      Quiet env r (r.log (.probed recorder slot step))
  | proposed {r : ReplicaRuntime V} {slot : SlotIndex} {p : PendingProposal V}
      (pending : r.pending.get slot = some p) (leader : ReplicaId) (result : Result (Decision V)) :
      Quiet env r (r.log (.proposed ⟨slot, p.valueIds, some leader, r.recorders, []⟩ result))
  | observed (r : ReplicaRuntime V) (hedgeDelay : HedgeDelayTuner) : Quiet env r { r with hedgeDelay }
  | installing (r : ReplicaRuntime V) (recorder : ReplicaId) (change : MembershipChange V) (result : Result Unit) :
      Quiet env r (r.log (.installed recorder change result))

def armedValues (r : ReplicaRuntime V) : OrderedMap SlotIndex (List V) := r.pending.mapValues (·.valueIds)

theorem get_armedValues {slot : SlotIndex} {p : PendingProposal V}
    (h : r.pending.get slot = some p) : r.armedValues.get slot = some p.valueIds := by
  simp only [armedValues, OrderedMap.get_mapValues, h, Option.map_some]

theorem armedValues_retainDecision (r : ReplicaRuntime V) (d : Decision V) :
    (r.retainDecision d).armedValues = r.armedValues.erase d.slot := by
  apply OrderedMap.ext_get
  intro k
  simp only [armedValues, retainDecision, OrderedMap.get_mapValues, OrderedMap.get_erase]
  split_ifs <;> rfl

theorem armedValues_insert {slot : SlotIndex} {values : List V} {replica : ReplicaCore V} :
    ({ r with replica, pending := r.pending.insert slot (.armed values) } : ReplicaRuntime V).armedValues =
      r.armedValues.insert slot values := by
  apply OrderedMap.ext_get
  intro k
  simp only [armedValues, OrderedMap.get_mapValues, OrderedMap.get_insert]
  split_ifs <;> rfl

structure SamePipeline (r r' : ReplicaRuntime V) : Prop where
  config : r'.config = r.config
  replica : r'.replica = r.replica
  recorders : r'.recorders = r.recorders
  decisions : r'.decisions = r.decisions
  armedValues : r'.armedValues = r.armedValues
  noopValue : r'.noopValue = r.noopValue

theorem Quiet.samePipeline {r' : ReplicaRuntime V} (h : Quiet env r r') :
    SamePipeline r r' := by
  cases h with
  | timed pending =>
    refine ⟨rfl, rfl, rfl, rfl, ?_, rfl⟩
    apply OrderedMap.ext_get
    intro k
    simp only [ReplicaRuntime.armedValues, OrderedMap.get_mapValues, OrderedMap.get_insert]
    split_ifs with hk
    · rw [hk, pending]
      rfl
    · rfl
  | _ => exact ⟨rfl, rfl, rfl, rfl, rfl, rfl⟩

theorem SamePipeline.refl (r : ReplicaRuntime V) : SamePipeline r r := ⟨rfl, rfl, rfl, rfl, rfl, rfl⟩

theorem SamePipeline.trans {a b c : ReplicaRuntime V} (hab : SamePipeline a b) (hbc : SamePipeline b c) :
    SamePipeline a c :=
  ⟨hbc.config.trans hab.config, hbc.replica.trans hab.replica, hbc.recorders.trans hab.recorders,
    hbc.decisions.trans hab.decisions, hbc.armedValues.trans hab.armedValues, hbc.noopValue.trans hab.noopValue⟩

private theorem SamePipeline.retains {r' : ReplicaRuntime V} (h : SamePipeline r r') (hd : r.Retains d) :
    r'.Retains d := by
  obtain ⟨slot, hget, hle⟩ := hd
  exact ⟨slot, h.decisions ▸ hget, h.replica ▸ hle⟩

theorem Quiet.executed_subset {r' : ReplicaRuntime V} (h : Quiet env r r') :
    r.executed ⊆ r'.executed := by
  cases h with
  | executed => exact Finset.subset_insert ..
  | _ => exact Finset.Subset.refl _

theorem Quiet.notified_subset {r' : ReplicaRuntime V} (h : Quiet env r r') :
    r.notified ⊆ r'.notified := by
  cases h with
  | notified => exact Finset.subset_insert ..
  | _ => exact Finset.Subset.refl _

section
variable {env : Environment V} {I : ReplicaRuntime V → Prop} {α : Type}

/-- A call that keeps everything quiet moves keep may rely on the pipeline it started with. -/
theorem keeps_with_pipeline (hI : ∀ r r', I r → Quiet env r r' → I r')
    {x : ReplicaRuntime V → EStateM QuePaxaError (ReplicaRuntime V) α}
    (h : ∀ r, I r → ∀ J : ReplicaRuntime V → Prop, (∀ s, J s → I s ∧ SamePipeline r s) →
      (∀ s s', J s → Quiet env s s' → J s') → Keeps J (x r)) : Keeps I (get >>= x) := by
  intro r hr
  have hclosed : ∀ s s', (I s ∧ SamePipeline r s) → Quiet env s s' → I s' ∧ SamePipeline r s' :=
    fun s s' hs hq => ⟨hI s s' hs.1 hq, hs.2.trans hq.samePipeline⟩
  have hx := h r hr _ (fun s hs => hs) hclosed
  have htriple : Triple (· = r) (x r) (fun _ => I) fun _ => I :=
    hx.conseq (fun s hs => ⟨hs ▸ hr, hs ▸ .refl r⟩) (fun _ s hs => hs.1) fun _ s hs => hs.1
  exact htriple r rfl

theorem keeps_onTuner {x : EStateM QuePaxaError EpochTuner α}
    (hx : ∀ r, I r → I { r with tuner := after x r.tuner }) : Keeps I (onTuner x) := by
  apply Keeps.zoom (J := fun r tuner => I { r with tuner })
  · exact hx
  · exact fun _ _ _ h => h

theorem persist_eq (r : ReplicaRuntime V) : persist env r =
    match env.save r.trace r.runtimeSnapshot with
    | .ok () => .ok () (r.log (.saved r.runtimeSnapshot (.ok ())))
    | .error e => .error e (r.log (.saved r.runtimeSnapshot (.error e))) := by
  simp only [persist, request, bind_apply, get_apply, modify_apply]
  cases env.save r.trace r.runtimeSnapshot <;> rfl

variable (hI : ∀ r r', I r → Quiet env r r' → I r')
include hI

theorem keeps_persist : Keeps I (persist env) := by
  intro r hr
  have hsaved := hI r _ hr (.saved r)
  rw [persist_eq]
  cases hresult : env.save r.trace r.runtimeSnapshot with
  | ok u => rw [hresult] at hsaved; exact hsaved
  | error e => rw [hresult] at hsaved; exact hsaved

private theorem keeps_announce {slot : SlotIndex} {recorder : ReplicaId}
    (hd : ∀ r, I r → r.decisions.get slot = some d) (hknown : ∀ r, I r → recorder ∈ r.recorders) :
    Keeps I (announce env (slot, d) recorder) := by
  intro r hr
  simp only [announce]
  by_cases hdone : recorder ∈ (r.announcedTo.get slot).getD ∅
  · rw [if_pos hdone]
    exact hr
  · rw [if_neg hdone]
    cases env.inform r.trace recorder d with
    | error e => exact hI r _ hr (.informed e (hd r hr) (hknown r hr))
    | ok u => exact hI r _ hr (.acknowledged (hd r hr) (hknown r hr))

theorem keeps_flushDecisionNotifications : Keeps I (flushDecisionNotifications env) := by
  apply keeps_with_pipeline hI
  intro r _ J hJ hclosed
  refine Keeps.bind ?_ fun changed => Keeps.onlyIf fun _ => keeps_persist hclosed
  apply Keeps.orEach
  rintro ⟨slot, d⟩ he
  apply Keeps.orEach
  intro recorder hrec
  apply keeps_announce hclosed
  · intro s hs
    rw [(hJ s hs).2.decisions]
    exact (OrderedMap.get_eq_some ..).mpr he
  · intro s hs
    rw [(hJ s hs).2.recorders]
    exact hrec

private theorem triple_executeOnce (hd : ∀ r, I r → r.Turn d) :
    Triple I (executeOnce env d) (fun _ s => I s ∧ d.slot ∈ s.executed) fun _ => I := by
  have hclosed : ∀ s s', (I s ∧ d.slot ∈ s.executed) → Quiet env s s' → I s' ∧ d.slot ∈ s'.executed :=
    fun s s' hs hq => ⟨hI s s' hs.1 hq, hq.executed_subset hs.2⟩
  intro r hr
  simp only [executeOnce, bind_apply, get_apply, onlyIf]
  by_cases hdone : d.slot ∈ r.executed
  · rw [if_neg (not_not.mpr hdone)]
    exact ⟨hr, hdone⟩
  · rw [if_pos hdone]
    cases hresult : env.execute r.trace d with
    | error e => exact hI r _ hr (.executeFailed e (hd r hr) hdone hresult)
    | ok u =>
      have hsave := (keeps_persist hclosed).conseq (fun _ h => h) (fun _ _ h => h) fun _ _ h => h.1
      exact hsave _ ⟨hI r _ hr (.executed (hd r hr) hdone hresult), Finset.mem_insert_self ..⟩

private theorem triple_notifyOnce (hd : ∀ r, I r → r.Turn d ∧ d.slot ∈ r.executed) :
    Triple I (notifyOnce env d) (fun _ s => I s ∧ d.slot ∈ s.notified) fun _ => I := by
  have hclosed : ∀ s s', (I s ∧ d.slot ∈ s.notified) → Quiet env s s' → I s' ∧ d.slot ∈ s'.notified :=
    fun s s' hs hq => ⟨hI s s' hs.1 hq, hq.notified_subset hs.2⟩
  intro r hr
  simp only [notifyOnce, bind_apply, get_apply]
  split_ifs with hdone
  · exact ⟨hr, hdone⟩
  · obtain ⟨hturn, hex⟩ := hd r hr
    cases hresult : env.committed r.trace d with
    | error e => exact hI r _ hr (.notifyFailed e hturn hex hdone)
    | ok u =>
      have hsave := (keeps_persist hclosed).conseq (fun _ h => h) (fun _ _ h => h) fun _ _ h => h.1
      exact Triple.bind hsave (fun _ => Triple.pure fun _ h => h) _
        ⟨hI r _ hr (.notified hturn hex hdone), Finset.mem_insert_self ..⟩

private theorem triple_deliver (hd : ∀ r, I r → r.Turn d) :
    Triple I (deliver env d) (fun _ s => I s ∧ d.slot ∈ s.executed ∧ d.slot ∈ s.notified) fun _ => I := by
  have hclosed : ∀ s s', (I s ∧ d.slot ∈ s.executed) → Quiet env s s' → I s' ∧ d.slot ∈ s'.executed :=
    fun s s' hs hq => ⟨hI s s' hs.1 hq, hq.executed_subset hs.2⟩
  apply Triple.bind (triple_executeOnce hI hd)
  intro _
  have hnotify := triple_notifyOnce hclosed fun s hs => ⟨hd s hs.1, hs.2⟩
  exact hnotify.conseq (fun _ h => h) (fun _ _ h => ⟨h.1.1, h.1.2, h.2⟩) fun _ _ h => h.1

theorem keeps_dispatchCommitted : Keeps I (dispatchCommitted env) := by
  apply keeps_with_pipeline hI
  intro r _ J hJ hclosed
  refine Keeps.bind ?_ fun changed => Keeps.bind (Keeps.onlyIf fun _ => keeps_persist hclosed) fun _ => ?_
  · apply Keeps.orEach
    intro d hd
    obtain ⟨slot, hget⟩ := (OrderedMap.mem_values ..).mp hd
    exact keeps_onTuner fun s hs => hclosed s _ hs
      (.counted ((hJ s hs).2.retains ⟨slot, (OrderedMap.get_upTo ..).mp hget⟩))
  · -- along the loop, all decisions passed so far are delivered
    have hdone : ∀ done : List (Decision V), ∀ s s',
        (J s ∧ ∀ d ∈ done, d.slot ∈ s.executed ∧ d.slot ∈ s.notified) → Quiet env s s' →
        J s' ∧ ∀ d ∈ done, d.slot ∈ s'.executed ∧ d.slot ∈ s'.notified :=
      fun done s s' hs hq => ⟨hclosed s s' hs.1 hq, fun d hd =>
        ⟨hq.executed_subset (hs.2 d hd).1, hq.notified_subset (hs.2 d hd).2⟩⟩
    have hloop := Triple.gather (f := deliver env) (l := (r.decisions.upTo r.replica.committedThrough).values)
      (J := fun done s => J s ∧ ∀ d ∈ done, d.slot ∈ s.executed ∧ d.slot ∈ s.notified) (E := fun _ => J) ?_
    · exact hloop.conseq (fun _ h => ⟨h, by simp⟩) (fun _ _ h => h.1) fun _ _ h => h
    intro done d rest hsplit
    have hturn : ∀ s, (J s ∧ ∀ d ∈ done, d.slot ∈ s.executed ∧ d.slot ∈ s.notified) → s.Turn d := by
      intro s hs
      have hpipe := (hJ s hs.1).2
      obtain ⟨slot, hget, hbefore⟩ := OrderedMap.values_split hsplit
      obtain ⟨hget, hle⟩ := (OrderedMap.get_upTo ..).mp hget
      refine ⟨slot, hpipe.decisions ▸ hget, hpipe.replica ▸ hle, ?_⟩
      intro k d' hk hlt
      rw [hpipe.decisions] at hk
      exact hs.2 d' (hbefore k d' ((OrderedMap.get_upTo ..).mpr ⟨hk, hlt.le.trans hle⟩) hlt)
    refine (triple_deliver (hdone done) hturn).conseq (fun _ h => h) (fun _ s h => ⟨h.1.1, ?_⟩) fun _ _ h => h.1
    intro d' hd'
    rcases List.mem_append.mp hd' with hd' | hd'
    · exact h.1.2 d' hd'
    · exact List.mem_singleton.mp hd' ▸ h.2

theorem keeps_ensureScheduleFor (slot : SlotIndex) : Keeps I (ensureScheduleFor slot) :=
  Keeps.bind Keeps.get fun _ => keeps_onTuner fun s hs => hI s _ hs (.scheduled s _)

theorem keeps_assignDeadlines (now : Instant) : Keeps I (assignDeadlines now) := by
  refine Keeps.bind Keeps.get fun r => Keeps.bind ?_ fun deadlines => ?_
  · apply Keeps.gather
    intro slot _
    exact Keeps.bind (keeps_ensureScheduleFor hI slot) fun _ => Keeps.bind Keeps.get fun _ =>
      Keeps.bind (Keeps.check _) fun _ => Keeps.pure _
  · apply Keeps.forM
    rintro ⟨slot, deadline⟩ _
    apply Keeps.modify
    intro s hs
    simp only [setReadyAt]
    cases hget : s.pending.get slot with
    | none => exact hs
    | some p => exact hI s _ hs (.timed hget ..)

private theorem keeps_probeSlotStep (slot : SlotIndex) : Keeps I (probeSlotStep env slot) := by
  refine Keeps.bind Keeps.get fun r => Keeps.bind (Keeps.gather fun recorder _ => ?_) fun _ => Keeps.pure _
  intro s hs
  exact hI s _ hs (.probed s recorder slot _)

theorem keeps_deferForProgress (slot : SlotIndex) (schedule : EpochSchedule) (now : Instant) :
    Keeps I (deferForProgress env slot schedule now) := by
  refine Keeps.bind Keeps.get fun r => Keeps.ite (fun _ => Keeps.pure _) fun _ => ?_
  refine Keeps.bind (keeps_probeSlotStep hI slot) fun observed => ?_
  intro s hs
  simp only [bind_apply, get_apply]
  cases hget : s.pending.get slot with
  | none => exact hs
  | some p =>
    by_cases hprog : progressed observed p.lastObservedStep = true ∧ now + r.hedgeDelay.current ≤ Instant.max
    · simp only [hprog, and_self, if_true, bind_apply, set_apply, pure_apply]
      exact hI s _ hs (.timed hget ..)
    · simp only [hprog, if_false, pure_apply]
      exact hs

end
end ReplicaRuntime
end QuePaxa
