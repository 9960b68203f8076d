import QuePaxa.Network.Sections

/-! A node that takes submissions and decisions, and does nothing else: what its sections keep of
the pipeline. The queue grows with a submission and shrinks with a claim, and the gap at the
frontier may be filled once a decision has been applied. -/
namespace QuePaxa
open Library
variable {V : Type}
variable {env : NetworkEnvironment V}

namespace NetworkConsensusHandler
open ConsensusState
variable {I : NetworkConsensusHandler V → Prop}

theorem keeps_orRollback {α : Type} {before : ConsensusState V} {x : EStateM QuePaxaError (NetworkConsensusHandler V) α}
    (hx : Keeps I x) (hback : ∀ h, I h → I (h.withState before)) : Keeps I (orRollback before x) := by
  intro h hh
  have hrun := hx h hh
  simp only [orRollback]
  cases heq : x h with
  | ok a h' =>
    rw [heq] at hrun
    exact hrun
  | error e h' =>
    rw [heq] at hrun
    exact hback h' hrun

theorem keeps_persist (hlog : ∀ h e, I h → I (h.log e)) : Keeps I (persist env) :=
  Keeps.bind Keeps.get fun _ => Keeps.bind (Keeps.modify fun h hh => hlog h _ hh) fun _ => Keeps.check _

theorem keeps_orRollback_persist {J : ConsensusState V → Prop} {before : ConsensusState V}
    (hbefore : J before) : Keeps (fun h => J h.state) (orRollback before (persist env)) :=
  keeps_orRollback (keeps_persist fun _ _ hh => hh) fun _ _ => hbefore

variable [DecidableEq V]

def beforeArming (h : NetworkConsensusHandler V) (d : Decision V) : NetworkConsensusHandler V :=
  match h.state.decisions.get d.slot with
  | some _ => h
  | none => match ReplicaCore.applyDecision d h.state.replica with
    | .ok _ replica => h.withState ((h.state.withReplica replica).retainDecision d)
    | .error _ _ => h

/-- The property of the pipeline survives submissions and claims, and also a gap that is filled
when `G` holds. -/
structure Serving (G : NetworkConsensusHandler V → Prop) (J : ConsensusState V → Prop) : Prop where
  same : ∀ s s', J s → SamePipeline s s' → J s'
  executed : ∀ s slot, J s → J { s with executed := insert slot s.executed }
  enqueued : ∀ s values replica, J s → ReplicaCore.enqueue values s.replica = .ok () replica → J (s.withReplica replica)
  claimed : ∀ s slot values replica, J s → ReplicaCore.nextProposal s.replica = .ok (some (slot, values)) replica →
    J { s with replica, pending := s.pending.insert slot values }
  drained : ∀ s e replica, J s → ReplicaCore.nextProposal s.replica = .error e replica → J (s.withReplica replica)
  filled : ∀ h noop gap, J h.state → G h → h.noopValue = some noop → h.state.pending.keys = [] →
    h.state.replica.committedThrough.checkedNext = some gap → h.state.gapIsBlocking gap = true →
    h.state.replica.admitProposal gap [noop] = .ok () →
    J { h.state with replica := h.state.replica.proposed gap [noop], pending := h.state.pending.insert gap [noop] }

namespace Serving
variable {G : NetworkConsensusHandler V → Prop} {J : ConsensusState V → Prop} {env : NetworkEnvironment V}
  (hJ : Serving G J)
include hJ

theorem quiet (h h' : NetworkConsensusHandler V) (hh : J h.state) (hq : Quiet h h') : J h'.state := by
  cases hq with
  | noted => exact hh
  | timed same => exact hJ.same _ _ hh same

theorem executeDecisions (ds : List (Decision V)) : Keeps (fun h => J h.state) (executeDecisions env ds) := by
  apply keeps_executeDecisions
  · exact fun h d _ hh _ => hJ.executed h.state d.slot hh
  · exact fun _ _ _ _ hh => hh
  · exact fun _ hh => hh
  · exact fun _ _ _ hh => hh

theorem executeReady : Keeps (fun h => J h.state) (executeReady env) := Keeps.bind Keeps.get
    fun _ => hJ.executeDecisions _

private theorem noteCommitted : Keeps (fun h => J h.state) (noteCommitted (V := V)) := by
  refine Keeps.bind Keeps.get fun _ => Keeps.forM _ fun e _ => Keeps.bind ?_ fun _ => Keeps.pure _
  exact keeps_onTuner (I := fun h => J h.state) hJ.quiet _

theorem armGapNoop (now : Instant) : Triple (fun h => J h.state ∧ G h) (armGapNoop now)
    (fun _ h => J h.state) fun _ h => J h.state := by
  rintro h ⟨hh, hg⟩
  simp only [NetworkConsensusHandler.armGapNoop, bind_apply (x := get), get_apply]
  cases hnoop : h.noopValue with
  | none => exact hh
  | some noop =>
    by_cases hidle : h.state.pending.keys ≠ []
    · simp only [hidle, if_true, ne_eq, not_false_eq_true]
      exact hh
    simp only [hidle, if_false]
    cases hgap : h.state.replica.committedThrough.checkedNext with
    | none => exact hh
    | some gap =>
      by_cases hblocking : h.state.gapIsBlocking gap = true
      swap
      · simp only [hblocking]
        exact hh
      simp only [hblocking, if_true, onReplica, bind_apply (x := zoom _ _ _), zoom, ReplicaCore.noteProposed_eq]
      cases hadm : h.state.replica.admitProposal gap [noop] with
      | error e => exact hh
      | ok u =>
        have hfilled := hJ.filled h noop gap hh hg hnoop (not_not.mp hidle) hgap hblocking hadm
        exact hJ.same _ _ hfilled ⟨rfl, rfl, rfl, rfl⟩

private theorem enqueueSubmission (values : List V) : Keeps (fun h => J h.state) (enqueueSubmission env values) := by
  intro h hh
  simp only [NetworkConsensusHandler.enqueueSubmission, bind_apply (x := get), get_apply]
  have hcheck : ∀ x : Result Unit, Triple (· = h) (check x) (fun _ s => s = h) fun _ s => J s.state :=
    fun _ => Triple.check (fun _ _ _ hs => hs) fun _ _ _ hs => hs ▸ hh
  refine Triple.bind (hcheck _) (fun _ => Triple.bind (hcheck _) fun _ => ?_) h rfl
  intro s hs
  rw [hs]
  simp only [onReplica, bind_apply (x := zoom _ _ _), zoom]
  rcases ReplicaCore.enqueue_cases values h.state.replica with ⟨e, heq⟩ | ⟨fresh, heq, _⟩
  · simp only [heq]
    exact hh
  · simp only [heq]
    exact keeps_orRollback_persist hh _ (hJ.enqueued h.state values _ hh heq)

private theorem claimNext : Keeps (fun h => J h.state) (claimNext env) := by
  intro h hh
  simp only [NetworkConsensusHandler.claimNext, bind_apply (x := get), get_apply, onReplica,
    bind_apply (x := zoom _ _ _), zoom]
  cases heq : ReplicaCore.nextProposal h.state.replica with
  | error e replica => exact hJ.drained h.state e replica hh heq
  | ok found replica =>
    cases found with
    | none =>
      have hsame : replica = h.state.replica := by
        rcases ReplicaCore.nextProposal_cases h.state.replica with ⟨_, _, _, heq', _⟩ | heq' | ⟨_, _, heq', _⟩
        all_goals
          rw [heq] at heq'
          cases heq'
        rfl
      rw [hsame]
      exact hh
    | some offer =>
      have hclaimed := hJ.claimed h.state offer.1 offer.2 replica hh heq
      exact Keeps.bind (keeps_orRollback_persist hh) (fun _ => Keeps.pure _) _ hclaimed

private theorem submissionTurn (values : List V) : Keeps (fun h => J h.state) (submissionTurn env values) := by
  intro h hh
  rcases submissionTurn_cases env h values with ⟨d, heq⟩ | ⟨slot, values', heq, _⟩ | heq
  · rw [heq]
    exact hh
  · rw [heq]
    exact hh
  · rw [heq]
    exact hJ.claimNext h hh

private theorem acceptDecision {h : NetworkConsensusHandler V} {d : Decision V} (now : Instant) (hh : J h.state)
    (hgap : G (h.beforeArming d))
    (happlied : ∀ ds replica, ReplicaCore.applyDecision d h.state.replica = .ok ds replica →
      J ((h.state.withReplica replica).retainDecision d))
    (hrefused : ∀ e replica, ReplicaCore.applyDecision d h.state.replica = .error e replica →
      J (h.state.withReplica replica)) :
    Triple (· = h) (acceptDecision env now d) (fun _ h => J h.state) fun _ h => J h.state := by
  intro s hs
  rw [hs]
  simp only [NetworkConsensusHandler.acceptDecision, bind_apply (x := get), get_apply]
  cases hget : h.state.decisions.get d.slot with
  | some existing =>
    simp only [beforeArming, hget] at hgap
    refine Triple.bind (P := (· = h)) (Q := fun _ => (· = h)) (Triple.check (fun _ _ _ hs => hs) ?_) (fun _ => ?_) h rfl
    · exact fun _ s _ hs => hs ▸ hh
    · refine Triple.bind ((hJ.armGapNoop now).conseq ?_ (fun _ _ hs => hs) fun _ _ hs => hs) fun _ => hJ.executeReady
      exact fun s hs => hs ▸ ⟨hh, hgap⟩
  | none =>
    simp only [beforeArming, hget] at hgap
    simp only [acceptNew, bind_apply (x := get), get_apply, onReplica, bind_apply (x := zoom _ _ _), zoom]
    cases heq : ReplicaCore.applyDecision d h.state.replica with
    | error e replica => exact hrefused e replica heq
    | ok ds replica =>
      simp only [heq] at hgap
      simp only [onState, bind_apply (x := modify _), modify_apply]
      refine Triple.bind (hJ.armGapNoop now) (fun _ => ?_) _ ⟨happlied ds replica heq, hgap⟩
      refine Keeps.bind (keeps_orRollback hJ.noteCommitted fun _ _ => hh) fun _ => ?_
      exact Keeps.bind (keeps_orRollback_persist hh) fun _ => hJ.executeDecisions ds

private theorem recoverLocked {h : NetworkConsensusHandler V} (now : Instant) (hh : J h.state) (hgap : G h) :
    Triple (· = h) (recoverLocked env now) (fun _ h => J h.state) fun _ h => J h.state := by
  intro s hs
  rw [hs]
  simp only [NetworkConsensusHandler.recoverLocked, bind_apply (x := get), get_apply]
  refine Triple.bind (hJ.armGapNoop now) (fun armed => ?_) h ⟨hh, hgap⟩
  refine Keeps.bind (Keeps.onlyIf fun _ => keeps_orRollback_persist hh) fun _ => ?_
  exact Keeps.bind hJ.executeReady fun _ => Keeps.bind Keeps.get fun _ => Keeps.pure _

end Serving
end NetworkConsensusHandler

namespace Task
open NetworkConsensusHandler

def serves : Task V → Bool
  | .transfer _ | .disseminating _ _ | .exporting _ _ | .sealing _ _ _ | .install _ | .schedule _ => false
  | _ => true

variable {env : NetworkEnvironment V} {h h' : NetworkConsensusHandler V} {task task' : Task V}

private theorem Follows.serves (hf : Follows env h h' task task') (hs : task.serves = true) : task'.serves = true := by
  cases hf <;> first | rfl | cases hs

variable [DecidableEq V]

def Fills (G : NetworkConsensusHandler V → Prop) (h : NetworkConsensusHandler V) (task : Task V) : Prop :=
  (∀ d, task.accepts = some d → G (h.beforeArming d)) ∧ (task = .recovering → G h)

theorem serving_advance {G : NetworkConsensusHandler V → Prop} {J : ConsensusState V → Prop} (hJ : Serving G J)
    (hs : task.serves = true) (now : Instant) (hh : J h.state) (hfills : task.Fills G h)
    (happlied : ∀ d ds replica, task.accepts = some d → ReplicaCore.applyDecision d h.state.replica = .ok ds replica →
      J ((h.state.withReplica replica).retainDecision d))
    (hrefused : ∀ d e replica, task.accepts = some d → ReplicaCore.applyDecision d h.state.replica = .error e replica →
      J (h.state.withReplica replica)) :
    Triple (· = h) (task.advance env now) (fun _ h => J h.state) fun _ h => J h.state := by
  have hplain : Keeps (fun h => J h.state) (task.advance env now) →
      Triple (· = h) (task.advance env now) (fun _ h => J h.state) fun _ h => J h.state :=
    fun hk => hk.conseq (fun _ hs => hs ▸ hh) (fun _ _ hs => hs) fun _ _ hs => hs
  have haccept : ∀ d, task.accepts = some d →
      Triple (· = h) (NetworkConsensusHandler.acceptDecision env now d) (fun _ h => J h.state) fun _ h => J h.state :=
    fun d hd => hJ.acceptDecision now hh (hfills.1 d hd) (fun ds replica => happlied d ds replica hd)
      fun e replica => hrefused d e replica hd
  cases task with
  | submit values => exact hplain (Keeps.bind (hJ.enqueueSubmission values) fun _ => Keeps.pure _)
  | submitting values =>
    refine hplain (Keeps.bind (hJ.submissionTurn values) fun turn => ?_)
    cases turn <;> exact Keeps.pure _
  | receiving decisions =>
    cases decisions with
    | nil => exact hplain (Keeps.pure _)
    | cons d rest => exact Triple.bind (haccept d rfl) fun _ => Keeps.pure _
  | accepting d => exact Triple.bind (haccept d rfl) fun _ => Keeps.pure _
  | recovering => exact Triple.bind (hJ.recoverLocked now hh (hfills.2 rfl)) fun _ => Keeps.pure _
  | waiting slot values =>
    refine hplain (Keeps.bind Keeps.get fun _ => Keeps.ite (fun _ => Keeps.pure _) fun _ => ?_)
    exact Keeps.bind (keeps_hedgeFor (I := fun h => J h.state) hJ.quiet now slot) fun _ => Keeps.pure _
  | hedging slot values leader =>
    exact hplain (Keeps.bind Keeps.get fun _ => Keeps.ite (fun _ => Keeps.pure _) fun _ => Keeps.pure _)
  | probing slot values leader =>
    refine hplain (Keeps.bind (keeps_deferForProgress (I := fun h => J h.state) hJ.quiet slot) fun _ => ?_)
    exact Keeps.ite (fun _ => Keeps.pure _) fun _ => Keeps.pure _
  | ready slot values leader =>
    refine hplain (Keeps.bind Keeps.get fun _ => Keeps.ite (fun _ => ?_) fun _ => Keeps.pure _)
    exact Keeps.bind (Keeps.modify fun _ hh => hh) fun _ => Keeps.pure _
  | proposing call =>
    refine hplain (Keeps.bind Keeps.get fun _ => Keeps.bind ?_ fun _ => Keeps.pure _)
    exact Keeps.bind (Keeps.modify fun _ hh => hh) fun _ => Keeps.check _
  | observing decision =>
    refine hplain (Keeps.bind Keeps.get fun _ => Keeps.bind ?_ fun _ => Keeps.pure _)
    exact keeps_onState (I := fun h => J h.state) hJ.quiet fun _ => ⟨rfl, rfl, rfl, rfl⟩
  | _ => cases hs

end Task

def NodeAction.serves : NodeAction V → Bool
  | .call task => task.serves
  | .crash _ _ _ | .reconfigure _ _ _ => false
  | _ => true

namespace Node
open NetworkConsensusHandler

def Serves (J : NetworkConsensusHandler V → Prop) : Node V → Prop
  | .up h tasks => J h ∧ ∀ task ∈ tasks, task.serves = true
  | .down trace => trace = []

theorem serves_step [DecidableEq V] {J : NetworkConsensusHandler V → Prop}
    {C : NetworkConsensusHandler V → Task V → Prop}
    (hstart : ∀ config recorders h noop, new config recorders none [.started] = .ok h → J { h with noopValue := noop })
    (hadvance : ∀ h task now, J h → task.serves = true → C h task →
      Triple (· = h) (task.advance env now) (fun _ => J) fun _ => J)
    {n : Node V} {a : NodeAction V} (hn : n.Serves J) (ha : a.serves = true)
    (hC : ∀ h tasks i now task, n = .up h tasks → a = .run i now → tasks[i]? = some task → C h task) :
      (n.step env a).Serves J := by
  have hstep := step_cases env n a
  generalize n.step env a = n' at hstep
  cases hstep with
  | idle => exact hn
  | @called h tasks task =>
    refine ⟨hn.1, fun t ht => ?_⟩
    rcases List.mem_append.mp ht with ht | ht
    · exact hn.2 t ht
    · exact List.mem_singleton.mp ht ▸ ha
  | @advanced h h' tasks next task i now here returned =>
    have hserves := hn.2 task (List.mem_of_getElem? here)
    have hafter := hadvance h task now hn.1 hserves (hC h tasks i now task rfl rfl here) h rfl
    rw [returned] at hafter
    refine ⟨hafter, fun t ht => ?_⟩
    rcases List.mem_append.mp ht with ht | ht
    · exact hn.2 t (List.mem_of_mem_eraseIdx ht)
    · exact (Task.follows_of_advance returned t ht).serves hserves
  | @failed h h' tasks task i now e here failure =>
    have hafter := hadvance h task now hn.1 (hn.2 task (List.mem_of_getElem? here))
      (hC h tasks i now task rfl rfl here) h rfl
    rw [failure] at hafter
    exact ⟨hafter, fun t ht => hn.2 t (List.mem_of_mem_eraseIdx ht)⟩
  | notified =>
    refine ⟨hn.1, fun t ht => ?_⟩
    rcases List.mem_append.mp ht with ht | ht
    · exact hn.2 t (List.mem_of_mem_eraseIdx ht)
    · exact List.mem_singleton.mp ht ▸ rfl
  | dropped i => exact ⟨hn.1, fun t ht => hn.2 t (List.mem_of_mem_eraseIdx ht)⟩
  | crashed | halted => cases ha
  | reconfigured | reconfigureCrashed => cases ha
  | @restarted trace config recorders h noop hnew =>
    obtain rfl : trace = [] := hn
    exact ⟨hstart config recorders h noop hnew, fun _ ht => nomatch ht⟩

def passes (n : Node V) (test : NetworkConsensusHandler V → Bool) : Bool :=
  match n with
  | .up h _ => test h
  | .down _ => false

theorem up_of_passes {n : Node V} {test : NetworkConsensusHandler V → Bool} (hn : n.passes test = true) :
    ∃ h tasks, n = .up h tasks ∧ test h = true := by
  cases n with
  | up h tasks => exact ⟨h, tasks, rfl, hn⟩
  | down trace => cases hn

end Node
end QuePaxa
