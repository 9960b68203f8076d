import QuePaxa.Network.Cancellation
import QuePaxa.Network.Changes
import QuePaxa.Network.Serving

/-! Whatever a node does, is sent or has dropped, its replica stays one that could be restored,
and its cluster one that it was started with or that followed by a transition. -/
namespace QuePaxa
open Library
variable {V α : Type} {env : NetworkEnvironment V} {P : ClusterIdentity → Prop}
  (hP : ∀ c next : ClusterIdentity, next.isSuccessorOf c = true → P next)

namespace NetworkConsensusHandler
open ConsensusState

def SoundReplica (P : ClusterIdentity → Prop) (h : NetworkConsensusHandler V) : Prop :=
  h.state.replica.Sound ∧ P h.config.cluster

variable [DecidableEq V]

private theorem sound_start {config : ReplicaRuntimeConfig} {recorders : List ReplicaId}
    {stored : Option (RuntimeSnapshot V)} {trace : List (NetworkEvent V)} {h : NetworkConsensusHandler V}
    (hconfig : P config.cluster) (hnew : new config recorders stored trace = .ok h) : h.SoundReplica P := by
  refine ⟨?_, (new_config hnew).symm ▸ hconfig⟩
  cases stored with
  | none =>
    obtain ⟨_, ⟨_, hfresh⟩ | ⟨_, hsome, _⟩⟩ := new_ok hnew
    · rw [hfresh]
      exact ReplicaCore.sound_new config.replica
    · cases hsome
  | some snapshot =>
    simp only [new, except_bind_eq_ok] at hnew
    obtain ⟨_, _, _, _, s, hrestore, _, _, heq⟩ := hnew
    obtain rfl := Except.ok.inj heq
    exact ReplicaCore.sound_restore (restore_ok hrestore).2

theorem stepwise_sound : Stepwise (SoundReplica (V := V) P) where
  log := fun _ _ hh _ => hh
  state := by
    rintro h s ⟨hh, hcluster⟩ hbecomes
    refine ⟨?_, hcluster⟩
    have happly := fun d => ReplicaCore.keeps_applyDecision (fun _ _ => ReplicaCore.sound_change) d h.state.replica hh
    show s.replica.Sound
    cases hbecomes with
    | timed same =>
      rw [same.replica]
      exact hh
    | steady change => exact ReplicaCore.sound_change hh change
    | @claimed n _ _ _ claims =>
      rw [claims.replica]
      exact ReplicaCore.sound_change (ReplicaCore.sound_change hh (.drain n)) (.propose claims.admitted)
    | @applied d _ _ returned =>
      have hnow := happly d
      rw [returned] at hnow
      exact hnow
    | @refused d _ _ failure =>
      have hnow := happly d
      rw [failure] at hnow
      exact hnow
    | executed => exact hh
    | @pruned slot => exact ReplicaCore.Sound.prune hh slot
    | restored hrestore => exact ReplicaCore.sound_restore (restore_ok hrestore).2

end NetworkConsensusHandler

/-! The sections wait with a sound replica in memory. -/
namespace LockedSection
open NetworkConsensusHandler (SoundReplica stepwise_sound onState onReplica onTuner request armGapNoop noteCommitted)
open Interruptible (Passes atOnce waiting)

section Parts

theorem passes_get : Passes (SoundReplica P) (atOnce get : LockedSection V (NetworkConsensusHandler V)) :=
  .atOnce Keeps.get

theorem passes_check (x : Result α) : Passes (SoundReplica P) (atOnce (check x) : LockedSection V α) :=
  .atOnce (Keeps.check x)

theorem passes_request {event : NetworkEvent V} {result : Result α}
    {r : NetworkConsensusHandler V → BlockingRequest V} :
    Passes (SoundReplica P) (waiting r (request event result)) :=
  .waiting (Keeps.bind (Keeps.modify fun _ hh => hh) fun _ => Keeps.check _)

theorem passes_onReplica {x : EStateM QuePaxaError (ReplicaCore V) α} (hx : Keeps ReplicaCore.Sound x) :
    Passes (SoundReplica P) (atOnce (onReplica x) : LockedSection V α) :=
  .atOnce (Keeps.zoom (J := fun _ replica => replica.Sound) (fun _ hh => hx.after hh.1) fun _ _ hh hr => ⟨hr, hh.2⟩)

theorem passes_onState {f : ConsensusState V → ConsensusState V} (hf : ∀ s, s.replica.Sound → (f s).replica.Sound) :
    Passes (SoundReplica P) (atOnce (onState f) : LockedSection V Unit) :=
  .atOnce (Keeps.modify fun h hh => ⟨hf h.state hh.1, hh.2⟩)

theorem keeps_onTuner (x : EStateM QuePaxaError EpochTuner α) : Keeps (SoundReplica P) (onTuner (V := V) x) :=
  Keeps.zoom (J := fun h _ => h.SoundReplica P) (fun _ hh => hh) fun _ _ _ hh => hh

theorem passes_orRollback {before : ConsensusState V} {x : LockedSection V α} (hx : Passes (SoundReplica P) x) :
    Passes (SoundReplica P) (orRollback before x) where
  returns {s _ _} hs heq := by
    simp only [orRollback, NetworkConsensusHandler.orRollback] at heq
    cases hrun : x.run s with
    | ok a s' =>
      rw [hrun] at heq
      cases heq
      exact hx.returns hs hrun
    | error e s' =>
      rw [hrun] at heq
      cases heq
  waits := hx.waits

theorem passes_persist : Passes (SoundReplica P) (persist env) :=
  .waiting (NetworkConsensusHandler.keeps_persist fun _ _ hh => hh)

theorem passes_save {before : ConsensusState V} : Passes (SoundReplica P) (orRollback before (persist env)) :=
  passes_orRollback passes_persist

theorem passes_executeDecisions (ds : List (Decision V)) : Passes (SoundReplica P) (executeDecisions env ds) := by
  refine .forM ds fun d => .bind passes_get fun h => .onlyIf ?_
  exact .bind passes_request fun _ => .bind (passes_onState fun _ hs => hs) fun _ => passes_persist

theorem passes_executeReady : Passes (SoundReplica P) (executeReady env) := .bind passes_get
    fun _ => passes_executeDecisions _

end Parts

variable [DecidableEq V]

theorem passes_armGapNoop (now : Instant) :
    Passes (SoundReplica P) (atOnce (armGapNoop now) : LockedSection V Bool) := by
  refine .atOnce fun h hh => ?_
  rcases NetworkConsensusHandler.armGapNoop_cases h now with heq | ⟨slot, noop, s, heq, hclaims, _⟩ | ⟨e, heq⟩
  · rw [heq]
    exact hh
  · rw [heq]
    exact stepwise_sound.state h s hh (.claimed hclaims)
  · rw [heq]
    exact hh

private theorem passes_acceptNew (now : Instant) (d : Decision V) : Passes (SoundReplica P) (acceptNew env now d) := by
  have happly := ReplicaCore.keeps_applyDecision (fun _ _ => ReplicaCore.sound_change (V := V)) d
  have hcounted : Keeps (SoundReplica P) (noteCommitted (V := V)) :=
    Keeps.bind Keeps.get fun _ => Keeps.forM _ fun _ _ => Keeps.bind (keeps_onTuner _) fun _ => Keeps.pure _
  refine .bind passes_get fun _ => .bind (passes_onReplica happly) fun _ => .bind (passes_onState fun _ hs => hs)
    fun _ => ?_
  refine .bind (passes_armGapNoop now) fun _ => .bind (passes_orRollback (.atOnce hcounted)) fun _ => ?_
  exact .bind passes_save fun _ => passes_executeDecisions _

private theorem passes_acceptDecision (now : Instant) (d : Decision V) :
    Passes (SoundReplica P) (acceptDecision env now d) := by
  refine .bind passes_get fun h => ?_
  cases h.state.decisions.get d.slot with
  | some existing => exact .bind (passes_check _) fun _ => .bind (passes_armGapNoop now) fun _ => passes_executeReady
  | none => exact passes_acceptNew now d

private theorem passes_recoverLocked (now : Instant) : Passes (SoundReplica P) (recoverLocked env now) := by
  refine .bind passes_get fun _ => .bind (passes_armGapNoop now) fun _ => .bind (.onlyIf passes_save) fun _ => ?_
  exact .bind passes_executeReady fun _ => .bind passes_get fun _ => .pure _

private theorem passes_submissionTurn (valueIds : List V) : Passes (SoundReplica P) (submissionTurn env valueIds) := by
  refine .bind passes_get fun h => ?_
  cases h.state.decisionFor valueIds with
  | some decision => exact .pure _
  | none =>
    cases h.state.pending.entries.find? fun e => valueIds.all (· ∈ e.2) with
    | some e => exact .pure _
    | none =>
      have hnext := passes_onReplica (P := P)
        (ReplicaCore.keeps_nextProposal fun _ _ => ReplicaCore.sound_change (V := V))
      refine .bind passes_get fun h => .bind hnext fun claim => ?_
      cases claim with
      | none => exact .pure _
      | some e => exact .bind (passes_onState fun _ hs => hs) fun _ => .bind passes_save fun _ => .pure _

private theorem passes_lockedSection (now : Instant) (task : Task V) :
    Passes (SoundReplica P) (task.lockedSection env now) := by
  cases task with
  | submit valueIds =>
    have hqueue := passes_onReplica (P := P) (ReplicaCore.keeps_enqueue (fun _ _ => ReplicaCore.sound_change) valueIds)
    refine .bind (.bind passes_get fun _ => .bind (passes_check _) fun _ => .bind (passes_check _) fun _ => ?_)
      fun _ => .pure _
    exact .bind hqueue fun _ => passes_save
  | submitting valueIds =>
    refine .bind (passes_submissionTurn valueIds) fun turn => ?_
    cases turn <;> exact .pure _
  | receiving decisions =>
    cases decisions with
    | nil => exact .pure _
    | cons d rest => exact .bind (passes_acceptDecision now d) fun _ => .pure _
  | recovering => exact .bind (passes_recoverLocked now) fun _ => .pure _
  | accepting d => exact .bind (passes_acceptDecision now d) fun _ => .pure _
  | sealing slot ids checkpoint =>
    refine .bind (.bind passes_get fun _ => .bind (passes_check _) fun _ => .bind ?_ fun _ => ?_) fun _ => ?_
    · exact passes_onState fun s hs => ReplicaCore.Sound.prune hs slot
    · exact .bind passes_get fun _ => .bind passes_save fun _ => .pure _
    · exact .bind (.atOnce (Keeps.modify fun _ hh => hh)) fun _ => .pure _
  | install incoming =>
    refine .bind (.bind passes_get fun h => .bind (passes_check _) fun _ => .check_bind fun s hrestore => ?_)
      fun _ => .pure _
    have hsound : s.replica.Sound := ReplicaCore.sound_restore (NetworkConsensusHandler.restore_ok hrestore).2
    refine .bind (passes_check _) fun _ => .bind passes_request fun _ => .bind passes_get fun _ => ?_
    exact .bind passes_request fun _ => passes_onState fun _ _ => hsound
  | schedule agreed =>
    refine .bind (.bind passes_get fun _ => .bind (passes_check _) fun _ => .bind (.atOnce (keeps_onTuner _))
      fun _ => ?_) fun _ => .pure _
    exact .onlyIf passes_save
  | _ => exact .atOnce (stepwise_sound.advance now _)

include hP in
private theorem passes_installMembership (change : MembershipChange V) (nextRecorders : List ReplicaId) :
    Passes (SoundReplica P) (installMembership env change nextRecorders) := by
  have hasked : Keeps (SoundReplica P) (gather (NetworkConsensusHandler.installOn env change) nextRecorders) :=
    Keeps.gather fun _ _ => Keeps.bind Keeps.get fun _ => Keeps.bind (Keeps.modify fun _ hh => hh)
      fun _ => Keeps.check _
  have hactivate (hnext : P change.next) : Passes (SoundReplica P) (activate env change nextRecorders) := by
    refine ⟨fun {h _ _} hh hx => ?_, fun {h w} hh hw => ?_⟩
    · simp only [activate, NetworkConsensusHandler.activate_eq] at hx
      cases hsave : env.save h.trace (h.reconfigured change nextRecorders).snapshot with
      | ok u =>
        rw [hsave] at hx
        cases hx
        exact ⟨hh.1, hnext⟩
      | error e =>
        rw [hsave] at hx
        cases hx
    · cases List.mem_singleton.mp hw
      exact ⟨hh.1, hnext⟩
  refine .bind (passes_check _) fun _ => .get_bind fun h hh => ?_
  split_ifs
  · exact .bind (passes_check _) fun _ => .atOnce fun _ _ => hh
  · refine .check_bind fun _ hsucc => .bind (passes_check _) fun _ => .bind (passes_check _) fun _ => ?_
    refine .bind (.atOnce (NetworkConsensusHandler.keeps_disseminateAll stepwise_sound.closed.quiet _)) fun _ => ?_
    exact .bind (.atOnce hasked) fun results => .bind (.atOnce (Keeps.forM _ fun _ _ => Keeps.check _))
      fun _ => hactivate (hP _ _ (require_eq_ok.mp hsucc))

end LockedSection

def NodeAction.StartsIn (P : ClusterIdentity → Prop) : NodeAction V → Prop
  | .restart config _ _ => P config.cluster
  | _ => True

namespace Node
open NetworkConsensusHandler
variable [DecidableEq V]

def Sound (P : ClusterIdentity → Prop) : Node V → Prop
  | .up h _ => h.SoundReplica P
  | .down _ => True

include hP in
private theorem sound_step {n : Node V} (hn : n.Sound P) {a : NodeAction V} (ha : a.StartsIn P) :
    (n.step env a).Sound P := by
  have hstep := step_cases env n a
  generalize n.step env a = n' at hstep
  cases hstep with
  | idle => exact hn
  | called | notified | dropped => exact hn
  | @advanced h _ _ _ task _ now _ returned => exact (stepwise_sound.advance now task).ok hn returned
  | @failed h _ _ task _ now _ _ failure => exact (stepwise_sound.advance now task).error hn failure
  | crashed | halted | reconfigureCrashed => trivial
  | reconfigured change next =>
    have hkeeps : Keeps (SoundReplica (V := V) P) (installMembership env change next) :=
      keeps_installMembership stepwise_sound.closed.quiet (fun _ hh => hh)
        (fun _ hh hsucc => ⟨hh.1, hP _ _ hsucc⟩) fun _ _ _ hh => hh
    exact hkeeps.after hn
  | restarted new =>
    have hstart := sound_start ha new
    exact hstart

end Node

def NodeProcessAction.StartsIn (P : ClusterIdentity → Prop) : NodeProcessAction V → Prop
  | .act action => action.StartsIn P
  | _ => True

theorem NodeProcessAction.startsIn_any (a : NodeProcessAction V) : a.StartsIn fun _ => True := by
  rcases a with (_ | _) | _ | _ | _ <;> trivial

namespace NodeProcess
open NetworkConsensusHandler
variable [DecidableEq V]

include hP in
private theorem sound_step (p : NodeProcess V) (a : NodeProcessAction V) (hp : p.node.Sound P) (ha : a.StartsIn P) :
    (p.step env a).node.Sound P := by
  obtain ⟨n, detached⟩ := p
  cases a with
  | act action => exact Node.sound_step hP hp ha
  | cancel i now wait =>
    cases n with
    | down stored => exact hp
    | up h tasks =>
      cases hwait : tasks[i]?.bind fun task => ((task.lockedSection env now).waits h)[wait]? with
      | none =>
        simp only [step, hwait]
        exact hp
      | some w =>
        simp only [step, hwait]
        obtain ⟨task, _, hget⟩ := Option.bind_eq_some_iff.mp hwait
        exact (LockedSection.passes_lockedSection now task).waits hp (List.mem_of_getElem? hget)
  | cancelChange change nextRecorders wait =>
    cases n with
    | down stored => exact hp
    | up h tasks =>
      cases tasks with
      | cons task tasks => exact hp
      | nil =>
        cases hwait : ((LockedSection.installMembership env change nextRecorders).waits h)[wait]? with
        | none =>
          simp only [step, hwait]
          exact hp
        | some w =>
          simp only [step, hwait]
          exact (LockedSection.passes_installMembership hP change nextRecorders).waits hp (List.mem_of_getElem? hwait)
  | land i =>
    cases n with
    | down stored => exact hp
    | up h tasks =>
      cases hthread : detached[i]? with
      | none =>
        simp only [step, hthread]
        exact hp
      | some request =>
        simp only [step, hthread]
        cases request <;> exact hp

include hP in
theorem sound_run (env : NetworkEnvironment V) {actions : List (NodeProcessAction V)}
    (h : Along (step env) (fun _ a => a.StartsIn P) fresh actions) :
    (run (step env) fresh actions).node.Sound P := by
  have hstart : (fresh : NodeProcess V).node.Sound P := trivial
  exact run_invariant (I := fun p : NodeProcess V => p.node.Sound P) (sound_step hP) hstart h

end NodeProcess
end QuePaxa
