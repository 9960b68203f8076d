import QuePaxa.Core.ReplicaCommit
import QuePaxa.Network.Node
import QuePaxa.Runtime.ScheduleSpec

/-! What one locked section of a node can do. A section that fails before its save leaves
the state as it was, except when the replica refuses a decision half-way, when it drops
queued values, and when the gap cannot be armed once a decision is in. -/
namespace QuePaxa
open Library
variable {V α : Type}
variable {I : NetworkConsensusHandler V → Prop} {h : NetworkConsensusHandler V}
  {config : ReplicaRuntimeConfig} {slot : SlotIndex} {d : Decision V} {env : NetworkEnvironment V}

def NetworkEvent.isNote : NetworkEvent V → Bool
  | .answered _ _ | .probed _ _ _ | .informed _ _ _ | .installed _ _ _ => true
  | _ => false

theorem NetworkEvent.quiet_of_isNote {event : NetworkEvent V} (h : event.isNote = true) :
    event.stored = none ∧ ∀ d result, event ≠ .executed d result := by
  refine ⟨?_, ?_⟩
  · cases event <;> first | rfl | cases h
  · rintro d result rfl
    cases h

namespace ConsensusState

/-- Timers, schedules and statistics aside, the states agree. -/
structure SamePipeline (s s' : ConsensusState V) : Prop where
  replica : s'.replica = s.replica
  decisions : s'.decisions = s.decisions
  pending : s'.pending = s.pending
  executed : s'.executed = s.executed

theorem SamePipeline.refl (s : ConsensusState V) : SamePipeline s s := ⟨rfl, rfl, rfl, rfl⟩

theorem SamePipeline.trans {a b c : ConsensusState V} (hab : SamePipeline a b) (hbc : SamePipeline b c) :
    SamePipeline a c :=
  ⟨hbc.replica.trans hab.replica, hbc.decisions.trans hab.decisions, hbc.pending.trans hab.pending,
    hbc.executed.trans hab.executed⟩

def withReplica (s : ConsensusState V) (replica : ReplicaCore V) : ConsensusState V := { s with replica }

section
variable [DecidableEq V]

structure Claims (s : ConsensusState V) (n : Nat) (slot : SlotIndex) (values : List V) (s' : ConsensusState V) :
    Prop where
  isOpen : ¬s.replica.Claimed slot
  admitted : ReplicaCore.admitProposal { s.replica with pending := s.replica.pending.drop n } slot values = .ok ()
  replica : s'.replica = ReplicaCore.proposed { s.replica with pending := s.replica.pending.drop n } slot values
  pending : s'.pending = s.pending.insert slot values
  decisions : s'.decisions = s.decisions
  executed : s'.executed = s.executed

private theorem Claims.same {s s' s'' : ConsensusState V} {n : Nat} {values : List V}
    (h : s.Claims n slot values s') (hs : SamePipeline s' s'') : s.Claims n slot values s'' :=
  ⟨h.isOpen, h.admitted, hs.replica.trans h.replica, hs.pending.trans h.pending, hs.decisions.trans h.decisions,
    hs.executed.trans h.executed⟩

def MayClaim (s s' : ConsensusState V) : Prop := SamePipeline s s' ∨ ∃ slot values, s.Claims 0 slot values s'

/-- A decision that is new to the node is applied and retained; then the gap may be claimed. -/
def Accepts (s : ConsensusState V) (d : Decision V) (ds : List (Decision V)) (s' : ConsensusState V) : Prop :=
  ∃ replica, ReplicaCore.applyDecision d s.replica = .ok ds replica ∧
    ((s.withReplica replica).retainDecision d).MayClaim s'

end
end ConsensusState

namespace NetworkConsensusHandler
open ConsensusState

def withState (h : NetworkConsensusHandler V) (state : ConsensusState V) : NetworkConsensusHandler V := { h with state }

def saved (h : NetworkConsensusHandler V) : NetworkConsensusHandler V := h.log (.saved h.snapshot (.ok ()))

def saveFailed (h : NetworkConsensusHandler V) (state : ConsensusState V) (e : QuePaxaError) :
    NetworkConsensusHandler V :=
  h.log (.saved (h.withState state).snapshot (.error e))

def executes (h : NetworkConsensusHandler V) (d : Decision V) : NetworkConsensusHandler V :=
  (h.log (.executed d (.ok ()))).withState { h.state with executed := insert d.slot h.state.executed }

/-- Whether a no-op would be claimed: one is configured, nothing is pending, and a gap blocks. -/
def gapOpen (h : NetworkConsensusHandler V) : Bool :=
  h.noopValue.isSome && h.state.pending.keys.isEmpty && h.state.replica.committedThrough.checkedNext.any
    h.state.gapIsBlocking

inductive Quiet : NetworkConsensusHandler V → NetworkConsensusHandler V → Prop
  | noted (h : NetworkConsensusHandler V) {event : NetworkEvent V} (note : event.isNote = true) : Quiet h (h.log event)
  | timed (h : NetworkConsensusHandler V) {state : ConsensusState V} (same : SamePipeline h.state state) :
      Quiet h (h.withState state)

section Saving
variable (env : NetworkEnvironment V) (h : NetworkConsensusHandler V)

theorem persist_eq : persist env h =
    match env.save h.trace h.snapshot with
    | .ok () => .ok () h.saved
    | .error e => .error e (h.log (.saved h.snapshot (.error e))) := by
  simp only [persist, request, bind_apply, get_apply, modify_apply]
  cases env.save h.trace h.snapshot <;> rfl

/-- A save of a changed state either succeeds or leaves the handler as it was. -/
theorem orRollback_persist (state : ConsensusState V) :
    orRollback h.state (persist env) (h.withState state) = .ok () (h.withState state).saved ∨
    ∃ e, orRollback h.state (persist env) (h.withState state) = .error e (h.saveFailed state e) := by
  simp only [orRollback, persist_eq]
  cases env.save (h.withState state).trace (h.withState state).snapshot with
  | ok u => exact .inl rfl
  | error e => exact .inr ⟨e, rfl⟩

theorem executeOne_eq (hnew : d.slot ∉ h.state.executed) : executeOne env d h =
    match env.execute h.trace d with
    | .error e => .error e (h.log (.executed d (.error e)))
    | .ok () => persist env (h.executes d) := by
  simp only [executeOne, bind_apply (x := get), get_apply, onlyIf, if_pos hnew, request, bind_apply, modify_apply,
    onState]
  cases env.execute h.trace d <;> rfl

theorem executeOne_done (hdone : d.slot ∈ h.state.executed) : executeOne env d h = .ok () h := by
  simp only [executeOne, bind_apply (x := get), get_apply, onlyIf, if_neg (not_not.mpr hdone)]
  rfl

/-- A decision is executed once; its mark stays even when the save behind it fails. -/
theorem executeOne_cases (d : Decision V) :
    d.slot ∈ h.state.executed ∧ executeOne env d h = .ok () h ∨
    d.slot ∉ h.state.executed ∧
      ((∃ e, executeOne env d h = .error e (h.log (.executed d (.error e)))) ∨
        executeOne env d h = .ok () (h.executes d).saved ∨
        ∃ e, executeOne env d h = .error e ((h.executes d).saveFailed (h.executes d).state e)) := by
  by_cases hmem : d.slot ∈ h.state.executed
  · exact .inl ⟨hmem, executeOne_done env h hmem⟩
  refine .inr ⟨hmem, ?_⟩
  rw [executeOne_eq env h hmem]
  cases env.execute h.trace d with
  | error e => exact .inl ⟨e, rfl⟩
  | ok u =>
    simp only [persist_eq]
    cases env.save (h.executes d).trace (h.executes d).snapshot with
    | ok u => exact .inr (.inl rfl)
    | error e => exact .inr (.inr ⟨e, rfl⟩)

end Saving

/-- Executing a list of decisions, each of them at most once. -/
theorem keeps_executeDecisions {ds : List (Decision V)}
    (hexecutes : ∀ h, ∀ d ∈ ds, I h → d.slot ∉ h.state.executed → I (h.executes d))
    (hfailed : ∀ h, ∀ d ∈ ds, ∀ e, I h → I (h.log (.executed d (.error e))))
    (hsaved : ∀ h, I h → I h.saved) (hsaveFailed : ∀ h s e, I h → I (h.saveFailed s e)) :
    Keeps I (executeDecisions env ds) := by
  apply Keeps.forM
  intro d hd h hh
  rcases executeOne_cases env h d with ⟨_, heq⟩ | ⟨hnew, ⟨e, heq⟩ | heq | ⟨e, heq⟩⟩
  · rw [heq]
    exact hh
  · rw [heq]
    exact hfailed h d hd e hh
  · rw [heq]
    exact hsaved _ (hexecutes h d hd hh hnew)
  · rw [heq]
    exact hsaveFailed _ _ e (hexecutes h d hd hh hnew)

private theorem keeps_beginTransfer (slot : SlotIndex) :
    Keeps I (beginTransfer (V := V) slot) :=
  Keeps.bind Keeps.get fun _ => Keeps.bind (Keeps.check _) fun _ => Keeps.bind (Keeps.check _) fun _ => Keeps.pure _

private theorem beginTransfer_ok {h' : NetworkConsensusHandler V} {decisions : List (Decision V)}
    (hx : beginTransfer slot h = .ok decisions h') : slot ≤ h.state.replica.committedThrough ∧ h' = h := by
  simp only [beginTransfer, bind_apply (x := get), get_apply, bind_apply (x := check _), require] at hx
  split_ifs at hx
  all_goals cases hx
  exact ⟨‹_›, rfl⟩

private theorem exportCheckpoint_ok {h' : NetworkConsensusHandler V}
    {checkpoint : List UInt8} (hx : exportCheckpoint env slot h = .ok checkpoint h') :
    env.exportCheckpoint h.trace slot = .ok checkpoint ∧ h' = h.log (.exported slot (.ok checkpoint)) := by
  simp only [exportCheckpoint, request, bind_apply, get_apply, modify_apply] at hx
  cases hresult : env.exportCheckpoint h.trace slot with
  | ok bytes =>
    rw [hresult, check_ok] at hx
    cases hx
    exact ⟨rfl, rfl⟩
  | error e =>
    rw [hresult, check_error] at hx
    cases hx

theorem keeps_exportCheckpoint
    (hexported : ∀ h result, I h → I (h.log (.exported slot result))) : Keeps I (exportCheckpoint env slot) :=
  Keeps.bind Keeps.get fun _ => Keeps.bind (Keeps.modify fun h hh => hexported h _ hh) fun _ => Keeps.check _

section Quiet
variable {env : NetworkEnvironment V} {I : NetworkConsensusHandler V → Prop} (hQ : ∀ h h', I h → Quiet h h' → I h')
include hQ

theorem keeps_request {event : NetworkEvent V} (note : event.isNote = true) (result : Result α) :
    Keeps I (request event result) :=
  Keeps.bind (Keeps.modify fun h hh => hQ h _ hh (.noted h note)) fun _ => Keeps.check _

theorem keeps_onTuner (x : EStateM QuePaxaError EpochTuner α) : Keeps I (onTuner (V := V) x) := by
  apply Keeps.zoom (J := fun h tuner => I { h with state := { h.state with tuner } })
  · exact fun h hh => hQ h _ hh (.timed h ⟨rfl, rfl, rfl, rfl⟩)
  · exact fun _ _ _ h => h

theorem keeps_onState {f : ConsensusState V → ConsensusState V} (hf : ∀ s, SamePipeline s (f s)) :
    Keeps I (onState f) :=
  Keeps.modify fun h hh => hQ h _ hh (.timed h (hf h.state))

theorem keeps_hedgeFor (now : Instant) (slot : SlotIndex) : Keeps I (hedgeFor (V := V) now slot) := by
  refine Keeps.bind Keeps.get fun h => Keeps.bind (keeps_onTuner hQ _) fun schedule =>
    Keeps.bind (Keeps.check _) fun leader => ?_
  cases schedule.proposers.idxOf? h.config.replicaId with
  | none => exact Keeps.throw _
  | some position =>
    refine Keeps.bind (Keeps.check _) fun _ => Keeps.bind (Keeps.check _) fun _ => Keeps.bind ?_ fun _ => Keeps.pure _
    exact keeps_onState hQ fun s => ⟨rfl, rfl, rfl, rfl⟩

theorem keeps_deferForProgress (slot : SlotIndex) : Keeps I (deferForProgress env slot) := by
  have hprobe : Keeps I (probeSlotStep env slot) := by
    refine Keeps.bind Keeps.get fun h => Keeps.bind (Keeps.gather fun recorder _ => ?_) fun _ => Keeps.pure _
    exact Keeps.bind Keeps.get fun _ => keeps_request hQ rfl _
  refine Keeps.bind hprobe fun steps => ?_
  cases steps with
  | none => exact Keeps.pure _
  | some highest =>
    refine Keeps.bind Keeps.get fun h => Keeps.ite (fun _ => Keeps.pure _) fun _ => Keeps.ite (fun _ => ?_)
      fun _ => Keeps.pure _
    exact Keeps.bind (keeps_onState hQ fun s => ⟨rfl, rfl, rfl, rfl⟩) fun _ => Keeps.pure _

theorem keeps_disseminateAll [DecidableEq V] (decisions : List (Decision V)) :
    Keeps I (disseminateAll env decisions) := by
  refine Keeps.ite (fun _ => Keeps.pure _) fun _ => Keeps.bind Keeps.get fun h => Keeps.bind ?_ fun _ => Keeps.check _
  refine Keeps.gather fun recorder _ => ?_
  exact Keeps.bind Keeps.get fun _ => keeps_request hQ rfl _

end Quiet

section Membership
variable {env : NetworkEnvironment V} {change : MembershipChange V} {next : List ReplicaId}

theorem activate_eq (h : NetworkConsensusHandler V) : activate env change next h =
    match env.save h.trace (h.reconfigured change next).snapshot with
    | .ok () => .ok () (h.reconfigured change next).saved
    | .error e => .error e (h.log (.saved (h.reconfigured change next).snapshot (.error e))) := by
  have htrace : (h.reconfigured change next).trace = h.trace := rfl
  simp only [activate, bind_apply, get_apply, set_apply, tryCatch, tryCatchThe, MonadExceptOf.tryCatch,
    EStateM.tryCatch, persist_eq, htrace]
  cases env.save h.trace (h.reconfigured change next).snapshot <;> rfl

/-- A membership change swaps the recorders, or asks around and then saves the next epoch. -/
theorem keeps_installMembership [DecidableEq V] (hQ : ∀ h h', I h → Quiet h h' → I h')
    (hrecorders : ∀ h, I h → I { h with recorders := next })
    (hnext : ∀ h, I h → change.next.isSuccessorOf h.config.cluster = true → I (h.reconfigured change next).saved)
    (hfailed : ∀ h s e, I h → I (h.log (.saved s (.error e)))) : Keeps I (installMembership env change next) := by
  refine Keeps.bind (Keeps.check _) fun _ => ?_
  intro h hh
  simp only [bind_apply (x := get), get_apply]
  by_cases hsame : change.next = h.config.cluster
  · rw [if_pos hsame]
    cases hvalid : validateAsyncRecorders change.next next with
    | error e => exact hh
    | ok u => exact hrecorders h hh
  rw [if_neg hsame]
  by_cases hsucc : change.next.isSuccessorOf h.config.cluster = true
  swap
  · simp only [require, hsucc]
    exact hh
  simp only [require, hsucc, if_true, bind_apply (x := check _), check_ok]
  have hclosed : ∀ s s', (I s ∧ s.config = h.config) → Quiet s s' → I s' ∧ s'.config = h.config := by
    intro s s' hs hq
    refine ⟨hQ s s' hs.1 hq, ?_⟩
    cases hq <;> exact hs.2
  have hrest : Triple (fun s => I s ∧ s.config = h.config) (do
      disseminateAll env h.state.decisions.values
      let results ← gather (installOn env change) next
      results.forM fun result => check result
      activate env change next) (fun _ => I) fun _ => I := by
    have hasked : Keeps (fun s => I s ∧ s.config = h.config) (gather (installOn env change) next) :=
      Keeps.gather fun recorder _ => Keeps.bind Keeps.get fun _ => keeps_request hclosed rfl _
    have hkeeps : ∀ {α : Type} {x : EStateM QuePaxaError (NetworkConsensusHandler V) α},
        Keeps (fun s => I s ∧ s.config = h.config) x →
        Triple (fun s => I s ∧ s.config = h.config) x (fun _ s => I s ∧ s.config = h.config) fun _ => I :=
      fun hx => hx.conseq (fun _ h => h) (fun _ _ h => h) fun _ _ h => h.1
    refine Triple.bind (hkeeps (keeps_disseminateAll hclosed _)) fun _ => Triple.bind (hkeeps hasked) fun results => ?_
    refine Triple.bind (hkeeps (Keeps.forM results fun result _ => Keeps.check result)) fun _ => ?_
    rintro s ⟨hs, hconfig⟩
    rw [activate_eq]
    cases env.save s.trace (s.reconfigured change next).snapshot with
    | ok u => exact hnext s hs (hconfig ▸ hsucc)
    | error e => exact hfailed s _ e hs
  cases hvalid : validateAsyncRecorders change.next next with
  | error e => exact hh
  | ok u =>
    cases hdrained : h.ensureDrained change with
    | error e => exact hh
    | ok u => exact hrest h ⟨hh, rfl⟩

end Membership

inductive Undone (h : NetworkConsensusHandler V) : NetworkConsensusHandler V → Prop
  | same : Undone h h
  | saveFailed (s : ConsensusState V) (e : QuePaxaError) : Undone h (h.saveFailed s e)

/-- The end of a section that saves the state it has made. -/
private theorem save_cases (env : NetworkEnvironment V) (h : NetworkConsensusHandler V) (s : ConsensusState V) (a : α) :
    (orRollback h.state (persist env) >>= fun _ => pure a) (h.withState s) = .ok a (h.withState s).saved ∨
    ∃ e h', (orRollback h.state (persist env) >>= fun _ => pure a) (h.withState s) = .error e h' ∧ h.Undone h' := by
  rcases orRollback_persist env h s with heq | ⟨e, heq⟩
  · rw [bind_apply, heq]
    exact .inl rfl
  · rw [bind_apply, heq]
    exact .inr ⟨e, _, rfl, .saveFailed s e⟩

/-- Counting newly committed slots either changes statistics only or is undone. -/
theorem noteCommitted_cases (h : NetworkConsensusHandler V) (s : ConsensusState V) :
    (∃ s', orRollback h.state noteCommitted (h.withState s) = .ok () (h.withState s') ∧ SamePipeline s s') ∨
    ∃ e, orRollback h.state noteCommitted (h.withState s) = .error e h := by
  have hkeeps : Keeps (fun h' => ∃ s', h' = h.withState s' ∧ SamePipeline s s') (noteCommitted (V := V)) := by
    refine Keeps.bind Keeps.get fun _ => Keeps.forM _ fun e _ => Keeps.bind ?_ fun _ => Keeps.pure _
    apply Keeps.zoom (J := fun h' tuner => ∃ s', { h' with state := { h'.state with tuner } } = h.withState s' ∧
      SamePipeline s s')
    · rintro h' ⟨s', rfl, hsame⟩
      exact ⟨_, rfl, hsame.trans ⟨rfl, rfl, rfl, rfl⟩⟩
    · exact fun _ _ _ h => h
  have hstart := hkeeps (h.withState s) ⟨s, rfl, .refl s⟩
  simp only [orRollback]
  cases hx : noteCommitted (h.withState s) with
  | ok u h' =>
    rw [hx] at hstart
    obtain ⟨s', rfl, hsame⟩ := hstart
    exact .inl ⟨s', rfl, hsame⟩
  | error e h' =>
    rw [hx] at hstart
    obtain ⟨s', rfl, _⟩ := hstart
    exact .inr ⟨e, rfl⟩

private theorem not_claimed_blocking {s : ConsensusState V} {gap : SlotIndex}
    (hgap : s.replica.committedThrough.checkedNext = some gap) (hblock : s.gapIsBlocking gap = true) :
    ¬s.replica.Claimed gap := by
  have hfrontier : s.replica.nextCommit ≤ gap := by
    rw [(SlotIndex.checkedNext_eq_some.mp hgap).2]
    exact Nat.le_succ_of_pred_le (le_refl _)
  simp only [gapIsBlocking, Bool.and_eq_true] at hblock
  have hfree : (s.replica.log.get gap).all (fun entry => !entry.taken) = true := hblock.2
  rintro (hlt | htaken)
  · exact absurd hlt (not_lt.mpr hfrontier)
  · obtain ⟨entry, hget, hentry⟩ := (Option.any_eq_true _ _).mp htaken
    rw [hget, Option.all_some, hentry] at hfree
    cases hfree

section Claiming
variable [DecidableEq V] (env : NetworkEnvironment V) (h : NetworkConsensusHandler V)

/-- The gap is claimed, or nothing changes. -/
theorem armGapNoop_cases (now : Instant) :
    armGapNoop now h = .ok false h ∨
    (∃ slot noop s, armGapNoop now h = .ok true (h.withState s) ∧ h.state.Claims 0 slot [noop] s ∧ h.gapOpen = true) ∨
    ∃ e, armGapNoop now h = .error e h := by
  simp only [armGapNoop, bind_apply, get_apply]
  cases hnoop : h.noopValue with
  | none => exact .inl rfl
  | some noop =>
    by_cases hidle : h.state.pending.keys ≠ []
    · simp only [hidle, if_true, ne_eq, not_false_eq_true]
      exact .inl rfl
    · simp only [hidle, if_false]
      cases hgap : h.state.replica.committedThrough.checkedNext with
      | none => exact .inr (.inr ⟨_, rfl⟩)
      | some gap =>
        by_cases hblock : h.state.gapIsBlocking gap = true
        · simp only [hblock, if_true, onReplica, zoom, onState, bind_apply, modify_apply, ReplicaCore.noteProposed_eq]
          cases hadm : h.state.replica.admitProposal gap [noop] with
          | error e => exact .inr (.inr ⟨e, rfl⟩)
          | ok u =>
            have hopen : h.gapOpen = true := by
              simp only [gapOpen, hnoop, hgap, Option.any_some, hblock, Bool.and_true, Option.isSome_some,
                Bool.true_and]
              exact List.isEmpty_iff.mpr (not_not.mp hidle)
            exact .inr (.inl ⟨gap, noop, _, rfl, ⟨not_claimed_blocking hgap hblock, hadm, rfl, rfl, rfl, rfl⟩, hopen⟩)
        · simp only [hblock]
          exact .inl rfl

theorem enqueueSubmission_cases (values : List V) :
    (∃ replica, ReplicaCore.Change h.state.replica replica ∧ h.state.replica.SameOutcome replica.snapshot ∧
      enqueueSubmission env values h = .ok () (h.withState (h.state.withReplica replica)).saved) ∨
    ∃ e h', enqueueSubmission env values h = .error e h' ∧ h.Undone h' := by
  simp only [enqueueSubmission, bind_apply (x := get), get_apply, require]
  by_cases hroom : values.length ≤ h.config.replica.batchSize
  swap
  · simp only [hroom, if_false, bind_apply, check_error]
    exact .inr ⟨_, h, rfl, .same⟩
  by_cases hnodup : values.Nodup
  swap
  · simp only [hroom, hnodup, if_true, if_false, bind_apply, check_ok, check_error]
    exact .inr ⟨_, h, rfl, .same⟩
  simp only [hroom, hnodup, if_true, bind_apply (x := check _), check_ok, onReplica, bind_apply (x := zoom _ _ _), zoom]
  rcases ReplicaCore.enqueue_cases values h.state.replica with ⟨e, heq⟩ | ⟨fresh, heq, hc⟩
  · rw [heq]
    exact .inr ⟨e, h, rfl, .same⟩
  · rw [heq]
    rcases orRollback_persist env h (h.state.withReplica _) with hsave | ⟨e, hsave⟩
    · exact .inl ⟨_, hc, ⟨rfl, rfl, rfl, rfl⟩, hsave⟩
    · exact .inr ⟨e, _, hsave, .saveFailed _ e⟩

/-- A slot is claimed and the claim saved, or there is nothing to claim. Values refused for
the slot are gone from the queue. -/
theorem claimNext_cases :
    (∃ n slot values s, claimNext env h = .ok (.propose slot values) (h.withState s).saved ∧
      h.state.Claims n slot values s) ∨
    claimNext env h = .ok .wait h ∨ (∃ e h', claimNext env h = .error e h' ∧ h.Undone h') ∨
    ∃ e n, h.state.replica.Refused n e ∧ claimNext env h =
      .error e (h.withState
        (h.state.withReplica { h.state.replica with pending := h.state.replica.pending.drop n })) := by
  simp only [claimNext, bind_apply (x := get), get_apply, onReplica, bind_apply (x := zoom _ _ _), zoom]
  rcases ReplicaCore.nextProposal_cases h.state.replica with ⟨slot, values, replica, heq, harm⟩ | heq |
    ⟨e, replica, heq, hrep⟩
  · simp only [heq, onState, bind_apply (x := modify _), modify_apply]
    obtain ⟨n, _, _, hadm, rfl⟩ := harm.taken
    have hopen : ¬h.state.replica.Claimed slot := by
      rintro (hlt | htaken)
      · exact absurd hlt (not_lt.mpr harm.lowest.frontier)
      · exact Bool.false_ne_true (harm.isOpen.symm.trans htaken)
    rcases save_cases env h _ _ with hsave | hsave
    · exact .inl ⟨n, slot, values, _, hsave, hopen, hadm, rfl, rfl, rfl, rfl⟩
    · exact .inr (.inr (.inl hsave))
  · simp only [heq]
    exact .inr (.inl rfl)
  · simp only [heq]
    rcases hrep with rfl | ⟨n, hrefused, rfl⟩
    · exact .inr (.inr (.inl ⟨e, h, rfl, .same⟩))
    · exact .inr (.inr (.inr ⟨e, n, hrefused, rfl⟩))

/-- A turn of the submission loop reads a decision or a pending proposal, or claims a slot. -/
theorem submissionTurn_cases (values : List V) :
    (∃ d, submissionTurn env values h = .ok (.committed d) h) ∨
    (∃ slot values', submissionTurn env values h = .ok (.propose slot values') h ∧
      h.state.pending.get slot = some values') ∨
    submissionTurn env values h = claimNext env h := by
  simp only [submissionTurn, bind_apply (x := get), get_apply]
  cases h.state.decisionFor values with
  | some d => exact .inl ⟨d, rfl⟩
  | none =>
    cases hfind : h.state.pending.entries.find? fun e => values.all (· ∈ e.2) with
    | some e => exact .inr (.inl ⟨e.1, e.2, rfl, (OrderedMap.get_eq_some ..).mpr (List.mem_of_find?_eq_some hfind)⟩)
    | none => exact .inr (.inr rfl)

private theorem settle_cases (now : Instant) (s : ConsensusState V) (ds : List (Decision V)) :
    (∃ s', s.MayClaim s' ∧ (do
      let _ ← armGapNoop now
      orRollback h.state noteCommitted
      orRollback h.state (persist env)
      executeDecisions env ds) (h.withState s) = executeDecisions env ds (h.withState s').saved) ∨
    (∃ e h', (do
      let _ ← armGapNoop now
      orRollback h.state noteCommitted
      orRollback h.state (persist env)
      executeDecisions env ds) (h.withState s) = .error e h' ∧ h.Undone h') ∨
    ∃ e, armGapNoop now (h.withState s) = .error e (h.withState s) ∧ (do
      let _ ← armGapNoop now
      orRollback h.state noteCommitted
      orRollback h.state (persist env)
      executeDecisions env ds) (h.withState s) = .error e (h.withState s) := by
  have hrest : ∀ s₁, s.MayClaim s₁ →
      (∃ s', s.MayClaim s' ∧ (orRollback h.state noteCommitted >>= fun _ => orRollback h.state (persist env) >>=
        fun _ =>
        executeDecisions env ds) (h.withState s₁) = executeDecisions env ds (h.withState s').saved) ∨
      ∃ e h', (orRollback h.state noteCommitted >>= fun _ => orRollback h.state (persist env) >>= fun _ =>
        executeDecisions env ds) (h.withState s₁) = .error e h' ∧ h.Undone h' := by
    intro s₁ hmay
    rw [bind_apply]
    rcases noteCommitted_cases h s₁ with ⟨s₂, heq, hsame⟩ | ⟨e, heq⟩
    · simp only [heq, bind_apply]
      rcases orRollback_persist env h s₂ with hsave | ⟨e, hsave⟩
      · simp only [hsave]
        refine .inl ⟨s₂, ?_, rfl⟩
        rcases hmay with hmay | ⟨slot, values, hclaims⟩
        · exact .inl (hmay.trans hsame)
        · exact .inr ⟨slot, values, hclaims.same hsame⟩
      · simp only [hsave]
        exact .inr ⟨e, _, rfl, .saveFailed s₂ e⟩
    · simp only [heq]
      exact .inr ⟨e, h, rfl, .same⟩
  rw [bind_apply]
  rcases armGapNoop_cases (h.withState s) now with heq | ⟨slot, noop, s₁, heq, hclaims, _⟩ | ⟨e, heq⟩
  · simp only [heq]
    rcases hrest s (.inl (.refl s)) with hok | herr
    · exact .inl hok
    · exact .inr (.inl herr)
  · simp only [heq]
    rcases hrest s₁ (.inr ⟨slot, [noop], hclaims⟩) with hok | herr
    · exact .inl hok
    · exact .inr (.inl herr)
  · simp only [heq]
    exact .inr (.inr ⟨e, rfl, rfl⟩)

theorem acceptNew_refused (now : Instant) {e : QuePaxaError} {replica : ReplicaCore V}
    (happly : ReplicaCore.applyDecision d h.state.replica = .error e replica) :
    acceptNew env now d h = .error e (h.withState (h.state.withReplica replica)) := by
  simp only [acceptNew, bind_apply (x := get), get_apply, onReplica, bind_apply (x := zoom _ _ _), zoom, happly]
  rfl

theorem acceptNew_applied (now : Instant) {ds : List (Decision V)} {replica : ReplicaCore V}
    (happly : ReplicaCore.applyDecision d h.state.replica = .ok ds replica) : acceptNew env now d h = (do
      let _ ← armGapNoop now
      orRollback h.state noteCommitted
      orRollback h.state (persist env)
      executeDecisions env ds) (h.withState ((h.state.withReplica replica).retainDecision d)) := by
  simp only [acceptNew, bind_apply (x := get), get_apply, onReplica, bind_apply (x := zoom _ _ _), zoom, happly]
  rfl

/-- The new decision is saved and what it commits executed, or the section fails. -/
theorem acceptNew_cases (now : Instant) (d : Decision V) :
    (∃ ds s, h.state.Accepts d ds s ∧ acceptNew env now d h = executeDecisions env ds (h.withState s).saved) ∨
    (∃ e h', acceptNew env now d h = .error e h' ∧ h.Undone h') ∨
    (∃ e replica, ReplicaCore.applyDecision d h.state.replica = .error e replica ∧
      acceptNew env now d h = .error e (h.withState (h.state.withReplica replica))) ∨
    ∃ e ds replica, ReplicaCore.applyDecision d h.state.replica = .ok ds replica ∧
      armGapNoop now (h.withState ((h.state.withReplica replica).retainDecision d)) =
        .error e (h.withState ((h.state.withReplica replica).retainDecision d)) ∧
      acceptNew env now d h = .error e (h.withState ((h.state.withReplica replica).retainDecision d)) := by
  cases happly : ReplicaCore.applyDecision d h.state.replica with
  | error e replica => exact .inr (.inr (.inl ⟨e, replica, rfl, acceptNew_refused env h now happly⟩))
  | ok ds replica =>
    rw [acceptNew_applied env h now happly]
    rcases settle_cases env h now ((h.state.withReplica replica).retainDecision d) ds with ⟨s', hmay, hs⟩ | hleft |
      ⟨e, harm, hs⟩
    · exact .inl ⟨ds, s', ⟨replica, happly, hmay⟩, hs⟩
    · exact .inr (.inl hleft)
    · exact .inr (.inr (.inr ⟨e, ds, replica, rfl, harm, hs⟩))

/-- A decision the node has already may claim the gap, which is not saved. -/
theorem acceptDecision_known (now : Instant) {existing : Decision V}
    (hget : h.state.decisions.get d.slot = some existing) :
    (∃ e, acceptDecision env now d h = .error e h) ∨
    acceptDecision env now d h = executeReady env h ∨
    ∃ slot noop s, h.state.Claims 0 slot [noop] s ∧ h.gapOpen = true ∧
      acceptDecision env now d h = executeReady env (h.withState s) := by
  simp only [acceptDecision, bind_apply (x := get), get_apply, hget, bind_apply (x := check _), require]
  by_cases hsame : existing.valueIds = d.valueIds
  · simp only [hsame, if_true, check_ok, bind_apply (x := armGapNoop now)]
    rcases armGapNoop_cases h now with heq | ⟨slot, noop, s, heq, hclaims, hopen⟩ | ⟨e, heq⟩
    · rw [heq]
      exact .inr (.inl rfl)
    · rw [heq]
      exact .inr (.inr ⟨slot, noop, s, hclaims, hopen, rfl⟩)
    · simp only [heq]
      exact .inl ⟨e, rfl⟩
  · simp only [hsame, if_false, check_error]
    exact .inl ⟨_, rfl⟩

theorem acceptDecision_new {now : Instant} (hget : h.state.decisions.get d.slot = none) :
    acceptDecision env now d h = acceptNew env now d h := by
  simp only [acceptDecision, bind_apply (x := get), get_apply, hget]

/-- The gap may be claimed and saved; then what is committed is executed. -/
theorem recoverLocked_cases (now : Instant) :
    (∃ e h', recoverLocked env now h = .error e h' ∧ h.Undone h') ∨
    ∃ h₁, (h₁ = h ∨ ∃ slot noop s, h.state.Claims 0 slot [noop] s ∧ h₁ = (h.withState s).saved) ∧
      recoverLocked env now h = (executeReady env >>= fun _ => get >>= fun h => pure h.state.pending.entries) h₁ := by
  simp only [recoverLocked, bind_apply (x := get), get_apply, bind_apply (x := armGapNoop now)]
  rcases armGapNoop_cases h now with heq | ⟨slot, noop, s, heq, hclaims, _⟩ | ⟨e, heq⟩
  · simp only [heq]
    exact .inr ⟨h, .inl rfl, rfl⟩
  · simp only [heq, onlyIf, if_true, bind_apply (x := orRollback _ _)]
    rcases orRollback_persist env h s with hsave | ⟨e, hsave⟩
    · simp only [hsave]
      exact .inr ⟨_, .inr ⟨slot, noop, s, hclaims, rfl⟩, rfl⟩
    · simp only [hsave]
      exact .inl ⟨e, _, rfl, .saveFailed s e⟩
  · simp only [heq]
    exact .inl ⟨e, h, rfl, .same⟩

end Claiming

theorem sealTransfer_cases (env : NetworkEnvironment V) (h : NetworkConsensusHandler V) (slot : SlotIndex)
    (ids : Finset V)
    (checkpoint : List UInt8) :
    (∃ e h', sealTransfer env slot ids checkpoint h = .error e h' ∧ h.Undone h') ∨
    slot ≤ h.state.replica.committedThrough ∧ (h.state.pending.upTo slot).keys = [] ∧
      sealTransfer env slot ids checkpoint h = .ok
        ⟨slot, ids, checkpoint, (h.withState (h.state.pruned slot)).snapshot⟩
          (h.withState (h.state.pruned slot)).saved := by
  simp only [sealTransfer, bind_apply (x := get), get_apply, bind_apply (x := check _), require]
  by_cases hready : slot ≤ h.state.replica.committedThrough ∧ (h.state.pending.upTo slot).keys = []
  · simp only [hready, and_self, if_true, check_ok, onState, bind_apply (x := modify _), modify_apply]
    rcases save_cases env h (h.state.pruned slot)
      (⟨slot, ids, checkpoint, (h.withState (h.state.pruned slot)).snapshot⟩ :
      StateTransferSnapshot V) with hsave | hsave
    · exact .inr ⟨trivial, trivial, hsave⟩
    · exact .inl hsave
  · simp only [hready, if_false, check_error]
    exact .inl ⟨_, h, rfl, .same⟩

structure Restores (config : ReplicaRuntimeConfig) (snapshot : RuntimeSnapshot V) (s : ConsensusState V) : Prop where
  replica : s.replica = ⟨snapshot.replica, config.replica⟩
  decisions : s.decisions = snapshot.decisions
  pending : s.pending = snapshot.pending.mapValues (·.valueIds)
  executed : s.executed = snapshot.executed

theorem restore_ok [DecidableEq V] {snapshot : RuntimeSnapshot V} {s : ConsensusState V}
    (h : ConsensusState.restore config snapshot = .ok s) :
    Restores config snapshot s ∧ ReplicaCore.restore config.replica snapshot.replica = .ok s.replica := by
  simp only [ConsensusState.restore, except_bind_eq_ok] at h
  obtain ⟨replica, hreplica, tuner, _, heq⟩ := h
  obtain rfl := Except.ok.inj heq
  exact ⟨⟨ReplicaCore.restore_eq_ok hreplica, rfl, rfl, rfl⟩, hreplica⟩

theorem new_ok [DecidableEq V] {recorders : List ReplicaId}
    {stored : Option (RuntimeSnapshot V)} {trace : List (NetworkEvent V)}
    (hnew : new config recorders stored trace = .ok h) : h.trace = trace ∧
      (stored = none ∧ h.state = ConsensusState.fresh config ∨
        ∃ snapshot, stored = some snapshot ∧ Restores config snapshot h.state) := by
  cases stored with
  | none =>
    simp only [new, except_bind_eq_ok] at hnew
    obtain ⟨_, _, s, hstate, _, _, heq⟩ := hnew
    obtain rfl := Except.ok.inj heq
    exact ⟨rfl, .inl ⟨rfl, (Except.ok.inj hstate).symm⟩⟩
  | some snapshot =>
    simp only [new, except_bind_eq_ok] at hnew
    obtain ⟨_, _, _, _, s, hrestore, _, _, heq⟩ := hnew
    obtain rfl := Except.ok.inj heq
    exact ⟨rfl, .inr ⟨snapshot, rfl, (restore_ok hrestore).1⟩⟩

theorem new_config [DecidableEq V] {recorders : List ReplicaId}
    {stored : Option (RuntimeSnapshot V)} {trace : List (NetworkEvent V)}
    (hnew : new config recorders stored trace = .ok h) : h.config = config := by
  cases stored with
  | none =>
    simp only [new, except_bind_eq_ok] at hnew
    obtain ⟨_, _, _, _, _, _, heq⟩ := hnew
    exact (Except.ok.inj heq) ▸ rfl
  | some snapshot =>
    simp only [new, except_bind_eq_ok] at hnew
    obtain ⟨_, _, _, _, _, _, _, _, heq⟩ := hnew
    exact (Except.ok.inj heq) ▸ rfl

theorem installStateTransfer_cases [DecidableEq V] (env : NetworkEnvironment V) (h : NetworkConsensusHandler V)
    (incoming : StateTransferSnapshot V) :
    (∃ e, installStateTransfer env incoming h = .error e h) ∨
    (∃ e, installStateTransfer env incoming h =
      .error e (h.log (.imported incoming.through incoming.applicationCheckpoint (.error e)))) ∨
    (∃ e, installStateTransfer env incoming h =
      .error e ((h.log (.imported incoming.through incoming.applicationCheckpoint (.ok ()))).log
        (.saved incoming.runtime (.error e)))) ∨
    ∃ s, ConsensusState.restore h.config incoming.runtime = .ok s ∧ s.validateState h.config = .ok () ∧
      (incoming.through = incoming.runtime.replica.checkpointedThrough ∧
        incoming.runtime.cluster = h.config.cluster ∧ incoming.runtime.protocol = h.config.protocolIdentity) ∧
      installStateTransfer env incoming h =
        .ok () (((h.log (.imported incoming.through incoming.applicationCheckpoint (.ok ()))).log
          (.saved incoming.runtime (.ok ()))).withState s) := by
  simp only [installStateTransfer, bind_apply (x := get), get_apply, bind_apply (x := check _), require]
  by_cases hmatch : incoming.through = incoming.runtime.replica.checkpointedThrough ∧
      incoming.runtime.cluster = h.config.cluster ∧ incoming.runtime.protocol = h.config.protocolIdentity
  swap
  · simp only [hmatch, if_false, check_error]
    exact .inl ⟨_, rfl⟩
  rw [if_pos hmatch]
  simp only [check_ok]
  cases hrestore : ConsensusState.restore h.config incoming.runtime with
  | error e => exact .inl ⟨e, rfl⟩
  | ok s =>
    cases hvalid : s.validateState h.config with
    | error e =>
      simp only [check_ok, hvalid, check_error]
      exact .inl ⟨e, rfl⟩
    | ok u =>
      simp only [check_ok, hvalid, request, bind_apply, modify_apply, onState, get_apply]
      cases env.importCheckpoint h.trace incoming.through incoming.applicationCheckpoint with
      | error e => exact .inr (.inl ⟨e, rfl⟩)
      | ok u =>
        simp only [check_ok]
        cases env.save (h.log (.imported incoming.through incoming.applicationCheckpoint (.ok u))).trace
          incoming.runtime with
        | error e => exact .inr (.inr (.inl ⟨e, rfl⟩))
        | ok u => exact .inr (.inr (.inr ⟨s, rfl, hvalid, hmatch, rfl⟩))

theorem installEpochSchedule_cases (env : NetworkEnvironment V) (h : NetworkConsensusHandler V)
    (schedule : EpochSchedule) :
    (∃ e h', installEpochSchedule env schedule h = .error e h' ∧ h.Undone h') ∨
    installEpochSchedule env schedule h = .ok () h ∨
    ∃ tuner, installEpochSchedule env schedule h = .ok () (h.withState { h.state with tuner }).saved := by
  simp only [installEpochSchedule, bind_apply (x := get), get_apply, bind_apply (x := check _), require]
  by_cases hvalid : schedule.proposers.toFinset = h.config.members.toFinset ∧
      schedule.proposers.length = h.config.members.toFinset.card
  swap
  · simp only [hvalid, if_false, check_error]
    exact .inl ⟨_, h, rfl, .same⟩
  simp only [hvalid, and_self, if_true, check_ok, onTuner, bind_apply (x := zoom _ _ _), zoom]
  rcases EpochTuner.install_cases schedule h.state.tuner with ⟨e, heq⟩ | ⟨heq, _⟩ | heq
  · simp only [heq]
    exact .inl ⟨e, h, rfl, .same⟩
  · simp only [heq]
    exact .inr (.inl rfl)
  · simp only [heq, onlyIf, if_true]
    rcases orRollback_persist env h { h.state with tuner := _ } with hsave | ⟨e, hsave⟩
    · exact .inr (.inr ⟨_, hsave⟩)
    · exact .inl ⟨e, _, hsave, .saveFailed _ e⟩

structure Closed [DecidableEq V] (I : NetworkConsensusHandler V → Prop) : Prop where
  quiet : ∀ h h', I h → Quiet h h' → I h'
  saved : ∀ h, I h → I h.saved
  saveFailed : ∀ h s e, I h → I (h.saveFailed s e)
  steady : ∀ h replica, I h → ReplicaCore.Change h.state.replica replica →
    h.state.replica.SameOutcome replica.snapshot →
    I (h.withState (h.state.withReplica replica))
  claims : ∀ h n slot values s, I h → h.state.Claims n slot values s → I (h.withState s).saved

section Closed
variable [DecidableEq V] {env : NetworkEnvironment V} {I : NetworkConsensusHandler V → Prop} (hI : Closed I)
include hI

theorem Closed.undone {h' : NetworkConsensusHandler V} (hh : I h) (hl : h.Undone h') : I h' := by
  cases hl with
  | same => exact hh
  | saveFailed s e => exact hI.saveFailed h s e hh

private theorem Closed.enqueueSubmission (values : List V) : Keeps I (enqueueSubmission env values) := by
  intro h hh
  rcases enqueueSubmission_cases env h values with ⟨replica, hc, hsame, heq⟩ | ⟨e, h', heq, hl⟩
  · rw [heq]
    exact hI.saved _ (hI.steady h replica hh hc hsame)
  · rw [heq]
    exact hI.undone hh hl

private theorem Closed.submissionTurn (values : List V) : Keeps I (submissionTurn env values) := by
  intro h hh
  rcases submissionTurn_cases env h values with ⟨d, heq⟩ | ⟨slot, values', heq, _⟩ | heq
  · rw [heq]
    exact hh
  · rw [heq]
    exact hh
  · rw [heq]
    rcases claimNext_cases env h with ⟨n, slot, values', s, hclaim, hs⟩ | hwait | ⟨e, h', herr, hl⟩ | ⟨e, n, _, herr⟩
    · rw [hclaim]
      exact hI.claims h n slot values' s hh hs
    · rw [hwait]
      exact hh
    · rw [herr]
      exact hI.undone hh hl
    · rw [herr]
      exact hI.steady h _ hh (.drain n) ⟨rfl, rfl, rfl, rfl⟩

private theorem Closed.installEpochSchedule (schedule : EpochSchedule) :
    Keeps I (installEpochSchedule env schedule) := by
  intro h hh
  rcases installEpochSchedule_cases env h schedule with ⟨e, h', heq, hu⟩ | heq | ⟨tuner, heq⟩
  · rw [heq]
    exact hI.undone hh hu
  · rw [heq]
    exact hh
  · rw [heq]
    exact hI.saved _ (hI.quiet h _ hh (.timed h ⟨rfl, rfl, rfl, rfl⟩))

end Closed
end NetworkConsensusHandler

namespace Task
open NetworkConsensusHandler

/-- Sections that do not execute, propose, export, prune or replace the state. -/
def isRoutine : Task V → Bool
  | .receiving (_ :: _) | .accepting _ | .recovering | .ready _ _ _ | .exporting _ _ | .sealing _ _ _ | .install _ =>
    false
  | _ => true

variable [DecidableEq V] {env : NetworkEnvironment V} {I : NetworkConsensusHandler V → Prop}

theorem keeps_advance (env : NetworkEnvironment V) (hI : Closed I) {task : Task V} (hroutine : task.isRoutine = true)
    (now : Instant) :
    Keeps I (advance env now task) := by
  cases task with
  | submit values => exact Keeps.bind (hI.enqueueSubmission values) fun _ => Keeps.pure _
  | submitting values =>
    refine Keeps.bind (hI.submissionTurn values) fun turn => ?_
    cases turn <;> exact Keeps.pure _
  | receiving decisions =>
    cases decisions with
    | nil => exact Keeps.pure _
    | cons d rest => cases hroutine
  | waiting slot values =>
    refine Keeps.bind Keeps.get fun h => Keeps.ite (fun _ => Keeps.pure _) fun _ => ?_
    exact Keeps.bind (keeps_hedgeFor hI.quiet now slot) fun _ => Keeps.pure _
  | hedging slot values leader =>
    exact Keeps.bind Keeps.get fun h => Keeps.ite (fun _ => Keeps.pure _) fun _ => Keeps.pure _
  | probing slot values leader =>
    refine Keeps.bind (keeps_deferForProgress hI.quiet slot) fun deferred => ?_
    exact Keeps.ite (fun _ => Keeps.pure _) fun _ => Keeps.pure _
  | proposing call =>
    exact Keeps.bind Keeps.get fun h => Keeps.bind (keeps_request hI.quiet rfl _) fun _ => Keeps.pure _
  | observing d =>
    refine Keeps.bind Keeps.get fun h => Keeps.bind ?_ fun _ => Keeps.pure _
    exact keeps_onState hI.quiet fun s => ⟨rfl, rfl, rfl, rfl⟩
  | transfer slot => exact Keeps.bind (keeps_beginTransfer slot) fun _ => Keeps.pure _
  | disseminating slot decisions => exact Keeps.bind (keeps_disseminateAll hI.quiet decisions) fun _ => Keeps.pure _
  | schedule agreed => exact Keeps.bind (hI.installEpochSchedule agreed) fun _ => Keeps.pure _
  | recovering | ready _ _ _ | accepting _ | exporting _ _ | sealing _ _ _ | install _ => cases hroutine

inductive Follows (env : NetworkEnvironment V) (h h' : NetworkConsensusHandler V) : Task V → Task V → Prop
  | queued (values : List V) : Follows env h h' (.submit values) (.submitting values)
  | turned (values : List V) : Follows env h h' (.submitting values) (.submitting values)
  | took {slot : SlotIndex} {values values' : List V} (pending : h'.state.pending.get slot = some values') :
      Follows env h h' (.submitting values) (.waiting slot values')
  | received : Follows env h h' (.receiving []) .recovering
  | receives (d : Decision V) (rest : List (Decision V)) : Follows env h h' (.receiving (d :: rest)) (.receiving rest)
  | recovered {slot : SlotIndex} {values : List V} (pending : h'.state.pending.get slot = some values) :
      Follows env h h' .recovering (.waiting slot values)
  | hedged (slot : SlotIndex) (values : List V) (leader : ReplicaId) :
      Follows env h h' (.waiting slot values) (.hedging slot values leader)
  | due (slot : SlotIndex) (values : List V) (leader : ReplicaId) :
      Follows env h h' (.hedging slot values leader) (.ready slot values leader)
  | probed (slot : SlotIndex) (values : List V) (leader : ReplicaId) :
      Follows env h h' (.hedging slot values leader) (.probing slot values leader)
  | deferred (slot : SlotIndex) (values : List V) (leader : ReplicaId) :
      Follows env h h' (.probing slot values leader) (.waiting slot values)
  | passed (slot : SlotIndex) (values : List V) (leader : ReplicaId) :
      Follows env h h' (.probing slot values leader) (.ready slot values leader)
  | proposed (slot : SlotIndex) (values : List V) (leader : ReplicaId) (call : ProposeCall V) :
      Follows env h h' (.ready slot values leader) (.proposing call)
  | answered (call : ProposeCall V) (d : Decision V) : Follows env h h' (.proposing call) (.observing d)
  | observed (d : Decision V) : Follows env h h' (.observing d) (.accepting d)
  | began {slot : SlotIndex} {decisions : List (Decision V)} (committed : slot ≤ h.state.replica.committedThrough)
      (same : h' = h) : Follows env h h' (.transfer slot) (.disseminating slot decisions)
  | disseminated (slot : SlotIndex) (decisions : List (Decision V)) (ids : Finset V) :
      Follows env h h' (.disseminating slot decisions) (.exporting slot ids)
  | exported {slot : SlotIndex} {ids : Finset V} {checkpoint : List UInt8}
      (result : env.exportCheckpoint h.trace slot = .ok checkpoint)
        (logged : h' = h.log (.exported slot (.ok checkpoint))) :
      Follows env h h' (.exporting slot ids) (.sealing slot ids checkpoint)

section Follows
variable {h h' : NetworkConsensusHandler V} {now : Instant}

private theorem pending_of_submissionTurn {values values' : List V}
    (hx : submissionTurn env values h = .ok (.propose slot values') h') : h'.state.pending.get slot = some values' := by
  rcases submissionTurn_cases env h values with ⟨d, heq⟩ | ⟨slot', values'', heq, hget⟩ | heq
  · rw [heq] at hx
    cases hx
  · rw [heq] at hx
    cases hx
    exact hget
  · rw [heq] at hx
    rcases claimNext_cases env h with ⟨n, slot', values'', s, hclaim, hs⟩ | hwait | ⟨e, _, herr, _⟩ | ⟨e, n, _, herr⟩
    · rw [hclaim] at hx
      cases hx
      show s.pending.get slot = some values'
      rw [hs.pending, OrderedMap.get_insert_self]
    · rw [hwait] at hx
      cases hx
    all_goals
      rw [herr] at hx
      cases hx

private theorem pending_of_recoverLocked {pending : List (SlotIndex × List V)}
    (hx : recoverLocked env now h = .ok pending h')
    (e : SlotIndex × List V) (he : e ∈ pending) : h'.state.pending.get e.1 = some e.2 := by
  rcases recoverLocked_cases env h now with ⟨_, _, herr, _⟩ | ⟨h₁, _, heq⟩
  · rw [herr] at hx
    cases hx
  · rw [heq] at hx
    obtain ⟨_, m, _, hlast⟩ := bind_eq_ok.mp hx
    cases hlast
    exact (OrderedMap.get_eq_some ..).mpr he

theorem follows_of_advance {task : Task V} {next : List (Task V)} (hx : task.advance env now h = .ok next h') :
    ∀ t ∈ next, Follows env h h' task t := by
  have hone : ∀ {t' : Task V}, next = [t'] → Follows env h h' task t' → ∀ t ∈ next, Follows env h h' task t := by
    intro t' hnext hfollows t ht
    rw [hnext] at ht
    exact List.mem_singleton.mp ht ▸ hfollows
  have hnone : next = [] → ∀ t ∈ next, Follows env h h' task t := by
    intro hnext t ht
    rw [hnext] at ht
    cases ht
  cases task with
  | submit values =>
    obtain ⟨_, _, hnext⟩ := bind_pure_eq_ok.mp hx
    exact hone hnext (.queued values)
  | submitting values =>
    obtain ⟨turn, m, hturn, hnext⟩ := bind_eq_ok.mp hx
    cases turn with
    | committed d =>
      cases hnext
      exact hnone rfl
    | wait =>
      cases hnext
      exact hone rfl (.turned values)
    | propose slot values' =>
      cases hnext
      intro t ht
      rcases List.mem_cons.mp ht with rfl | ht
      · exact .turned values
      · exact List.mem_singleton.mp ht ▸ .took (pending_of_submissionTurn hturn)
  | receiving decisions =>
    cases decisions with
    | nil =>
      cases hx
      exact hone rfl .received
    | cons d rest =>
      obtain ⟨_, _, hnext⟩ := bind_pure_eq_ok.mp hx
      exact hone hnext (.receives d rest)
  | recovering =>
    obtain ⟨pending, hrecover, rfl⟩ := bind_pure_eq_ok.mp hx
    intro t ht
    obtain ⟨e, he, rfl⟩ := List.mem_map.mp ht
    exact .recovered (pending_of_recoverLocked hrecover e he)
  | waiting slot values =>
    rw [advance, bind_apply, get_apply] at hx
    dsimp only at hx
    split_ifs at hx
    · cases hx
      exact hnone rfl
    · obtain ⟨turn, _, hnext⟩ := bind_pure_eq_ok.mp hx
      exact hone hnext (.hedged slot values turn.1)
  | hedging slot values leader =>
    rw [advance, bind_apply, get_apply] at hx
    dsimp only at hx
    split_ifs at hx
    · cases hx
      exact hone rfl (.due slot values leader)
    · cases hx
      exact hone rfl (.probed slot values leader)
  | probing slot values leader =>
    obtain ⟨deferred, m, _, hnext⟩ := bind_eq_ok.mp hx
    split_ifs at hnext
    · cases hnext
      exact hone rfl (.deferred slot values leader)
    · cases hnext
      exact hone rfl (.passed slot values leader)
  | ready slot values leader =>
    rw [advance, bind_apply, get_apply] at hx
    dsimp only at hx
    split_ifs at hx
    · cases hx
      exact hone rfl (.proposed slot values leader _)
    · cases hx
      exact hnone rfl
  | proposing call =>
    rw [advance, bind_apply, get_apply] at hx
    obtain ⟨d, _, hnext⟩ := bind_pure_eq_ok.mp hx
    exact hone hnext (.answered call d)
  | observing d =>
    rw [advance, bind_apply, get_apply] at hx
    obtain ⟨_, _, hnext⟩ := bind_pure_eq_ok.mp hx
    exact hone hnext (.observed d)
  | accepting d =>
    obtain ⟨_, _, hnext⟩ := bind_pure_eq_ok.mp hx
    exact hnone hnext
  | transfer slot =>
    obtain ⟨decisions, hbegin, hnext⟩ := bind_pure_eq_ok.mp hx
    obtain ⟨hcommitted, hsame⟩ := beginTransfer_ok hbegin
    exact hone hnext (.began hcommitted hsame)
  | disseminating slot decisions =>
    obtain ⟨_, _, hnext⟩ := bind_pure_eq_ok.mp hx
    exact hone hnext (.disseminated slot decisions _)
  | exporting slot ids =>
    obtain ⟨checkpoint, hexport, hnext⟩ := bind_pure_eq_ok.mp hx
    obtain ⟨hresult, hlogged⟩ := exportCheckpoint_ok hexport
    exact hone hnext (.exported hresult hlogged)
  | sealing slot ids checkpoint =>
    obtain ⟨_, _, _, hrest⟩ := bind_eq_ok.mp hx
    cases hrest
    exact hnone rfl
  | install incoming =>
    obtain ⟨_, _, hnext⟩ := bind_pure_eq_ok.mp hx
    exact hnone hnext
  | schedule agreed =>
    obtain ⟨_, _, hnext⟩ := bind_pure_eq_ok.mp hx
    exact hnone hnext

end Follows

end Task

namespace Node
variable [DecidableEq V]

inductive Stepped (env : NetworkEnvironment V) : Node V → NodeAction V → Node V → Prop
  | idle (n : Node V) (a : NodeAction V) : Stepped env n a n
  | called {h : NetworkConsensusHandler V} {tasks : List (Task V)} {task : Task V} (call : task.isCall = true) :
      Stepped env (.up h tasks) (.call task) (.up h (tasks ++ [task]))
  | advanced {h h' : NetworkConsensusHandler V} {tasks next : List (Task V)} {task : Task V} {i : Nat} {now : Instant}
      (here : tasks[i]? = some task) (returned : task.advance env now h = .ok next h') :
      Stepped env (.up h tasks) (.run i now) (.up h' (tasks.eraseIdx i ++ next))
  | failed {h h' : NetworkConsensusHandler V} {tasks : List (Task V)} {task : Task V} {i : Nat} {now : Instant}
      {e : QuePaxaError} (here : tasks[i]? = some task) (failure : task.advance env now h = .error e h') :
      Stepped env (.up h tasks) (.run i now) (.up h' (tasks.eraseIdx i))
  | notified {h : NetworkConsensusHandler V} {tasks : List (Task V)} {i : Nat} {slot : SlotIndex} {values : List V}
      {leader : ReplicaId} (here : tasks[i]? = some (.hedging slot values leader)) :
      Stepped env (.up h tasks) (.notify i) (.up h (tasks.eraseIdx i ++ [.waiting slot values]))
  | dropped {h : NetworkConsensusHandler V} {tasks : List (Task V)} (i : Nat) :
      Stepped env (.up h tasks) (.drop i) (.up h (tasks.eraseIdx i))
  | crashed {h : NetworkConsensusHandler V} {tasks : List (Task V)} {task : Task V} {i : Nat} {now : Instant}
      (here : tasks[i]? = some task) (requests : Nat) :
      Stepped env (.up h tasks) (.crash i now requests)
        (.down ((after (task.advance env now) h).trace.take (h.trace.length + requests)))
  | halted {h : NetworkConsensusHandler V} {tasks : List (Task V)} (i : Nat) (now : Instant) (requests : Nat) :
      Stepped env (.up h tasks) (.crash i now requests) (.down h.trace)
  | reconfigured {h : NetworkConsensusHandler V} (change : MembershipChange V) (next : List ReplicaId) :
      Stepped env (.up h []) (.reconfigure change next none)
        (.up (after (NetworkConsensusHandler.installMembership env change next) h) [])
  | reconfigureCrashed {h : NetworkConsensusHandler V} (change : MembershipChange V) (next : List ReplicaId)
    (requests : Nat) :
      Stepped env (.up h []) (.reconfigure change next (some requests))
        (.down ((after (NetworkConsensusHandler.installMembership env change next) h).trace.take
          (h.trace.length + requests)))
  | restarted {trace : List (NetworkEvent V)} {config : ReplicaRuntimeConfig} {recorders : List ReplicaId}
      {h : NetworkConsensusHandler V} {noop : Option V}
      (new : NetworkConsensusHandler.new config recorders (latest NetworkEvent.stored trace) (trace ++ [.started]) =
        .ok h) :
      Stepped env (.down trace) (.restart config recorders noop) (.up { h with noopValue := noop } [])

theorem step_cases (env : NetworkEnvironment V) (n : Node V) (a : NodeAction V) : Stepped env n a (n.step env a) := by
  cases n with
  | up h tasks =>
    cases a with
    | call task =>
      simp only [step]
      split_ifs with hcall
      · exact .called hcall
      · exact .idle _ _
    | run i now =>
      simp only [step]
      cases hi : tasks[i]? with
      | none => exact .idle _ _
      | some task =>
        simp only [resumeWith]
        cases hx : task.advance env now h with
        | ok next h' => exact .advanced hi hx
        | error e h' => exact .failed hi hx
    | notify i =>
      simp only [step]
      split
      · exact .notified ‹_›
      · exact .idle _ _
    | drop i => exact .dropped i
    | crash i now requests =>
      simp only [step]
      cases hi : tasks[i]? with
      | none => exact .halted i now requests
      | some task => exact .crashed hi requests
    | restart config recorders noop => exact .idle _ _
    | reconfigure change next dies =>
      cases tasks with
      | cons task tasks => cases dies <;> exact .idle (.up h (task :: tasks)) _
      | nil =>
        cases dies with
        | none => exact .reconfigured change next
        | some requests => exact .reconfigureCrashed change next requests
  | down trace =>
    cases a with
    | restart config recorders noop =>
      simp only [step]
      cases hnew : NetworkConsensusHandler.new config recorders (latest NetworkEvent.stored trace) (trace ++ [.started])
        with
      | error e => exact .idle _ _
      | ok h => exact .restarted hnew
    | call | run | notify | drop | crash | reconfigure => exact .idle _ _

end Node
end QuePaxa
