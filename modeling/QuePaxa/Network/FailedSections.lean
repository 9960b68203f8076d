import QuePaxa.Core.FrontierDecision
import QuePaxa.Network.Execution
import QuePaxa.Network.Soundness

/-! What a section leaves in memory when it fails before its save. Most failures put the
state back that the section has found. Four do not: a decision that runs into the last slot,
a new decision whose gap cannot be armed, a known decision that arms the gap or marks an
execution without a save, and queued values that the replica refuses for a slot. The conditions
below say exactly from which states they can happen. -/
namespace QuePaxa
open Library
variable {V : Type}
variable {e : QuePaxaError}

namespace ReplicaCore
variable [DecidableEq V] {r r' : ReplicaCore V} {d : Decision V}

structure Takes (r : ReplicaCore V) (d : Decision V) : Prop where
  admitted : r.admitDecision d = .ok ()
  fresh : (r.entry d.slot).decision = none
  room : r.pending.length + (requeued (r.entry d.slot) d).length ≤ r.config.maxPendingValues

/-- A refused decision leaves its traces exactly when it is taken in and the frontier then finds
no slot to stop at. -/
theorem refused_without_trace_iff (hs : r.Sound) :
    (∀ e r', applyDecision d r = .error e r' → r' = r) ↔ (r.Takes d → r.StopsShort d) := by
  have hcommit := triple_commitReady_decided (d := d) hs _ rfl
  constructor
  · intro hsame htakes
    have heq := applyDecision_fresh htakes.admitted htakes.fresh htakes.room
    cases hx : commitReady (r.decided d) with
    | ok ds s =>
      rw [hx] at hcommit
      exact hcommit
    | error e s =>
      rw [hx] at hcommit
      have hstored := hcommit.1
      rw [hsame e s (heq.trans hx), ← entry_decision, htakes.fresh] at hstored
      cases hstored
  · intro hstop e r' hx
    rcases applyDecision_cases d r with ⟨_, heq⟩ | ⟨_, _, _, _, heq⟩ | ⟨hc, hfresh, hadm, heq⟩
    · rw [heq] at hx
      cases hx
      rfl
    · rw [heq] at hx
      cases hx
    · rw [heq] at hx
      rw [hx] at hcommit
      exact absurd (hstop ⟨hadm, hfresh, room_of_decided hs hc⟩) hcommit.2

def nextBatch (r : ReplicaCore V) : List V := r.pending.take (max (min r.config.batchSize r.pending.length) 1)

def ClaimRoom (r : ReplicaCore V) : Prop :=
  r.inflightCount < r.config.pipelineLen → r.pending ≠ [] → ∀ slot, r.nextOpenSlot = .ok slot →
    r.nextBatch.Nodup ∧ r.ensureLogCapacity slot = .ok ()

private theorem claimRoom_iff (hs : r.Sound) : r.ClaimRoom ↔ ∀ n e, ¬r.Refused n e := by
  constructor
  · intro hroom n e hrefused
    obtain ⟨slot, hslot, _⟩ := hrefused.refused
    obtain ⟨hnodup, hlog⟩ := hroom hrefused.spare hrefused.queued slot hslot
    rw [nextBatch, ← hrefused.size] at hnodup
    have hfull := hrefused.no_room hs hnodup
    simp only [roomForNext, hslot, hlog] at hfull
    cases hfull
  · intro hnever hspare hqueued slot hslot
    cases hadm : ReplicaCore.admitProposal
        { r with pending := r.pending.drop (max (min r.config.batchSize r.pending.length) 1) } slot r.nextBatch with
    | error e => exact absurd ⟨hspare, hqueued, rfl, slot, hslot, hadm⟩ (hnever _ e)
    | ok u =>
      obtain ⟨_, hnodup, _, hlog⟩ := admitProposal_eq_ok.mp hadm
      exact ⟨hnodup, require_eq_ok.mpr hlog⟩

private theorem Refused.drains {n : Nat} (h : r.Refused n e) :
    { r with pending := r.pending.drop n } ≠ r := by
  intro hsame
  have hlength := congrArg (fun s : ReplicaCore V => s.pending.length) hsame
  simp only [List.length_drop] at hlength
  have hpos := h.pos
  have hqueued := List.length_pos_of_ne_nil h.queued
  omega

private theorem nextProposal_refused {n : Nat} (h : r.Refused n e) :
    nextProposal r = .error e { r with pending := r.pending.drop n } := by
  obtain ⟨slot, hslot, hadm⟩ := h.refused
  have hgo : ¬(r.config.pipelineLen ≤ r.inflightCount ∨ r.pending = []) := not_or.mpr ⟨not_le.mpr h.spare, h.queued⟩
  simp only [nextProposal, bind_apply, get_apply, if_neg hgo, hslot, check_ok, set_apply, noteProposed_eq, ← h.size,
    hadm]

end ReplicaCore

namespace NetworkConsensusHandler
open ConsensusState

theorem Undone.state {h h' : NetworkConsensusHandler V} (hu : h.Undone h') : h'.state = h.state := by
  cases hu <;> rfl

def ready (h : NetworkConsensusHandler V) : List (Decision V) :=
  ((h.state.decisions.upTo h.state.replica.committedThrough).entries.filter (·.1 ∉ h.state.executed)).map (·.2)

def outstanding (h : NetworkConsensusHandler V) : List (Decision V) := h.ready.filter (·.slot ∉ h.state.executed)

def Unsaved (h h' : NetworkConsensusHandler V) : Prop := Extends (fun event => event.stored = none) h.trace h'.trace

section Unsaved
variable {h h₁ h' : NetworkConsensusHandler V}

private theorem Unsaved.log {event : NetworkEvent V} (hun : h.Unsaved h₁) (hevent : event.stored = none) :
    h.Unsaved (h₁.log event) :=
  hun.concat hevent

theorem Unsaved.not_saved (hun : h.Unsaved h') {made : List (NetworkEvent V)} {snapshot : RuntimeSnapshot V}
    (htrace : h₁.trace = h.trace ++ made) (hsaved : .saved snapshot (.ok ()) ∈ made) (hlater : h₁.trace <+: h'.trace) :
    False := by
  obtain ⟨new, hnew, hnone⟩ := hun
  rw [hnew, htrace] at hlater
  cases hnone _ (((List.prefix_append_right_inj _).mp hlater).subset hsaved)

theorem prefix_executeDecisions {env : NetworkEnvironment V} {ds : List (Decision V)}
    (hx : executeDecisions env ds h = .error e h') : h.trace <+: h'.trace := by
  have hlog : ∀ (s : NetworkConsensusHandler V) (event : NetworkEvent V), h.trace <+: s.trace →
    h.trace <+: (s.log event).trace :=
    fun s event hs => hs.trans (List.prefix_append ..)
  have hkeeps : Keeps (fun s : NetworkConsensusHandler V => h.trace <+: s.trace) (executeDecisions env ds) :=
    keeps_executeDecisions (fun s d _ hs _ => hlog s _ hs) (fun s d _ e hs => hlog s _ hs) (fun s hs => hlog s _ hs)
      fun s _ e hs => hlog s _ hs
  have hend := hkeeps h (List.prefix_refl _)
  rw [hx] at hend
  exact hend

/-- Decisions whose slots are marked are passed over; the first other one is executed. -/
theorem executeDecisions_first (env : NetworkEnvironment V) (h : NetworkConsensusHandler V) (ds : List (Decision V)) :
    match ds.filter (·.slot ∉ h.state.executed) with
    | [] => executeDecisions env ds h = .ok () h
    | first :: _ => first.slot ∉ h.state.executed ∧ ∃ later, executeDecisions env ds h =
        (executeOne env first >>= fun _ => executeDecisions env later) h := by
  induction ds with
  | nil => rfl
  | cons d ds ih =>
    have hbind : executeDecisions env (d :: ds) h = (executeOne env d >>= fun _ => executeDecisions env ds) h := rfl
    by_cases hdone : d.slot ∈ h.state.executed
    · have hskip : executeDecisions env (d :: ds) h = executeDecisions env ds h := by
        rw [hbind, bind_apply, executeOne_done env h hdone]
      rw [List.filter_cons_of_neg (by simpa using hdone), hskip]
      exact ih
    · rw [List.filter_cons_of_pos (by simpa using hdone)]
      exact ⟨hdone, ds, hbind⟩

/-- What it takes for the executions to fail only with the state `s₀` in memory, as long as
nothing is saved: the first of them decides. -/
theorem executeDecisions_restores_iff (env : NetworkEnvironment V) (ds : List (Decision V)) {s₀ : ConsensusState V}
    (hmarks : ∀ d : Decision V, d.slot ∉ h.state.executed → (h.executes d).state ≠ s₀) :
    (∀ e h', executeDecisions env ds h = .error e h' → h.Unsaved h' → h'.state = s₀) ↔
      ∀ first, (ds.filter (·.slot ∉ h.state.executed)).head? = some first →
        (∀ e, env.execute h.trace first = .error e → h.state = s₀) ∧
        (env.execute h.trace first = .ok () →
          env.save (h.executes first).trace (h.executes first).snapshot = .ok ()) := by
  have hfirst := executeDecisions_first env h ds
  cases hds : ds.filter (·.slot ∉ h.state.executed) with
  | nil =>
    rw [hds] at hfirst
    refine ⟨fun _ _ hsome => (by cases hsome), fun _ e h' hx => ?_⟩
    rw [hfirst] at hx
    cases hx
  | cons first rest =>
    rw [hds] at hfirst
    obtain ⟨hnew, later, heq⟩ := hfirst
    simp only [heq, bind_apply, executeOne_eq env h hnew, List.head?_cons, Option.some.injEq, forall_eq']
    cases hexecute : env.execute h.trace first with
    | error e =>
      have hun : h.Unsaved (h.log (.executed first (.error e))) := .log (.refl _) rfl
      refine ⟨fun hall => ⟨fun _ _ => hall e (h.log _) rfl hun, fun hok => (by cases hok)⟩, fun hall e' h' hx _ => ?_⟩
      cases hx
      exact hall.1 e rfl
    | ok u =>
      simp only [persist_eq]
      cases hsave : env.save (h.executes first).trace (h.executes first).snapshot with
      | error e =>
        have hun : h.Unsaved ((h.executes first).log (.saved (h.executes first).snapshot (.error e))) :=
          .log (.log (.refl _) rfl) rfl
        refine ⟨fun hall => absurd (hall e _ rfl hun) (hmarks first hnew), fun hall => ?_⟩
        cases hall.2 trivial
      | ok u =>
        refine ⟨fun _ => ⟨fun _ herror => (by cases herror), fun _ => rfl⟩, fun _ e h' hx hun => ?_⟩
        exact (hun.not_saved (List.append_assoc ..) (List.mem_append_right _ List.mem_cons_self)
          (prefix_executeDecisions hx)).elim

end Unsaved

section Stages
variable [DecidableEq V]

def armRecovered (env : NetworkEnvironment V) (now : Instant) :
    EStateM QuePaxaError (NetworkConsensusHandler V) Unit := do
  let h ← get
  let armed ← armGapNoop now
  onlyIf (armed = true) (orRollback h.state (persist env))

inductive Stage (V : Type) where
  | accept (decision : Decision V)
  | enqueue (valueIds : List V)
  | propose (valueIds : List V)
  | schedule (agreed : EpochSchedule)
  | arm

def Stage.locked (env : NetworkEnvironment V) (now : Instant) :
    Stage V → EStateM QuePaxaError (NetworkConsensusHandler V) Unit
  | .accept decision => acceptDecision env now decision
  | .enqueue valueIds => enqueueSubmission env valueIds
  | .propose valueIds => do let _ ← submissionTurn env valueIds
  | .schedule agreed => installEpochSchedule env agreed
  | .arm => armRecovered env now

/-- The stage fails before its save only with the state in memory that it has found. -/
def LeavesNoTrace (env : NetworkEnvironment V) (now : Instant) (h : NetworkConsensusHandler V)
    (stage : Stage V) : Prop :=
  ∀ e h', stage.locked env now h = .error e h' → h.Unsaved h' → h'.state = h.state

def ArmRoom (h : NetworkConsensusHandler V) : Prop :=
  ∀ noop, h.noopValue = some noop → h.gapOpen = true →
    h.state.replica.admitProposal h.state.replica.nextCommit [noop] = .ok ()

/-- The decision leaves a slot to stop at, and room for the no-op if it leaves the gap open. -/
structure AcceptRoom (h : NetworkConsensusHandler V) (d : Decision V) : Prop where
  frontier : h.state.replica.Takes d → h.state.replica.StopsShort d
  gap : ∀ ds replica, ReplicaCore.applyDecision d h.state.replica = .ok ds replica →
    (h.withState ((h.state.withReplica replica).retainDecision d)).ArmRoom

/-- The first execution does not fail behind a gap just armed, and its mark can be saved. -/
def MarksKept (env : NetworkEnvironment V) (now : Instant) (h : NetworkConsensusHandler V) : Prop :=
  match armGapNoop now h with
  | .error _ _ => True
  | .ok armed h₁ => ∀ first, h.outstanding.head? = some first →
    (∀ e, env.execute h.trace first = .error e → armed = false) ∧
    (env.execute h.trace first = .ok () → env.save (h₁.executes first).trace (h₁.executes first).snapshot = .ok ())

def Idle (h : NetworkConsensusHandler V) : Prop := h.ArmRoom → h.outstanding = []

/-- What each stage asks of the state, with a condition for decisions the node has already. -/
def Guarded (known : Prop) (h : NetworkConsensusHandler V) : Stage V → Prop
  | .accept d =>
    match h.state.decisions.get d.slot with
    | some existing => existing.valueIds = d.valueIds → known
    | none => h.AcceptRoom d
  | .propose valueIds =>
    h.state.decisionFor valueIds = none → (h.state.pending.entries.find? fun e => valueIds.all (· ∈ e.2)) = none →
      h.state.replica.ClaimRoom
  | _ => True

variable {env : NetworkEnvironment V} {h h' h₁ : NetworkConsensusHandler V} {now : Instant} {d : Decision V}

theorem armRoom_iff (hs : h.state.replica.Sound) (now : Instant) :
    h.ArmRoom ↔ ∃ armed h₁, armGapNoop now h = .ok armed h₁ := by
  have hpos : 0 < h.state.replica.nextCommit := Nat.zero_lt_of_lt hs.frontier
  have hnext : h.state.replica.committedThrough.checkedNext = some h.state.replica.nextCommit :=
    SlotIndex.checkedNext_eq_some.mpr ⟨(Nat.sub_lt hpos Nat.one_pos).trans_le hs.bound, (Nat.sub_add_cancel hpos).symm⟩
  simp only [ArmRoom, gapOpen, armGapNoop, bind_apply, get_apply, hnext, Option.any_some, Bool.and_eq_true,
    List.isEmpty_iff]
  cases h.noopValue with
  | none => exact ⟨fun _ => ⟨false, h, rfl⟩, fun _ _ hnone => by cases hnone⟩
  | some noop =>
    dsimp only
    by_cases hidle : h.state.pending.keys = []
    swap
    · rw [if_pos hidle]
      exact ⟨fun _ => ⟨false, h, rfl⟩, fun _ _ _ hopen => absurd hopen.1.2 hidle⟩
    rw [if_neg (not_not.mpr hidle)]
    by_cases hblock : h.state.gapIsBlocking h.state.replica.nextCommit = true
    swap
    · rw [if_neg hblock]
      exact ⟨fun _ => ⟨false, h, rfl⟩, fun _ _ _ hopen => absurd hopen.2 hblock⟩
    simp only [if_pos hblock, onReplica, zoom, onState, bind_apply, modify_apply, ReplicaCore.noteProposed_eq]
    cases hadm : h.state.replica.admitProposal h.state.replica.nextCommit [noop] with
    | ok u =>
      refine ⟨fun _ => ⟨true, _, rfl⟩, fun _ _ hnoop _ => ?_⟩
      obtain rfl := Option.some.inj hnoop
      exact hadm
    | error e =>
      constructor
      · intro hroom
        have hok := hroom noop rfl ⟨⟨rfl, hidle⟩, hblock⟩
        rw [hadm] at hok
        cases hok
      · rintro ⟨_, _, hok⟩
        cases hok

/-- Arming the gap changes the state just in case it says so, and nothing `execute_ready` reads. -/
theorem armGapNoop_ok {armed : Bool} (hx : armGapNoop now h = .ok armed h₁) :
    h₁.trace = h.trace ∧ h₁.ready = h.ready ∧ h₁.state.executed = h.state.executed ∧
      (h₁.state = h.state ↔ armed = false) := by
  rcases armGapNoop_cases h now with heq | ⟨slot, noop, s, heq, hclaims, hopen⟩ | ⟨e, heq⟩
  · rw [heq] at hx
    cases hx
    exact ⟨rfl, rfl, rfl, iff_of_true rfl rfl⟩
  · rw [heq] at hx
    cases hx
    have hready : (h.withState s).ready = h.ready := by
      simp only [ready, withState, hclaims.decisions, hclaims.executed, hclaims.replica]
      rfl
    refine ⟨rfl, hready, hclaims.executed, iff_of_false (fun hsame => ?_) Bool.noConfusion⟩
    -- nothing was pending before
    simp only [gapOpen, Bool.and_eq_true, List.isEmpty_iff] at hopen
    have hpending : h.state.pending = h.state.pending.insert slot [noop] :=
      (congrArg ConsensusState.pending (show s = h.state from hsame)).symm.trans hclaims.pending
    have hget : h.state.pending.get slot = some [noop] := by rw [hpending, OrderedMap.get_insert, if_pos rfl]
    have hmem := OrderedMap.mem_keys_of_get hget
    rw [hopen.1.2] at hmem
    cases hmem
  · rw [heq] at hx
    cases hx

theorem armGapNoop_error (hx : armGapNoop now h = .error e h₁) : h₁ = h := by
  rcases armGapNoop_cases h now with heq | ⟨_, _, _, heq, _, _⟩ | ⟨_, heq⟩
  all_goals
    rw [heq] at hx
    cases hx
  rfl

private theorem acceptNew_restores_iff (hs : h.state.replica.Sound) (hnew : h.state.decisions.get d.slot = none) :
    (∀ e h', acceptNew env now d h = .error e h' → h.Unsaved h' → h'.state = h.state) ↔ h.AcceptRoom d := by
  constructor
  · intro hall
    refine ⟨(ReplicaCore.refused_without_trace_iff hs).mp fun e r' happly => ?_, fun ds replica happly => ?_⟩
    · have hstate := hall e _ (acceptNew_refused env h now happly) (.refl _)
      exact congrArg ConsensusState.replica hstate
    · have hsound := (ReplicaCore.keeps_applyDecision (fun _ _ => ReplicaCore.sound_change) d).ok hs happly
      rw [armRoom_iff hsound now]
      cases harm : armGapNoop now (h.withState ((h.state.withReplica replica).retainDecision d)) with
      | ok armed h₁ => exact ⟨armed, h₁, rfl⟩
      | error e h₁ =>
        have hx := acceptNew_applied env h now happly
        rw [bind_apply, harm] at hx
        obtain rfl := armGapNoop_error harm
        have hget := congrArg (fun s : ConsensusState V => s.decisions.get d.slot) (hall e _ hx (.refl _))
        simp only [withState, retainDecision, OrderedMap.get_insert, if_pos, hnew] at hget
        cases hget
  · intro hroom e h' hx hun
    rcases acceptNew_cases env h now d with ⟨ds, s, _, heq⟩ | ⟨e', h₁, heq, hu⟩ | ⟨e', replica, happly, heq⟩ |
      ⟨e', ds, replica, happly, harm, heq⟩
    · rw [heq] at hx
      exact (hun.not_saved rfl List.mem_cons_self (prefix_executeDecisions hx)).elim
    · rw [heq] at hx
      cases hx
      exact hu.state
    · rw [heq] at hx
      cases hx
      have hsame := (ReplicaCore.refused_without_trace_iff hs).mpr hroom.frontier e replica happly
      rw [hsame]
      rfl
    · have hsound := (ReplicaCore.keeps_applyDecision (fun _ _ => ReplicaCore.sound_change) d).ok hs happly
      obtain ⟨armed, h₁, hok⟩ := (armRoom_iff hsound now).mp (hroom.gap ds replica happly)
      rw [harm] at hok
      cases hok

private theorem acceptKnown_restores_iff {existing : Decision V} (hget : h.state.decisions.get d.slot = some existing) :
    h.LeavesNoTrace env now (.accept d) ↔ (existing.valueIds = d.valueIds → h.MarksKept env now) := by
  simp only [LeavesNoTrace, Stage.locked, acceptDecision, bind_apply (x := get), get_apply, hget,
    bind_apply (x := check _),
    require, MarksKept]
  by_cases hsame : existing.valueIds = d.valueIds
  swap
  · simp only [hsame, if_false, check_error, false_implies, iff_true]
    intro e h' hx _
    cases hx
    rfl
  simp only [hsame, if_true, check_ok, bind_apply (x := armGapNoop now), true_implies]
  cases harm : armGapNoop now h with
  | error e h₁ =>
    obtain rfl := armGapNoop_error harm
    refine iff_of_true (fun e' h' hx _ => ?_) trivial
    cases hx
    rfl
  | ok armed h₁ =>
    obtain ⟨htrace, hready, hexecuted, hstate⟩ := armGapNoop_ok harm
    have hunsaved : ∀ h', h.Unsaved h' ↔ h₁.Unsaved h' := fun h' => by rw [Unsaved, Unsaved, htrace]
    have hexecute : executeReady env h₁ = executeDecisions env h.ready h₁ := by rw [← hready]; rfl
    have hmarks : ∀ d : Decision V, d.slot ∉ h₁.state.executed → (h₁.executes d).state ≠ h.state := by
      intro d hnew hsame
      have hmem : d.slot ∈ h.state.executed := by
        rw [← hsame]
        exact Finset.mem_insert_self ..
      exact hnew (hexecuted ▸ hmem)
    have hiff := executeDecisions_restores_iff env h.ready hmarks
    simp only [hexecute, hunsaved, hiff, hexecuted, hstate, htrace, outstanding]

private theorem claimNext_restores_iff (hs : h.state.replica.Sound) :
    (∀ e h', claimNext env h = .error e h' → h.Unsaved h' → h'.state = h.state) ↔ h.state.replica.ClaimRoom := by
  rw [ReplicaCore.claimRoom_iff hs]
  constructor
  · intro hall n e hrefused
    have hx : claimNext env h = .error e
        (h.withState (h.state.withReplica { h.state.replica with pending := h.state.replica.pending.drop n })) := by
      simp only [claimNext, bind_apply (x := get), get_apply, onReplica, bind_apply (x := zoom _ _ _), zoom,
        ReplicaCore.nextProposal_refused hrefused]
      rfl
    exact hrefused.drains (congrArg ConsensusState.replica (hall e _ hx (.refl _)))
  · intro hnever e h' hx _
    rcases claimNext_cases env h with ⟨_, _, _, _, hclaim, _⟩ | hwait | ⟨_, _, herr, hu⟩ | ⟨e', n, hrefused, _⟩
    · rw [hclaim] at hx
      cases hx
    · rw [hwait] at hx
      cases hx
    · rw [herr] at hx
      cases hx
      exact hu.state
    · exact absurd hrefused (hnever n e')

private theorem submissionTurn_restores_iff (hs : h.state.replica.Sound) (valueIds : List V) :
    h.LeavesNoTrace env now (.propose valueIds) ↔ h.Guarded True (.propose valueIds) := by
  have hturn : h.LeavesNoTrace env now (.propose valueIds) ↔
      ∀ e h', submissionTurn env valueIds h = .error e h' → h.Unsaved h' → h'.state = h.state := by
    simp only [LeavesNoTrace, Stage.locked, bind_apply]
    cases submissionTurn env valueIds h with
    | ok turn h₁ => exact iff_of_true (fun _ _ hx => by cases hx) fun _ _ hx => by cases hx
    | error e h₁ =>
      refine forall₂_congr fun e' h' => ?_
      simp only [EStateM.Result.error.injEq]
  simp only [hturn, Guarded, submissionTurn, bind_apply (x := get), get_apply]
  cases h.state.decisionFor valueIds with
  | some decision => exact iff_of_true (fun _ _ hx => by cases hx) fun hnone => by cases hnone
  | none =>
    cases h.state.pending.entries.find? fun e => valueIds.all (· ∈ e.2) with
    | some e => exact iff_of_true (fun _ _ hx => by cases hx) fun _ hnone => by cases hnone
    | none => simpa using claimNext_restores_iff hs

/-- The other stages copy the state before they change it, and put it back. -/
theorem enqueueSubmission_restores (valueIds : List V) : h.LeavesNoTrace env now (.enqueue valueIds) := by
  intro e h' hx _
  rcases enqueueSubmission_cases env h valueIds with ⟨_, _, _, heq⟩ | ⟨_, _, heq, hu⟩
  all_goals
    rw [Stage.locked, heq] at hx
    cases hx
  exact hu.state

private theorem installEpochSchedule_restores (agreed : EpochSchedule) :
    h.LeavesNoTrace env now (.schedule agreed) := by
  intro e h' hx _
  rcases installEpochSchedule_cases env h agreed with ⟨_, _, heq, hu⟩ | heq | ⟨_, heq⟩
  all_goals
    rw [Stage.locked, heq] at hx
    cases hx
  exact hu.state

private theorem armRecovered_restores : h.LeavesNoTrace env now .arm := by
  intro e h' hx _
  simp only [Stage.locked, armRecovered, bind_apply, get_apply] at hx
  rcases armGapNoop_cases h now with heq | ⟨slot, noop, s, heq, _, _⟩ | ⟨e', heq⟩
  · rw [heq] at hx
    cases hx
  · simp only [heq, onlyIf, if_true] at hx
    rcases orRollback_persist env h s with hsave | ⟨e', hsave⟩
    all_goals
      rw [hsave] at hx
      cases hx
    rfl
  · rw [heq] at hx
    cases hx
    rfl

/-- A stage can be relied on just when it is guarded. -/
theorem leavesNoTrace_iff (hs : h.state.replica.Sound) (env : NetworkEnvironment V) (now : Instant) (stage : Stage V) :
    h.LeavesNoTrace env now stage ↔ h.Guarded (h.MarksKept env now) stage := by
  cases stage with
  | accept d =>
    cases hget : h.state.decisions.get d.slot with
    | none =>
      simp only [Guarded, hget, LeavesNoTrace, Stage.locked, acceptDecision_new env h hget]
      exact acceptNew_restores_iff hs hget
    | some existing =>
      simp only [Guarded, hget]
      exact acceptKnown_restores_iff hget
  | propose valueIds => exact submissionTurn_restores_iff hs valueIds
  | enqueue valueIds => exact iff_of_true (enqueueSubmission_restores valueIds) trivial
  | schedule agreed => exact iff_of_true (installEpochSchedule_restores agreed) trivial
  | arm => exact iff_of_true armRecovered_restores trivial

/-- Whatever the store and the state machine do, the marks are kept just when none is made. -/
theorem marksKept_always_iff (hs : h.state.replica.Sound) (env : NetworkEnvironment V) :
    (∀ env' now, h.MarksKept env' now) ↔ h.Idle := by
  constructor
  · intro hall hroom
    obtain ⟨armed, h₁, harm⟩ := (armRoom_iff hs 0).mp hroom
    -- an execution whose mark the store refuses
    have hkept := hall { env with execute := fun _ _ => .ok (), save := fun _ _ => .error .slotOverflow } 0
    rw [MarksKept, harm] at hkept
    cases hout : h.outstanding with
    | nil => rfl
    | cons first rest =>
      rw [hout] at hkept
      cases (hkept first rfl).2 rfl
  · intro hidle env' now
    unfold MarksKept
    cases harm : armGapNoop now h with
    | error e h₁ => trivial
    | ok armed h₁ =>
      have hnone := hidle ((armRoom_iff hs now).mpr ⟨armed, h₁, harm⟩)
      intro first hfirst
      rw [hnone] at hfirst
      cases hfirst

private theorem guarded_always_iff (hs : h.state.replica.Sound) (env : NetworkEnvironment V) (stage : Stage V) :
    (∀ env' now, h.Guarded (h.MarksKept env' now) stage) ↔ h.Guarded h.Idle stage := by
  cases stage with
  | accept d =>
    simp only [Guarded]
    cases h.state.decisions.get d.slot with
    | none => exact ⟨fun hall => hall env 0, fun hroom _ _ => hroom⟩
    | some existing =>
      rw [← marksKept_always_iff hs env]
      exact ⟨fun hall hsame env' now => hall env' now hsame, fun hall env' now hsame => hall hsame env' now⟩
  | propose | enqueue | schedule | arm => exact ⟨fun hall => hall env 0, fun hguarded _ _ => hguarded⟩

end Stages
end NetworkConsensusHandler

open NetworkConsensusHandler

/-- In every state a node can reach, whatever was dropped before, a stage fails without a trace
just when it is guarded. Where the store and the state machine are not to be relied on, a known
decision has to find nothing to execute. -/
theorem NodeProcess.failed_stage_changes_nothing [DecidableEq V] (env : NetworkEnvironment V)
    (actions : List (NodeProcessAction V)) (h : NetworkConsensusHandler V) (tasks : List (Task V))
    (detached : List (BlockingRequest V)) (reached : run (step env) fresh actions = ⟨.up h tasks, detached⟩)
    (stage : Stage V) :
    (∀ env' now, h.LeavesNoTrace env' now stage ↔ h.Guarded (h.MarksKept env' now) stage) ∧
    ((∀ env' now, h.LeavesNoTrace env' now stage) ↔ h.Guarded h.Idle stage) := by
  have hrun := sound_run (fun _ _ _ => trivial) env (.of_forall (fun _ a => a.startsIn_any) fresh actions)
  rw [reached] at hrun
  have hsound : h.state.replica.Sound := hrun.1
  refine ⟨fun env' now => leavesNoTrace_iff hsound env' now stage, ?_⟩
  simp only [leavesNoTrace_iff hsound]
  exact guarded_always_iff hsound env stage

namespace Node
variable [DecidableEq V] {env : NetworkEnvironment V}

def LeavesChanges (env : NetworkEnvironment V) (actions : List (NodeAction V)) (stage : Stage V) : Prop :=
  ∃ h tasks e h', run (step env) fresh actions = .up h tasks ∧ stage.locked env 0 h = .error e h' ∧ h.Unsaved h' ∧
    ¬h.state.SamePipeline h'.state

def leavesChanges (env : NetworkEnvironment V) (actions : List (NodeAction V)) (stage : Stage V) : Bool :=
  match run (step env) fresh actions with
  | .up h _ =>
    match stage.locked env 0 h with
    | .error _ h' =>
      h'.trace.take h.trace.length = h.trace && (h'.trace.drop h.trace.length).all (·.stored.isNone) &&
        (h'.state.replica ≠ h.state.replica || h'.state.decisions ≠ h.state.decisions ||
          h'.state.pending ≠ h.state.pending)
    | .ok _ _ => false
  | .down _ => false

private theorem leavesChanges_of_eq {actions : List (NodeAction V)} {stage : Stage V}
    (hx : leavesChanges env actions stage = true) :
    LeavesChanges env actions stage := by
  simp only [leavesChanges] at hx
  split at hx
  · rename_i h tasks hreached
    split at hx
    · rename_i e h' hfailure
      simp only [Bool.and_eq_true, Bool.or_eq_true, decide_eq_true_eq, List.all_eq_true, Option.isNone_iff_eq_none]
        at hx
      obtain ⟨⟨hbefore, hnew⟩, hchanged⟩ := hx
      refine ⟨h, tasks, e, h', hreached, hfailure, ⟨h'.trace.drop h.trace.length, ?_, hnew⟩, fun hsame => ?_⟩
      · conv_lhs => rw [← List.take_append_drop h.trace.length h'.trace, hbefore]
      · rcases hchanged with (hreplica | hdecisions) | hpending
        · exact hreplica hsame.replica
        · exact hdecisions hsame.decisions
        · exact hpending hsame.pending
    · cases hx
  · cases hx

def stalled : NetworkEnvironment Nat :=
  { NetworkEnvironment.obliging with execute := fun _ _ => .error (.storageError "io error") }

def fullStore : NetworkEnvironment Nat :=
  { NetworkEnvironment.obliging with save := fun _ _ => .error (.storageError "io error") }

def crampedNode : ReplicaRuntimeConfig := { nodeOne with replica := ⟨1, 2, 10, 1, 10⟩ }

def queueBehind : List (NodeAction Nat) :=
  [.restart crampedNode [1, 2, 3] none, .call (.submit [5]), .run 0 0, .run 0 0, .call (.submit [6]), .run 2 0]

def lateNoop : List (NodeAction Nat) :=
  [.restart nodeOne [1, 2, 3] none, .call (.receiving [⟨1, [5], 2, 4⟩]), .call (.receiving [⟨3, [7], 2, 4⟩]), .run 0 0,
    .run 0 0,
    .crash 0 0 0, .restart nodeOne [1, 2, 3] (some 0)]

/-- A full log drops what the queue has given up, and keeps the no-op out after the decision it
is for is in; a known decision arms the gap before an execution fails. -/
theorem failed_stages_leave_changes :
    LeavesChanges .obliging queueBehind (.propose [6]) ∧
    LeavesChanges .obliging [.restart crampedNode [1, 2, 3] (some 0)] (.accept ⟨2, [7], 2, 4⟩) ∧
    LeavesChanges stalled lateNoop (.accept ⟨3, [7], 2, 4⟩) :=
  ⟨leavesChanges_of_eq (by decide +kernel), leavesChanges_of_eq (by decide +kernel),
    leavesChanges_of_eq (by decide +kernel)⟩

end Node

/-- A log of one slot is enough for the first decision, which leaves no gap open. -/
theorem NodeProcess.failed_stage_changes_nothing_full_log : ∃ h tasks detached e h',
    run (step Node.fullStore) fresh [.act (.restart Node.crampedNode [1, 2, 3] (some 0))] = ⟨.up h tasks, detached⟩ ∧
    (Stage.accept (slotDecision 1)).locked Node.fullStore 0 h = .error e h' ∧ h'.trace ≠ h.trace ∧
      h'.state = h.state := by
  have hfails : (run (step Node.fullStore) fresh [.act (.restart Node.crampedNode [1, 2, 3] (some 0))]).upWith
    (fun h _ _ =>
      match (Stage.accept (slotDecision 1)).locked Node.fullStore 0 h with
      | .error e h' => decide (h.state.decisions.get 1 = none ∧ h.state.replica.nextCommit ≤ 2 ∧
          h.state.replica.isClosed 2 = false ∧
          (h.withState ((h.state.withReplica
            (after (ReplicaCore.applyDecision (slotDecision 1)) h.state.replica)).retainDecision
              (slotDecision 1))).gapOpen = false ∧
          h'.trace = h.trace ++ h'.trace.drop h.trace.length ∧ (h'.trace.drop h.trace.length).length = 1 ∧
          ∀ event ∈ h'.trace.drop h.trace.length, event.stored = none)
      | .ok _ _ => false) = true := by decide +kernel
  obtain ⟨h, tasks, detached, hreached, hresult⟩ := exists_up hfails
  cases hfailure : (Stage.accept (slotDecision 1)).locked Node.fullStore 0 h with
  | ok u h' =>
    simp only [hfailure] at hresult
    cases hresult
  | error e h' =>
    simp only [hfailure, decide_eq_true_eq] at hresult
    obtain ⟨hnew, hfrontier, hopen, hclosed, htrace, hone, hnone⟩ := hresult
    have hroom : h.AcceptRoom (slotDecision 1) := by
      refine ⟨fun _ => ⟨2, hfrontier, by decide, by decide, hopen⟩, fun ds replica happly noop _ hgap => ?_⟩
      rw [after_ok happly, hgap] at hclosed
      cases hclosed
    have hguarded : h.Guarded (h.MarksKept Node.fullStore 0) (.accept (slotDecision 1)) := by
      simp only [Guarded, slotDecision, hnew]
      exact hroom
    have hiff := (failed_stage_changes_nothing Node.fullStore _ h tasks detached hreached (.accept (slotDecision 1))).1
    refine ⟨h, tasks, detached, e, h', hreached, hfailure, fun heq => ?_, ?_⟩
    · rw [heq, List.drop_length] at hone
      cases hone
    · exact (hiff Node.fullStore 0).mpr hguarded e h' hfailure ⟨_, htrace, hnone⟩

end QuePaxa
