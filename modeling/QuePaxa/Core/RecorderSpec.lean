import Mathlib.Data.List.ReduceOption
import QuePaxa.Core.Recorder
import QuePaxa.Library.Runs

/-! What each recorder call can do, and the well-formedness every call preserves. -/
namespace QuePaxa
open Library
variable {V : Type}
variable {request : RecordRequest V} {I : RecorderCore V → Prop} {available : Availability V}
  {r : IntervalSummaryRegister V}

/-- The size and shape limits on a proposal; its proposer is not among them. -/
structure Proposal.Fits (limits : RecorderLimits) (p : Proposal V) : Prop where
  nonempty : p.valueIds ≠ []
  length : p.valueIds.length ≤ limits.maxValuesPerProposal
  nodup : p.valueIds.Nodup

structure Decision.Fits (limits : RecorderLimits) (d : Decision V) : Prop where
  nonempty : d.valueIds ≠ []
  step : d.decidedStep ≤ limits.maxStep
  length : d.valueIds.length ≤ limits.maxValuesPerProposal
  nodup : d.valueIds.Nodup

namespace IntervalSummaryRegister

def proposals (r : IntervalSummaryRegister V) : List (Proposal V) :=
  [r.first, r.currentAggregate, r.priorAggregate].reduceOption

structure Fits (limits : RecorderLimits) (r : IntervalSummaryRegister V) : Prop where
  low : Step.roundOnePhaseZero ≤ r.step
  high : r.step ≤ limits.maxStep
  first : r.first.isSome
  current : r.currentAggregate.isSome
  proposals : ∀ p ∈ r.proposals, p.Fits limits

theorem mem_proposals {p : Proposal V} :
    p ∈ r.proposals ↔ r.first = some p ∨ r.currentAggregate = some p ∨ r.priorAggregate = some p := by
  simp [proposals, List.reduceOption_mem_iff, eq_comm (a := some p)]

theorem mem_proposals_advance {step : Step} {q p : Proposal V}
    (h : p ∈ (r.advance step q).proposals) : p = q ∨ p ∈ r.proposals := by
  rw [mem_proposals] at h ⊢
  unfold advance at h
  split_ifs at h with heq hlt hnext
  · rcases h with h | h | h
    · cases hf : r.first <;> simp_all
    · cases hc : r.currentAggregate <;> simp_all [bestProposal]
      grind
    · exact .inr (.inr (.inr h))
  all_goals simp_all
  all_goals grind

theorem advance_fits {limits : RecorderLimits} {step : Step}
    {q : Proposal V} (hr : r = default ∨ r.Fits limits) (hlow : Step.roundOnePhaseZero ≤ step)
    (hhigh : step ≤ limits.maxStep) (hq : q.Fits limits) : (r.advance step q).Fits limits := by
  have hprops : ∀ p ∈ r.proposals, p.Fits limits := by
    rcases hr with rfl | hr
    · intro p hp
      simp [mem_proposals, default] at hp
    · exact hr.proposals
  have hstep : r.step ≤ limits.maxStep := by
    rcases hr with rfl | hr
    · exact Nat.zero_le _
    · exact hr.high
  refine ⟨?_, ?_, ?_, ?_, fun p hp => ?_⟩
  · rw [advance_step]; exact le_max_of_le_right hlow
  · rw [advance_step]; exact max_le hstep hhigh
  · unfold advance; split_ifs with h1 h2 <;> try rfl
    rcases hr with rfl | hr
    · exact absurd (lt_of_lt_of_le (show 0 < 4 by decide) hlow) h2
    · exact hr.first
  · unfold advance; split_ifs with h1 h2 <;> try rfl
    rcases hr with rfl | hr
    · exact absurd (lt_of_lt_of_le (show 0 < 4 by decide) hlow) h2
    · exact hr.current
  · rcases mem_proposals_advance hp with rfl | hp
    · exact hq
    · exact hprops p hp

end IntervalSummaryRegister

namespace RecorderCore

private theorem validateLeader_eq_ok {r : RecorderCore V} {leader : Option ReplicaId} {u : Unit} :
    r.validateLeader leader = .ok u ↔ ∀ l ∈ leader, r.config.contains l := by
  cases leader <;> simp [validateLeader]

def register (r : RecorderCore V) (slot : SlotIndex) : IntervalSummaryRegister V :=
  (r.slots.get slot).getD .default

def HasRoom (r : RecorderCore V) (slot : SlotIndex) : Prop :=
  r.slots.contains slot = true ∨ r.slots.size ≠ r.config.limits.maxActiveSlots

def recorded (m : RecorderCore V) (request : RecordRequest V) : RecorderCore V :=
  { m with
    roundOneLeaders := m.roundOneLeaders.orInsert request.slot request.roundOneLeader
    slots := m.slots.insert request.slot
      ((m.register request.slot).advance request.step request.proposal) }

def reply (m : RecorderCore V) (request : RecordRequest V) : RecordReply V :=
  { recorder := m.config.id
    cluster := m.config.cluster
    summary := ((m.register request.slot).advance request.step request.proposal).summary
    decision := m.decisions.get request.slot }

theorem storeRecord_eq (request : RecordRequest V) (m : RecorderCore V) :
    storeRecord request m =
      if m.slots.contains request.slot = true ∨ m.slots.size ≠ m.config.limits.maxActiveSlots then
        .ok (m.reply request) (m.recorded request)
      else .error (.resourceLimit "active recorder slots" m.config.limits.maxActiveSlots) m := by
  unfold storeRecord
  by_cases hroom : m.slots.contains request.slot = true ∨ m.slots.size ≠ m.config.limits.maxActiveSlots
  · rw [if_pos hroom, if_neg (by simpa [imp_iff_not_or] using hroom)]
    rfl
  · rw [if_neg hroom, if_pos (by simpa [not_or] using hroom)]

structure Admitted (r : RecorderCore V) (request : RecordRequest V) : Prop where
  sender : r.config.contains request.sender
  leader : ∀ l ∈ request.roundOneLeader, r.config.contains l
  proposer : r.config.contains request.proposal.key.proposerId
  proposal : request.proposal.Fits r.config.limits
  low : Step.roundOnePhaseZero ≤ request.step
  high : request.step ≤ r.config.limits.maxStep
  known : request.knownDecisions.length ≤ r.config.limits.maxKnownDecisions
  live : r.prunedThrough < request.slot
  bound : ∀ l, r.roundOneLeaders.get request.slot = some l → l = request.roundOneLeader

structure SameRegisters (r m : RecorderCore V) : Prop where
  config : m.config = r.config
  slots : m.slots = r.slots
  leaders : m.roundOneLeaders = r.roundOneLeaders
  floor : m.prunedThrough = r.prunedThrough

theorem Admitted.of_sameRegisters {r m : RecorderCore V} (h : r.Admitted request)
    (hm : r.SameRegisters m) : m.Admitted request := by
  obtain ⟨hc, _, hl, hf⟩ := hm
  obtain ⟨h1, h2, h3, h4, h5, h6, h7, h8, h9⟩ := h
  constructor <;> first | assumption | (simp only [hc, hl, hf]; assumption)

section
variable [DecidableEq V] {r r' m : RecorderCore V}

theorem validateDecision_eq_ok {d : Decision V} {u : Unit} :
    r.validateDecision d = .ok u ↔ d.Fits r.config.limits ∧ r.config.contains d.proposer := by
  simp only [validateDecision, unit_bind_eq_ok, require_eq_ok]
  constructor
  · rintro ⟨h1, h2, h3, h4, h5⟩
    exact ⟨⟨h1, h3, h4, h5⟩, h2⟩
  · rintro ⟨⟨h1, h3, h4, h5⟩, h2⟩
    exact ⟨h1, h2, h3, h4, h5⟩

theorem validateProposal_eq_ok {p : Proposal V} {u : Unit} :
    r.validateProposal p = .ok u ↔ p.Fits r.config.limits ∧ r.config.contains p.key.proposerId := by
  simp only [validateProposal, unit_bind_eq_ok, require_eq_ok]
  constructor
  · rintro ⟨h1, h2, h3, h4⟩
    exact ⟨⟨h2, h3, h4⟩, h1⟩
  · rintro ⟨⟨h2, h3, h4⟩, h1⟩
    exact ⟨h1, h2, h3, h4⟩

theorem validateIsrSnapshot_eq_ok {g : IntervalSummaryRegister V} {u : Unit} :
    r.validateIsrSnapshot g.snapshot = .ok u ↔
      g.Fits r.config.limits ∧ ∀ p ∈ g.proposals, r.config.contains p.key.proposerId := by
  simp only [validateIsrSnapshot, validateStep, unit_bind_eq_ok, require_eq_ok, forM_eq_ok,
    validateProposal_eq_ok]
  unfold IntervalSummaryRegister.snapshot
  constructor
  · rintro ⟨⟨h1, h2⟩, ⟨h3, h4⟩, h5⟩
    exact ⟨⟨h1, h2, h3, h4, fun p hp => (h5 p hp).1⟩, fun p hp => (h5 p hp).2⟩
  · rintro ⟨⟨h1, h2, h3, h4, h5⟩, h6⟩
    exact ⟨⟨h1, h2⟩, ⟨h3, h4⟩, fun p hp => ⟨h5 p hp, h6 p hp⟩⟩

private theorem admitRecord_eq_ok {u : Unit} :
    r.admitRecord available request = .ok u ↔
      r.Admitted request ∧ available request.proposal.valueIds = .ok () := by
  simp only [admitRecord, validateRequest, validateStep, unit_bind_eq_ok, require_eq_ok,
    validateLeader_eq_ok, validateProposal_eq_ok, Option.all_eq_true, decide_eq_true_eq]
  constructor
  · rintro ⟨⟨h1, h2, ⟨h3, h4⟩, ⟨h5, h6⟩, h7⟩, h8, h9, h10⟩
    exact ⟨⟨h1, h2, h4, h3, h5, h6, h7, h8, fun l hl => h9 l hl⟩, h10⟩
  · rintro ⟨⟨h1, h2, h4, h3, h5, h6, h7, h8, h9⟩, h10⟩
    exact ⟨⟨h1, h2, ⟨h3, h4⟩, ⟨h5, h6⟩, h7⟩, h8, fun l hl => h9 l hl, h10⟩

structure Learns (r : RecorderCore V) (d : Decision V) : Prop where
  valid : d.Fits r.config.limits
  proposer : r.config.contains d.proposer
  live : r.prunedThrough < d.slot
  fresh : r.decisions.get d.slot = none
  room : r.decisions.size ≠ r.config.limits.maxDecisions

theorem informDecision_after (d : Decision V) (r : RecorderCore V) :
    after (informDecision d) r = r ∨
      r.Learns d ∧ after (informDecision d) r = { r with decisions := r.decisions.insert d.slot d } := by
  unfold after informDecision
  cases hv : r.validateDecision d with
  | error e => exact .inl rfl
  | ok u =>
    obtain ⟨hfit, hmem⟩ := validateDecision_eq_ok.mp hv
    by_cases hlive : d.slot ≤ r.prunedThrough
    · simp [hlive]
    cases hget : r.decisions.get d.slot with
    | some existing =>
      left
      simp only [hlive, if_false]
      split_ifs <;> rfl
    | none =>
      by_cases hroom : r.decisions.size = r.config.limits.maxDecisions
      · simp [hlive, hroom]
      · exact .inr ⟨⟨hfit, hmem, not_le.mp hlive, hget, hroom⟩, by simp [hlive, hroom]⟩

theorem keeps_informDecision {d : Decision V}
    (h : ∀ r, I r → r.Learns d → I { r with decisions := r.decisions.insert d.slot d }) :
    Keeps I (informDecision d) := by
  refine Keeps.of_after (fun s hs => ?_)
  rcases informDecision_after d s with hsame | ⟨hl, hnew⟩
  · rwa [hsame]
  · rw [hnew]; exact h s hs hl

theorem informDecisions_sameRegisters (r : RecorderCore V) (ds : List (Decision V)) :
    Keeps (SameRegisters r) (informDecisions ds) :=
  Keeps.forM ds fun _ _ => keeps_informDecision fun _ hs _ => ⟨hs.1, hs.2, hs.3, hs.4⟩

theorem record_ok {rep : RecordReply V} (h : record available request r = .ok rep r') :
    r.Admitted request ∧ ∃ m, informDecisions request.knownDecisions r = .ok () m ∧
      r.SameRegisters m ∧ m.HasRoom request.slot ∧ rep = m.reply request ∧ r' = m.recorded request := by
  unfold record at h
  simp only [bind_eq_ok, get_apply] at h
  obtain ⟨_, _, hg, _, s, hcheck, ⟨⟩, m, hinf, hstore⟩ := h
  cases hg
  cases hadm : r.admitRecord available request with
  | error e => simp [hadm] at hcheck
  | ok u =>
    simp only [hadm, check_ok, EStateM.Result.ok.injEq, true_and] at hcheck
    subst hcheck
    rw [storeRecord_eq] at hstore
    split at hstore
    · next hroom =>
      cases hstore
      exact ⟨(admitRecord_eq_ok.mp hadm).1, m, hinf,
        (informDecisions_sameRegisters r request.knownDecisions).ok ⟨rfl, rfl, rfl, rfl⟩ hinf, hroom, rfl, rfl⟩
    · cases hstore

/-- A record call that replies has passed all checks, the availability guard last. -/
theorem record_admitted {rep : RecordReply V}
    (h : record available request r = .ok rep r') : r.admitRecord available request = .ok () := by
  unfold record at h
  simp only [bind_eq_ok, get_apply] at h
  obtain ⟨_, _, hg, _, s, hcheck, _⟩ := h
  cases hg
  cases hadm : r.admitRecord available request with
  | error e => simp [hadm] at hcheck
  | ok u => rfl

/-- A refused record call has at most taken in some of its known decisions. -/
theorem record_error {e : QuePaxaError} (h : record available request r = .error e r') :
    r' = r ∨ r' = after (informDecisions request.knownDecisions) r := by
  unfold record at h
  simp only [bind_eq_error, get_apply, reduceCtorEq, false_or] at h
  obtain ⟨_, _, hg, h⟩ := h
  cases hg
  cases hadm : r.admitRecord available request with
  | error e => simp [hadm] at h; exact .inl h.2.symm
  | ok u =>
    simp only [hadm, check_ok, reduceCtorEq, false_or, EStateM.Result.ok.injEq] at h
    obtain ⟨_, _, ⟨_, rfl⟩, h⟩ := h
    rcases h with h | ⟨_, m, hm, hstore⟩
    · exact .inr (after_error h).symm
    · rw [storeRecord_eq] at hstore
      split at hstore
      · cases hstore
      · cases hstore; exact .inr (after_ok hm).symm

structure Installs (r : RecorderCore V) (change : MembershipChange V) : Prop where
  binding : change.commandId ∈ change.anchor.valueIds
  differs : r.config.cluster ≠ change.next
  successor : change.next.isSuccessorOf r.config.cluster = true
  anchored : r.decisions.get change.anchor.slot = some change.anchor
  drainedSlots : ∀ slot ∈ r.slots.keys, slot ≤ change.anchor.slot
  drainedDecisions : ∀ slot ∈ r.decisions.keys, slot ≤ change.anchor.slot

instance (r : RecorderCore V) (change : MembershipChange V) : Decidable (r.Installs change) :=
  decidable_of_iff
    (change.commandId ∈ change.anchor.valueIds ∧ r.config.cluster ≠ change.next ∧
      change.next.isSuccessorOf r.config.cluster = true ∧
      r.decisions.get change.anchor.slot = some change.anchor ∧
      (∀ slot ∈ r.slots.keys, slot ≤ change.anchor.slot) ∧
      ∀ slot ∈ r.decisions.keys, slot ≤ change.anchor.slot)
    ⟨fun ⟨a, b, c, d, e, f⟩ => ⟨a, b, c, d, e, f⟩, fun ⟨a, b, c, d, e, f⟩ => ⟨a, b, c, d, e, f⟩⟩

def withCluster (r : RecorderCore V) (cluster : ClusterIdentity) : RecorderCore V :=
  { r with config := { r.config with cluster } }

theorem installMembership_of_installs {change : MembershipChange V} (h : r.Installs change) :
    installMembership change r = .ok () (r.withCluster change.next) := by
  have hs : r.slots.keys.any (fun slot => change.anchor.slot < slot) = false := by
    simpa using h.drainedSlots
  have hd : r.decisions.keys.any (fun slot => change.anchor.slot < slot) = false := by
    simpa using h.drainedDecisions
  simp [installMembership, MembershipChange.validateBinding, h.binding, h.differs, h.successor, h.anchored,
    hs, hd, withCluster]

theorem installMembership_of_not_installs {change : MembershipChange V} (h : ¬r.Installs change) :
    after (installMembership change) r = r := by
  unfold after installMembership MembershipChange.validateBinding
  by_cases hb : change.commandId ∈ change.anchor.valueIds
  swap
  · simp [hb]
  by_cases hc : r.config.cluster = change.next
  · simp [hb, hc]
  by_cases hsucc : change.next.isSuccessorOf r.config.cluster = true
  swap
  · simp [hb, hc, hsucc]
  cases hget : r.decisions.get change.anchor.slot with
  | none => simp [hb, hc, hsucc]
  | some anchor =>
    by_cases ha : anchor = change.anchor
    swap
    · simp [hb, hc, hsucc, ha]
    subst ha
    have hlate : (r.slots.keys.any (fun slot => change.anchor.slot < slot) ||
        r.decisions.keys.any (fun slot => change.anchor.slot < slot)) = true := by
      by_contra hno
      simp only [Bool.not_eq_true, Bool.or_eq_false_iff, List.any_eq_false, decide_eq_true_eq,
        not_lt] at hno
      exact h ⟨hb, hc, hsucc, hget, hno.1, hno.2⟩
    simp only [hb, hc, hsucc, hlate, if_true, if_false, ne_eq, not_true, Bool.not_true, Bool.false_eq_true]

theorem keeps_informDecisions {ds : List (Decision V)}
    (h : ∀ d ∈ ds, ∀ r, I r → r.Learns d → I { r with decisions := r.decisions.insert d.slot d }) :
    Keeps I (informDecisions ds) :=
  Keeps.forM ds fun d hd => keeps_informDecision (h d hd)

private theorem keeps_record (learn : ∀ r d, I r → r.Learns d → I { r with decisions := r.decisions.insert d.slot d })
    (store : ∀ r request, I r → r.Admitted request → r.HasRoom request.slot → I (r.recorded request))
    (available : Availability V) (request : RecordRequest V) : Keeps I (record available request) := by
  have hinform : Keeps I (informDecisions request.knownDecisions) :=
    keeps_informDecisions fun d _ r => learn r d
  refine Keeps.of_after (fun s hs => ?_)
  unfold after
  cases hx : record available request s with
  | ok rep s' =>
    obtain ⟨hadm, m, hm, hsame, hroom, _, rfl⟩ := record_ok hx
    exact store m request (hinform.ok hs hm) (hadm.of_sameRegisters hsame) hroom
  | error e s' =>
    rcases record_error hx with rfl | rfl
    · exact hs
    · exact hinform.after hs

end

/-- Whatever the four elementary changes preserve, every recorder call preserves. -/
theorem apply_invariant [DecidableEq V]
    (learn : ∀ r d, I r → r.Learns d → I { r with decisions := r.decisions.insert d.slot d })
    (store : ∀ r request, I r → r.Admitted request → r.HasRoom request.slot → I (r.recorded request))
    (prune : ∀ r slot, I r → I (r.pruneThrough slot)) (r : RecorderCore V) (op : RecorderOp V)
    (install : ∀ r change, op = .installMembership change → I r → r.Installs change →
      I (r.withCluster change.next)) (h : I r) : I (op.apply r) := by
  have hrecord := keeps_record learn store
  have hinform : ∀ d, Keeps I (informDecision d) := fun d => keeps_informDecision fun r => learn r d
  have hpure : ∀ x : Option (RecordReply V), Keeps I (pure x : EStateM QuePaxaError (RecorderCore V) _) :=
    fun x => Keeps.pure x
  cases op with
  | record available request => exact ((hrecord available request).bind fun _ => hpure _).after h
  | recordFrom available sender request =>
    exact (Keeps.bind (Keeps.ite (fun _ => Keeps.throw _) fun _ => hrecord available request)
      fun _ => hpure _).after h
  | informDecision d => exact ((hinform d).bind fun _ => hpure _).after h
  | informDecisions ds => exact ((Keeps.forM ds fun d _ => hinform d).bind fun _ => hpure _).after h
  | pruneThrough slot => exact prune r slot h
  | installStateTransferFloor slot => exact prune r slot h
  | installMembership change =>
    refine (Keeps.bind (Keeps.of_after fun s hs => ?_) fun _ => hpure _).after h
    by_cases hi : s.Installs change
    · rw [after_ok (installMembership_of_installs hi)]
      exact install s change rfl hs hi
    · rwa [installMembership_of_not_installs hi]

theorem apply_installMembership [DecidableEq V] (change : MembershipChange V) (r : RecorderCore V) :
    RecorderOp.apply r (.installMembership change) = after (installMembership change) r :=
  after_bind_pure ..

theorem apply_cluster [DecidableEq V] (op : RecorderOp V) (r : RecorderCore V) :
    (op.apply r).config.cluster = r.config.cluster ↔
      ¬∃ change, op = .installMembership change ∧ r.Installs change := by
  constructor
  · rintro hsame ⟨change, rfl, hi⟩
    rw [apply_installMembership, after_ok (installMembership_of_installs hi)] at hsame
    exact hi.differs hsame.symm
  · intro hno
    by_cases hop : ∃ change, op = .installMembership change
    · obtain ⟨change, rfl⟩ := hop
      have hi : ¬r.Installs change := fun hi => hno ⟨change, rfl, hi⟩
      rw [apply_installMembership, installMembership_of_not_installs hi]
    · exact apply_invariant (I := fun m => m.config.cluster = r.config.cluster)
        (fun _ _ h _ => h) (fun _ _ h _ _ => h) (fun _ _ h => h) r op
        (fun _ change h => absurd ⟨change, h⟩ hop) rfl

theorem apply_config [DecidableEq V] {op : RecorderOp V} (hop : ∀ change, op ≠ .installMembership change)
    (r : RecorderCore V) :
    (op.apply r).config = r.config :=
  apply_invariant (I := fun m => m.config = r.config) (fun _ _ h _ => h) (fun _ _ h _ _ => h) (fun _ _ h => h) r op
    (fun _ change h => absurd h (hop change)) rfl

end RecorderCore
end QuePaxa
