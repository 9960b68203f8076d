import QuePaxa.Core.RecorderSpec
import QuePaxa.Network.Wire

/-! A conflicting decision, a schedule mismatch and a pruned slot are alarms about one slot.
The wire drops the slot, and the client puts in the one of its own request: the slot of a record
request, and the slot of the first of a list of decisions. -/
namespace QuePaxa
open Library
variable {V R S : Type}
variable {available : Availability V} {r : RecorderCore V} {request : RecordRequest V}
  {ds : List (Decision V)}

def QuePaxaError.alarm : QuePaxaError → Option SlotIndex
  | conflictingDecision slot | scheduleMismatch slot | slotPruned slot => some slot
  | _ => none

/-- An alarm comes back with the slot the client asked about, whichever slot it was raised for. -/
theorem wireErrorToLocal_alarm {e : QuePaxaError} {slot : SlotIndex} (he : e.alarm = some slot) (asked : SlotIndex) :
    wireErrorToLocal (errorToWire e) (some asked) = e ↔ asked = slot := by
  cases e <;> cases he <;> simp [wireErrorToLocal, errorToWire]

private theorem wireErrorToLocal_none {e : QuePaxaError} {slot : SlotIndex} (he : e.alarm = some slot) :
    wireErrorToLocal (errorToWire e) none ≠ e := by
  cases e <;> cases he <;> simp [wireErrorToLocal, errorToWire]

section
variable {e : QuePaxaError} {slot : SlotIndex}

theorem ne_alarm (he : e.alarm = some slot) {e' : QuePaxaError} (h : e'.alarm = none) : e' ≠ e := by
  rintro rfl
  rw [h] at he
  cases he

private theorem ne_alarm_of_slot (he : e.alarm = some slot) {other : SlotIndex} (hslot : other ≠ slot)
    {e' : QuePaxaError}
    (h : e'.alarm = some other) : e' ≠ e := by
  rintro rfl
  rw [h] at he
  exact hslot (Option.some.inj he)

namespace RecorderCore

private theorem avoids_storeRecord (he : e.alarm = some slot) (request : RecordRequest V) :
    Avoids e (storeRecord request) := by
  intro r
  unfold result
  rw [storeRecord_eq]
  split_ifs
  · exact .ok _
  · exact .error (ne_alarm he rfl)

variable [DecidableEq V]

private theorem never_validateProposal (he : e.alarm = some slot) (r : RecorderCore V) (p : Proposal V) :
    Never e (r.validateProposal p) :=
  .bind (.require (ne_alarm he rfl)) fun _ => .bind (.require (ne_alarm he rfl)) fun _ =>
    .bind (.require (ne_alarm he rfl)) fun _ => .require (ne_alarm he rfl)

private theorem never_validateDecision (he : e.alarm = some slot) (r : RecorderCore V) (d : Decision V) :
    Never e (r.validateDecision d) :=
  .bind (.require (ne_alarm he rfl)) fun _ => .bind (.require (ne_alarm he rfl))
    fun _ => .bind (.require (ne_alarm he rfl)) fun _ =>
    .bind (.require (ne_alarm he rfl)) fun _ => .require (ne_alarm he rfl)

private theorem never_validateRequest (he : e.alarm = some slot) (r : RecorderCore V) (request : RecordRequest V) :
    Never e (r.validateRequest request) := by
  refine .bind (.require (ne_alarm he rfl)) fun _ => .bind ?_ fun _ => .bind (never_validateProposal he r _) fun _ =>
    .bind (.require (ne_alarm he rfl)) fun _ => .require (ne_alarm he rfl)
  unfold validateLeader
  split
  · exact .require (ne_alarm he rfl)
  · exact .ok ()

/-- The checks on a request raise alarms for its own slot only. -/
theorem never_admitRecord (he : e.alarm = some slot)
    (havailable : ∀ ids e', available ids = .error e' → e'.alarm = none) (r : RecorderCore V)
    (hslot : request.slot ≠ slot) : Never e (r.admitRecord available request) := by
  refine .bind (never_validateRequest he r request) fun _ => .bind (.require (ne_alarm_of_slot he hslot rfl)) fun _ =>
    .bind (.require (ne_alarm_of_slot he hslot rfl)) fun _ => ?_
  exact fun hrefused => absurd rfl (ne_alarm he (havailable _ e hrefused))

private theorem admitRecord_alarm (he : e.alarm = some slot)
    (havailable : ∀ ids e', available ids = .error e' → e'.alarm = none)
    (hx : r.admitRecord available request = .error e) : request.slot = slot := by
  by_contra hslot
  exact never_admitRecord he havailable r hslot hx

structure Contradicts (r : RecorderCore V) (d : Decision V) : Prop where
  valid : r.validateDecision d = .ok ()
  above : r.prunedThrough < d.slot
  differs : ∃ existing, r.decisions.get d.slot = some existing ∧ existing.valueIds ≠ d.valueIds

private theorem Contradicts.informDecision_eq {d : Decision V} (h : r.Contradicts d) :
    informDecision d r = .error (.conflictingDecision d.slot) r := by
  obtain ⟨existing, hget, hvalues⟩ := h.differs
  simp only [informDecision, h.valid, not_le.mpr h.above, if_false, hget, if_pos hvalues]

/-- A decision raises no alarm but the conflict about its own slot. -/
theorem informDecision_alarm (he : e.alarm = some slot) {r' : RecorderCore V} {d : Decision V}
    (hx : informDecision d r = .error e r') : r.Contradicts d ∧ d.slot = slot := by
  unfold informDecision at hx
  cases hv : r.validateDecision d with
  | error e' =>
    rw [hv] at hx
    cases hx
    exact absurd hv (never_validateDecision he r d)
  | ok u =>
    rw [hv] at hx
    by_cases hfloor : d.slot ≤ r.prunedThrough
    · simp only [hfloor, if_true] at hx
      cases hx
    simp only [hfloor, if_false] at hx
    cases hget : r.decisions.get d.slot with
    | some existing =>
      simp only [hget] at hx
      split_ifs at hx with hvalues
      cases hx
      exact ⟨⟨hv, not_le.mp hfloor, existing, hget, hvalues⟩, Option.some.inj he⟩
    | none =>
      simp only [hget] at hx
      split_ifs at hx
      cases hx
      cases he

/-- The first decision of the list that is refused, with the recorder as it is by then. -/
def firstRefused (r : RecorderCore V) : List (Decision V) → Option (RecorderCore V × Decision V)
  | [] => none
  | d :: ds =>
    match informDecision d r with
    | .ok () r' => r'.firstRefused ds
    | .error _ _ => some (r, d)

private theorem informDecisions_error {s : RecorderCore V} :
    informDecisions ds r = .error e s ↔ ∃ r' d, r.firstRefused ds = some (r', d) ∧
      informDecision d r' = .error e s := by
  induction ds generalizing r with
  | nil => exact ⟨fun hx => (by cases hx), fun ⟨_, _, hnone, _⟩ => by cases hnone⟩
  | cons d ds ih =>
    have hbind : informDecisions (d :: ds) r = (informDecision d >>= fun _ => informDecisions ds) r := rfl
    rw [hbind, bind_apply]
    cases hd : informDecision d r with
    | ok u r' =>
      simp only [firstRefused, hd]
      exact ih
    | error e' r' =>
      simp only [firstRefused, hd, Option.some.injEq, Prod.mk.injEq]
      refine ⟨fun hx => ⟨r, d, ⟨rfl, rfl⟩, hd.trans hx⟩, ?_⟩
      rintro ⟨_, _, ⟨rfl, rfl⟩, hx⟩
      rw [← hx, hd]

private theorem mem_of_firstRefused {r' : RecorderCore V} {d : Decision V}
    (h : r.firstRefused ds = some (r', d)) : d ∈ ds := by
  induction ds generalizing r with
  | nil => cases h
  | cons first ds ih =>
    unfold firstRefused at h
    split at h
    · exact List.mem_cons_of_mem _ (ih h)
    · cases h
      exact List.mem_cons_self

/-- If the first decision refused is refused for a conflict, then for one about the slot asked
about. -/
def ConflictsOnlyAt (asked : Option SlotIndex) (r : RecorderCore V) (ds : List (Decision V)) : Prop :=
  ∀ r' d, r.firstRefused ds = some (r', d) → r'.Contradicts d → asked = some d.slot

private theorem conflictsOnlyAt_of_slots {asked : Option SlotIndex}
    (h : ∀ d ∈ ds, asked = some d.slot) : r.ConflictsOnlyAt asked ds :=
  fun _ d hfirst _ => h d (mem_of_firstRefused hfirst)

theorem informDecisions_alarms (asked : Option SlotIndex) (r : RecorderCore V) (ds : List (Decision V)) :
    (∀ e slot s, informDecisions ds r = .error e s → e.alarm = some slot → asked = some slot) ↔
      r.ConflictsOnlyAt asked ds := by
  constructor
  · intro hall r' d hfirst hcontra
    exact hall _ d.slot _ (informDecisions_error.mpr ⟨r', d, hfirst, hcontra.informDecision_eq⟩) rfl
  · intro honly e slot s hx he
    obtain ⟨r', d, hfirst, hrefused⟩ := informDecisions_error.mp hx
    obtain ⟨hcontra, rfl⟩ := informDecision_alarm he hrefused
    exact honly r' d hfirst hcontra

private theorem record_alarms (havailable : ∀ ids e', available ids = .error e' → e'.alarm = none)
    (r : RecorderCore V) (request : RecordRequest V) :
    (∀ e slot s, record available request r = .error e s → e.alarm = some slot → request.slot = slot) ↔
      (r.admitRecord available request = .ok () → r.ConflictsOnlyAt (some request.slot) request.knownDecisions) := by
  have hrecord : record available request r =
      (check (r.admitRecord available request) >>= fun _ => informDecisions request.knownDecisions >>= fun _ =>
        storeRecord request) r := rfl
  rw [hrecord]
  cases hadmit : r.admitRecord available request with
  | error e' =>
    refine iff_of_true (fun e slot s hx he => ?_) fun hok => by cases hok
    cases hx
    exact admitRecord_alarm he havailable hadmit
  | ok u =>
    rw [bind_apply, check_ok, ← informDecisions_alarms]
    simp only [true_implies, Option.some.injEq]
    constructor
    · intro hall e slot s hx he
      refine hall e slot s ?_ he
      rw [bind_apply, hx]
    · intro hall e slot s hx he
      rcases bind_eq_error.mp hx with hinform | ⟨_, r', _, hstore⟩
      · exact hall e slot s hinform he
      · have hnever := avoids_storeRecord he request r'
        rw [result, hstore] at hnever
        exact absurd rfl hnever

end RecorderCore

/-- The durable recorder fails as its core does, or because of its store. -/
theorem DurableRecorderCore.mutate_alarm {T : Type} [RecorderStateStore V S]
    {mutation : EStateM QuePaxaError (RecorderCore V) T}
    (hsave : ∀ (snapshot : RecorderSnapshot V) (s s' : S) e, RecorderStateStore.save snapshot s = .error e s' →
      e.alarm = none)
    (he : e.alarm = some slot) (d : DurableRecorderCore V S) :
    (∃ d', mutate mutation d = .error e d') ↔ ∃ r', mutation d.core = .error e r' := by
  unfold mutate
  cases hm : mutation d.core with
  | error e' core => simp
  | ok output core =>
    refine iff_of_false ?_ fun ⟨_, hx⟩ => by cases hx
    rintro ⟨d', hx⟩
    simp only at hx
    cases hs : RecorderStateStore.save core.snapshot d.store with
    | error e' store =>
      rw [hs] at hx
      cases hx
      exact ne_alarm he (hsave _ _ _ e hs) rfl
    | ok u store =>
      rw [hs] at hx
      cases hx

end

structure TlsRpcClient.Linked (client : TlsRpcClient) (ctx : ConnectionContext V) (caller : ReplicaId) : Prop where
  deployment : client.deployment = ctx.deployment
  sender : client.sender = .replica caller

def TlsRpcClient.call [RecorderClient V R] (client : TlsRpcClient) (ctx : ConnectionContext V) (caller : ReplicaId)
    (shared : SharedRecorder R) (requestId : Nat) : RequestBody V → Result (ResponseBody V) :=
  client.callInner (fun request => .ok (ctx.serve (.replica caller) shared request)) requestId

section
variable [RecorderClient V R] {client : TlsRpcClient} {ctx : ConnectionContext V} {caller : ReplicaId}
  {shared : SharedRecorder R} {requestId : Nat} {e : QuePaxaError} {r : R}

theorem TlsRpcClient.Linked.call_eq (h : client.Linked ctx caller) (body : RequestBody V) :
    client.call ctx caller shared requestId body =
      .ok (ctx.serve (.replica caller) shared ⟨wireVersion, ctx.deployment, requestId, .replica caller,
        body⟩).body := by
  simp only [call, callInner, h.deployment, h.sender, bind, Except.bind, ConnectionContext.serve, require, and_self,
    if_true]
  rfl

/-- The task hands on every error of the recorder but a panic. -/
theorem SharedRecorder.run_error {α : Type} (task : String) {x : EStateM QuePaxaError R α}
    (hlock : shared.poisoned = false)
    (hx : x shared.recorder = .error e r) (he : ∀ message, e ≠ .panicked message) :
    SharedRecorder.run task x shared = .error e { shared with recorder := r } := by
  cases e with
  | panicked message => exact absurd rfl (he message)
  | _ => simp only [run, hlock, Bool.false_eq_true, if_false, hx]

private theorem TlsRpcClient.Linked.record_error (h : client.Linked ctx caller) (requestId : Nat)
    (hlock : shared.poisoned = false) (hsender : request.sender = caller)
    (hx : RecorderClient.record ctx.available request shared.recorder = .error e r)
    (he : ∀ message, e ≠ .panicked message) :
    TlsRecorderClient.record (client.call ctx caller shared requestId) request =
      .error (wireErrorToLocal (errorToWire e) (some request.slot)) := by
  have hrun := SharedRecorder.run_error "recorder task" hlock hx he
  subst hsender
  rw [TlsRecorderClient.record, h.call_eq]
  have hdispatch : result (ctx.dispatch (.replica request.sender)
      ⟨wireVersion, ctx.deployment, requestId, .replica request.sender, .record request⟩) shared = .error e := by
    simp only [result, ConnectionContext.dispatch, PeerIdentity.matchesSender, ne_eq, not_true, if_false, decide_true,
      Bool.not_true, Bool.false_eq_true, bind_apply, hrun]
  simp only [ConnectionContext.serve, hdispatch]
  rfl

private theorem TlsRpcClient.Linked.informDecisions_error (h : client.Linked ctx caller) (requestId : Nat)
    (hlock : shared.poisoned = false)
    {decisions : List (Decision V)} (hx : RecorderClient.informDecisions decisions shared.recorder = .error e r)
    (he : ∀ message, e ≠ .panicked message) :
    TlsRecorderClient.informDecisions (client.call ctx caller shared requestId) decisions =
      .error (wireErrorToLocal (errorToWire e) (decisions.head?.map (·.slot))) := by
  have hrun := SharedRecorder.run_error "recorder task" hlock hx he
  rw [TlsRecorderClient.informDecisions, h.call_eq]
  have hdispatch : result (ctx.dispatch (.replica caller)
      ⟨wireVersion, ctx.deployment, requestId, .replica caller, .informDecisions decisions⟩) shared = .error e := by
    simp only [result, ConnectionContext.dispatch, PeerIdentity.matchesSender, ne_eq, not_true, if_false, decide_true,
      Bool.not_true, Bool.false_eq_true, bind_apply, hrun]
  simp only [ConnectionContext.serve, hdispatch]
  rfl

end

private theorem not_panicked {e : QuePaxaError} {slot : SlotIndex} (he : e.alarm = some slot) (message : String) :
    e ≠ .panicked message := by
  rintro rfl
  cases he

/-- When a client gets to see the alarms of a remote recorder as they were raised: if the first
decision that its core refuses is not in conflict about another slot than that of the request, or
of the first decision of the list. -/
structure AlarmsSeen [DecidableEq V] (R : Type) [RecorderClient V R] (core : R → RecorderCore V)
    (available : Availability V) : Prop where
  record : ∀ (client : TlsRpcClient) (ctx : ConnectionContext V) (shared : SharedRecorder R) (requestId : Nat)
    (request : RecordRequest V), ctx.available = available → client.Linked ctx request.sender →
      shared.poisoned = false →
    ((∀ e slot r, RecorderClient.record available request shared.recorder = .error e r → e.alarm = some slot →
      TlsRecorderClient.record (client.call ctx request.sender shared requestId) request = .error e) ↔
    ((core shared.recorder).admitRecord available request = .ok () →
      (core shared.recorder).ConflictsOnlyAt (some request.slot) request.knownDecisions))
  informDecisions : ∀ (client : TlsRpcClient) (ctx : ConnectionContext V) (caller : ReplicaId)
    (shared : SharedRecorder R)
    (requestId : Nat) (decisions : List (Decision V)), client.Linked ctx caller → shared.poisoned = false →
    ((∀ e slot r, RecorderClient.informDecisions decisions shared.recorder = .error e r → e.alarm = some slot →
      TlsRecorderClient.informDecisions (client.call ctx caller shared requestId) decisions = .error e) ↔
    (core shared.recorder).ConflictsOnlyAt (decisions.head?.map (·.slot)) decisions)

/-- It is enough that the recorder raises the alarms of its core. -/
theorem AlarmsSeen.of_core [DecidableEq V] [RecorderClient V R] {core : R → RecorderCore V}
    (havailable : ∀ ids e, available ids = .error e → e.alarm = none)
    (hrecord : ∀ (r : R) (request : RecordRequest V) (e : QuePaxaError) (slot : SlotIndex), e.alarm = some slot →
      ((∃ r', RecorderClient.record available request r = .error e r') ↔
        ∃ s, RecorderCore.record available request (core r) = .error e s))
    (hinform : ∀ (r : R) (decisions : List (Decision V)) (e : QuePaxaError) (slot : SlotIndex), e.alarm = some slot →
      ((∃ r', RecorderClient.informDecisions decisions r = .error e r') ↔
        ∃ s, RecorderCore.informDecisions decisions (core r) = .error e s)) :
    AlarmsSeen R core available := by
  constructor
  · rintro client ctx shared requestId request rfl hlinked hlock
    rw [← RecorderCore.record_alarms havailable]
    have hseen : ∀ {e slot r}, RecorderClient.record ctx.available request shared.recorder = .error e r →
      e.alarm = some slot →
        (TlsRecorderClient.record (client.call ctx request.sender shared requestId) request = .error e ↔
          request.slot = slot) := by
      intro e slot r hx he
      rw [hlinked.record_error requestId hlock rfl hx (not_panicked he), Except.error.injEq]
      exact wireErrorToLocal_alarm he request.slot
    constructor
    · intro hall e slot s hx he
      obtain ⟨r, hr⟩ := (hrecord shared.recorder request e slot he).mpr ⟨s, hx⟩
      exact (hseen hr he).mp (hall e slot r hr he)
    · intro hall e slot r hx he
      obtain ⟨s, hs⟩ := (hrecord shared.recorder request e slot he).mp ⟨r, hx⟩
      exact (hseen hx he).mpr (hall e slot s hs he)
  · intro client ctx caller shared requestId decisions hlinked hlock
    rw [← RecorderCore.informDecisions_alarms]
    have hseen : ∀ {e slot r}, RecorderClient.informDecisions decisions shared.recorder = .error e r →
      e.alarm = some slot →
        (TlsRecorderClient.informDecisions (client.call ctx caller shared requestId) decisions = .error e ↔
          decisions.head?.map (·.slot) = some slot) := by
      intro e slot r hx he
      rw [hlinked.informDecisions_error requestId hlock hx (not_panicked he), Except.error.injEq]
      cases decisions.head?.map (·.slot) with
      | none => simp [wireErrorToLocal_none he]
      | some asked => rw [wireErrorToLocal_alarm he asked, Option.some.injEq]
    constructor
    · intro hall e slot s hx he
      obtain ⟨r, hr⟩ := (hinform shared.recorder decisions e slot he).mpr ⟨s, hx⟩
      exact (hseen hr he).mp (hall e slot r hr he)
    · intro hall e slot r hx he
      obtain ⟨s, hs⟩ := (hinform shared.recorder decisions e slot he).mp ⟨r, hx⟩
      exact (hseen hx he).mpr (hall e slot s hs he)

/-- With either kind of recorder a client sees all alarms as they were raised just when no
decision sent along is the first to be refused and in conflict about another slot. -/
theorem alarms_keep_the_slot_asked_about [DecidableEq V] [RecorderStateStore V S] (available : Availability V)
    (havailable : ∀ ids e, available ids = .error e → e.alarm = none)
    (hsave : ∀ (snapshot : RecorderSnapshot V) (s s' : S) e, RecorderStateStore.save snapshot s = .error e s' →
      e.alarm = none) :
    AlarmsSeen (RecorderCore V) id available ∧ AlarmsSeen (DurableRecorderCore V S) (·.core) available :=
  ⟨.of_core havailable (fun _ _ _ _ _ => .rfl) fun _ _ _ _ _ => .rfl,
    .of_core havailable (fun d _ _ _ he => DurableRecorderCore.mutate_alarm hsave he d)
      fun d _ _ _ he => DurableRecorderCore.mutate_alarm hsave he d⟩

def decidedRecorder : RecorderCore Nat :=
  after (RecorderCore.informDecision ⟨1, [4], 1, 4⟩) (RecorderCore.new ⟨2, ⟨[1, 2, 3], 1, 0, none⟩, .default⟩)

/-- The conflict about slot 1 reaches a client that asked about slot 1 as it was raised. -/
theorem alarms_keep_the_slot_asked_about_conflict :
    let ctx : ConnectionContext Nat := ⟨7, fun _ => .ok (), fun _ => .ok ()⟩
    let client : TlsRpcClient := ⟨7, .replica 1⟩
    let request : RecordRequest Nat := ⟨1, 1, none, 4, ⟨⟨9, 1, 0⟩, [5]⟩, [⟨1, [5], 1, 4⟩]⟩
    TlsRecorderClient.record (client.call ctx 1 ⟨decidedRecorder, false⟩ 0) request =
      .error (.conflictingDecision 1) := by
  intro ctx client request
  have hseen := (alarms_keep_the_slot_asked_about (S := InMemoryRecorderStore Nat) ctx.available
    (fun _ _ h => by cases h) (fun _ _ _ _ h => by cases h)).1
  have hslots : ∀ d ∈ request.knownDecisions, some request.slot = some d.slot := by decide
  exact (hseen.record client ctx ⟨decidedRecorder, false⟩ 0 request rfl ⟨rfl, rfl⟩ rfl).mpr
    (fun _ => RecorderCore.conflictsOnlyAt_of_slots hslots) (.conflictingDecision 1) 1 _ rfl rfl

/-- The recorder reports the conflict about slot 1; the client reports one about slot 2, of which
the recorder knows nothing. -/
theorem alarm_about_another_slot :
    let ctx : ConnectionContext Nat := ⟨7, fun _ => .ok (), fun _ => .ok ()⟩
    let client : TlsRpcClient := ⟨7, .replica 1⟩
    let request : RecordRequest Nat := ⟨1, 2, none, 4, ⟨⟨9, 1, 0⟩, [6]⟩, [⟨1, [5], 1, 4⟩]⟩
    let decisions : List (Decision Nat) := [⟨2, [6], 1, 4⟩, ⟨1, [5], 1, 4⟩]
    result (RecorderCore.record ctx.available request) decidedRecorder = .error (.conflictingDecision 1) ∧
    TlsRecorderClient.record (client.call ctx 1 ⟨decidedRecorder, false⟩ 0) request = .error (.conflictingDecision 2) ∧
    result (RecorderCore.informDecisions decisions) decidedRecorder = .error (.conflictingDecision 1) ∧
    TlsRecorderClient.informDecisions (client.call ctx 1 ⟨decidedRecorder, false⟩ 0) decisions =
      .error (.conflictingDecision 2) := by
  intro ctx client request decisions
  exact ⟨rfl, rfl, rfl, rfl⟩

end QuePaxa
