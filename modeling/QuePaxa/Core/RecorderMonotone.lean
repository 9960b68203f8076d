import QuePaxa.Core.RecorderRestart

/-! What a recorder never takes back. Its floor only rises, nothing comes back from below the
floor, and what is above it is only continued: bindings and decisions stay, registers advance. -/
namespace QuePaxa
open Library
variable {V : Type}

def IntervalSummaryRegister.ContinuedBy (g g' : IntervalSummaryRegister V) : Prop :=
  ∃ records : List (Step × Proposal V), g' = run (fun g x => g.advance x.1 x.2) g records

namespace IntervalSummaryRegister

private theorem ContinuedBy.refl (g : IntervalSummaryRegister V) : g.ContinuedBy g := ⟨[], rfl⟩

theorem ContinuedBy.trans {a b c : IntervalSummaryRegister V} (hab : a.ContinuedBy b) (hbc : b.ContinuedBy c) :
    a.ContinuedBy c := by
  obtain ⟨first, rfl⟩ := hab
  obtain ⟨second, rfl⟩ := hbc
  exact ⟨first ++ second, (run_append ..).symm⟩

private theorem ContinuedBy.advance {a b : IntervalSummaryRegister V} (h : a.ContinuedBy b) (step : Step)
    (p : Proposal V) :
    a.ContinuedBy (b.advance step p) := h.trans ⟨[(step, p)], rfl⟩

private theorem ContinuedBy.step_le {a b : IntervalSummaryRegister V} (h : a.ContinuedBy b) : a.step ≤ b.step := by
  obtain ⟨records, rfl⟩ := h
  induction records generalizing a with
  | nil => exact le_refl _
  | cons x records ih =>
    have hfirst : a.step ≤ (a.advance x.1 x.2).step := by
      rw [advance_step]
      exact le_max_left _ _
    exact hfirst.trans (ih (a := a.advance x.1 x.2))

end IntervalSummaryRegister

namespace RecorderCore

structure ReflectedIn (r r' : RecorderCore V) : Prop where
  floor : r.prunedThrough ≤ r'.prunedThrough
  decision : ∀ slot d, r.decisions.get slot = some d → r'.prunedThrough < slot → r'.decisions.get slot = some d
  leader : ∀ slot l, r.roundOneLeaders.get slot = some l → r'.prunedThrough < slot →
    r'.roundOneLeaders.get slot = some l
  summary : ∀ slot g, r.slots.get slot = some g → r'.prunedThrough < slot →
    ∃ g', r'.slots.get slot = some g' ∧ g.ContinuedBy g'

namespace ReflectedIn
variable {r r' : RecorderCore V}

theorem refl (r : RecorderCore V) : r.ReflectedIn r :=
  ⟨le_refl _, fun _ _ h _ => h, fun _ _ h _ => h, fun _ g h _ => ⟨g, h, .refl g⟩⟩

theorem trans {r'' : RecorderCore V} (h : r.ReflectedIn r') (h' : r'.ReflectedIn r'') : r.ReflectedIn r'' where
  floor := h.floor.trans h'.floor
  decision slot d hd hlive := h'.decision slot d (h.decision slot d hd (lt_of_le_of_lt h'.floor hlive)) hlive
  leader slot l hl hlive := h'.leader slot l (h.leader slot l hl (lt_of_le_of_lt h'.floor hlive)) hlive
  summary slot g hg hlive := by
    obtain ⟨g', hg', hcont⟩ := h.summary slot g hg (lt_of_le_of_lt h'.floor hlive)
    obtain ⟨g'', hg'', hcont'⟩ := h'.summary slot g' hg' hlive
    exact ⟨g'', hg'', hcont.trans hcont'⟩

private theorem learn {d : Decision V} (h : r.ReflectedIn r') (hl : r'.Learns d) :
    r.ReflectedIn { r' with decisions := r'.decisions.insert d.slot d } := by
  refine { h with decision := fun slot e he hlive => ?_ }
  have hold := h.decision slot e he hlive
  have hne : slot ≠ d.slot := by
    rintro rfl
    rw [hl.fresh] at hold
    cases hold
  rw [OrderedMap.get_insert, if_neg hne]
  exact hold

theorem store {request : RecordRequest V} (h : r.ReflectedIn r') : r.ReflectedIn (r'.recorded request) where
  floor := h.floor
  decision := h.decision
  leader slot l hl hlive := by
    have hold := h.leader slot l hl hlive
    simp only [recorded, OrderedMap.get_orInsert]
    split_ifs with hs
    · rw [← hs, hold]
      rfl
    · exact hold
  summary slot g hg hlive := by
    obtain ⟨g', hg', hcont⟩ := h.summary slot g hg hlive
    simp only [recorded, OrderedMap.get_insert]
    split_ifs with hs
    · refine ⟨_, rfl, ?_⟩
      have hregister : r'.register request.slot = g' := by
        unfold register
        rw [← hs, hg']
        rfl
      rw [hregister]
      exact hcont.advance request.step request.proposal
    · exact ⟨g', hg', hcont⟩

private theorem prune (h : r.ReflectedIn r') (slot : SlotIndex) : r.ReflectedIn (r'.pruneThrough slot) where
  floor := h.floor.trans (le_max_left _ _)
  decision k d hd hlive := by
    obtain ⟨hold, hslot⟩ := max_lt_iff.mp hlive
    exact (OrderedMap.get_retain ..).mpr ⟨h.decision k d hd hold, decide_eq_true hslot⟩
  leader k l hl hlive := by
    obtain ⟨hold, hslot⟩ := max_lt_iff.mp hlive
    exact (OrderedMap.get_retain ..).mpr ⟨h.leader k l hl hold, decide_eq_true hslot⟩
  summary k g hg hlive := by
    obtain ⟨hold, hslot⟩ := max_lt_iff.mp hlive
    obtain ⟨g', hg', hcont⟩ := h.summary k g hg hold
    exact ⟨g', (OrderedMap.get_retain ..).mpr ⟨hg', decide_eq_true hslot⟩, hcont⟩

end ReflectedIn

private theorem Sound.pruned {r : RecorderCore V} (h : r.Sound) {slot : SlotIndex} (hslot : slot ≤ r.prunedThrough) :
    r.slots.get slot = none ∧ r.roundOneLeaders.get slot = none ∧ r.decisions.get slot = none := by
  have hslots : r.slots.get slot = none := by
    rw [Option.eq_none_iff_forall_ne_some]
    exact fun g hg => absurd (h.slots slot g hg).1 (not_lt.mpr hslot)
  refine ⟨hslots, ?_, ?_⟩
  · have hleader := h.leaders slot
    rw [hslots] at hleader
    exact Option.isNone_iff_eq_none.mp (Option.isSome_eq_false_iff.mp hleader)
  · rw [Option.eq_none_iff_forall_ne_some]
    exact fun d hd => absurd (h.decisions slot d hd).2.1 (not_lt.mpr hslot)

section
variable [DecidableEq V]

theorem reflectedIn_apply (r : RecorderCore V) (op : RecorderOp V) : r.ReflectedIn (op.apply r) := by
  apply apply_invariant (I := r.ReflectedIn)
  · exact fun _ _ h hl => h.learn hl
  · exact fun _ _ h _ _ => h.store
  · exact fun _ slot h => h.prune slot
  · exact fun _ _ _ h _ => { h with }
  · exact .refl r

/-- Along every run, failed calls included, nothing is taken back. -/
theorem reflectedIn_run (r : RecorderCore V) (ops : List (RecorderOp V)) : r.ReflectedIn (run RecorderOp.apply r ops) :=
  run_invariant_all (fun s op h => h.trans (reflectedIn_apply s op)) (.refl r) ops

end
end RecorderCore

def RecorderOp.request : RecorderOp V → Option (RecordRequest V)
  | .record _ request | .recordFrom _ _ request => some request
  | _ => none

namespace RecorderCore

/-- A record call touches the register and binding of its own slot, and only when it replies. -/
structure Records (r : RecorderCore V) (request : RecordRequest V) (replied : Prop) (r' : RecorderCore V) : Prop where
  slots : ∀ slot, slot ≠ request.slot ∨ ¬replied → r'.slots.get slot = r.slots.get slot
  leaders : ∀ slot, slot ≠ request.slot ∨ ¬replied → r'.roundOneLeaders.get slot = r.roundOneLeaders.get slot

theorem SameRegisters.records {r r' : RecorderCore V} {request : RecordRequest V} {replied : Prop}
    (h : r.SameRegisters r') :
    r.Records request replied r' := ⟨fun _ _ => by rw [h.slots], fun _ _ => by rw [h.leaders]⟩

section
variable [DecidableEq V]

private theorem records_record (available : Availability V) (request : RecordRequest V) (r : RecorderCore V) :
    r.Records request (∃ rep, result (record available request) r = .ok rep) (after (record available request) r) := by
  cases hx : record available request r with
  | ok rep r' =>
    obtain ⟨_, m, _, hsame, _, _, rfl⟩ := record_ok hx
    have hother : ∀ slot, slot ≠ request.slot ∨ ¬(∃ rep, result (record available request) r = .ok rep) →
      slot ≠ request.slot := by
      rintro slot (hne | hno)
      · exact hne
      · exact absurd ⟨rep, by simp [result, hx]⟩ hno
    rw [after_ok hx]
    refine ⟨fun slot h => ?_, fun slot h => ?_⟩
    · simp only [recorded, OrderedMap.get_insert, if_neg (hother slot h), hsame.slots]
    · simp only [recorded, OrderedMap.get_orInsert, if_neg (hother slot h), hsame.leaders]
  | error e r' =>
    rw [after_error hx]
    rcases record_error hx with rfl | rfl
    · exact SameRegisters.records ⟨rfl, rfl, rfl, rfl⟩
    · exact ((informDecisions_sameRegisters r request.knownDecisions).after ⟨rfl, rfl, rfl, rfl⟩).records

private theorem records_apply {op : RecorderOp V} {request : RecordRequest V} (h : op.request = some request)
    (r : RecorderCore V) :
    r.Records request (∃ rep, result op.exec r = .ok rep) (op.apply r) := by
  have hsome : ∀ (x : EStateM QuePaxaError (RecorderCore V) (RecordReply V)),
      (∃ rep, result (some <$> x) r = .ok rep) ↔ ∃ rep, result x r = .ok rep := by
    intro x
    show (∃ rep, result (x >>= fun a => pure (some a)) r = .ok rep) ↔ _
    simp only [result, bind_apply, pure_apply]
    cases x r <;> simp
  cases op with
  | record available req =>
    cases h
    show r.Records request (∃ rep, result (some <$> record available request) r = .ok rep)
      (after (record available request >>= fun a => pure (some a)) r)
    rw [hsome, after_bind_pure]
    exact records_record available request r
  | recordFrom available sender req =>
    cases h
    show r.Records request (∃ rep, result (some <$> recordFrom available sender request) r = .ok rep)
      (after (recordFrom available sender request >>= fun a => pure (some a)) r)
    rw [hsome, after_bind_pure]
    unfold recordFrom
    split_ifs with hsender
    · exact SameRegisters.records ⟨rfl, rfl, rfl, rfl⟩
    · exact records_record available request r
  | informDecision | informDecisions | pruneThrough | installStateTransferFloor | installMembership => cases h

/-- Monotonicity of a recorder, over every run from an empty one and every continuation of it. -/
theorem recorder_is_monotone (config : RecorderConfig) (earlier later : List (RecorderOp V)) :
    let r : RecorderCore V := run RecorderOp.apply (new config) earlier
    let r' := run RecorderOp.apply r later
    r.roundOneLeaders.keys = r.slots.keys ∧
    (∀ slot ∈ r.slots.keys, r.prunedThrough < slot) ∧
    r.prunedThrough ≤ r'.prunedThrough ∧
    (∀ slot ≤ r.prunedThrough, r'.slots.get slot = none ∧ r'.roundOneLeaders.get slot = none ∧
      r'.decisions.get slot = none) ∧
    (∀ slot l l', r.roundOneLeaders.get slot = some l → r'.roundOneLeaders.get slot = some l' → l' = l) ∧
    (∀ slot g g', r.slots.get slot = some g → r'.slots.get slot = some g' → g.step ≤ g'.step) ∧
    (∀ slot d d', r.decisions.get slot = some d → r'.decisions.get slot = some d' → d'.valueIds = d.valueIds) ∧
    (∀ (op : RecorderOp V) (request : RecordRequest V), op.request = some request → ∀ slot, slot ≠ request.slot ∨
      (∃ e, result op.exec r = .error e) →
      (op.apply r).slots.get slot = r.slots.get slot ∧
        (op.apply r).roundOneLeaders.get slot = r.roundOneLeaders.get slot) := by
  intro r r'
  have hsound : r.Sound := sound_run config earlier
  have hsound' : r'.Sound := run_invariant_all sound_apply hsound later
  have hreflected : r.ReflectedIn r' := reflectedIn_run r later
  -- what is retained at the end lies above the floor, so nothing of it can have been pruned
  have hslots : ∀ {slot g'}, r'.slots.get slot = some g' → r'.prunedThrough < slot := fun h => (hsound'.slots _ _ h).1
  refine ⟨OrderedMap.keys_eq_of_get hsound.leaders, fun slot hslot => ?_, hreflected.floor, fun slot hslot => ?_,
    fun slot l l' hl hl' => ?_, fun slot g g' hg hg' => ?_, fun slot d d' hd hd' => ?_,
      fun op request hop slot hslot => ?_⟩
  · obtain ⟨g, hg⟩ := (OrderedMap.mem_keys ..).mp hslot
    exact (hsound.slots slot g hg).1
  · exact hsound'.pruned (hslot.trans hreflected.floor)
  · have hsome : (r'.slots.get slot).isSome = true := by
      rw [← hsound'.leaders slot, hl']
      rfl
    obtain ⟨g', hg'⟩ := Option.isSome_iff_exists.mp hsome
    have hkept := hreflected.leader slot l hl (hslots hg')
    rw [hl'] at hkept
    exact Option.some.inj hkept
  · obtain ⟨g₁, hg₁, hcont⟩ := hreflected.summary slot g hg (hslots hg')
    rw [hg'] at hg₁
    cases hg₁
    exact hcont.step_le
  · have hkept := hreflected.decision slot d hd (hsound'.decisions slot d' hd').2.1
    rw [hd'] at hkept
    rw [Option.some.inj hkept]
  · have hrecords := records_apply hop r
    have hside : slot ≠ request.slot ∨ ¬∃ rep, result op.exec r = .ok rep := by
      rcases hslot with hne | ⟨e, he⟩
      · exact .inl hne
      · refine .inr ?_
        rintro ⟨rep, hrep⟩
        rw [he] at hrep
        cases hrep
    exact ⟨hrecords.slots slot hside, hrecords.leaders slot hside⟩

end
end RecorderCore
end QuePaxa
