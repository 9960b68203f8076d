import QuePaxa.Protocol.Consistency
import QuePaxa.Protocol.Effects

/-! Delivering a request keeps the invariant: the recorder's register takes in the
record exactly as the slot's history does, and its reply describes that history. -/
namespace QuePaxa
open Library
variable {V : Type}
variable {r : RecorderCore V} {m : Message V}

namespace World
variable {C : ClusterIdentity} {slot : SlotIndex} {w : World V}

def answer (w : World V) (m : Message V) (r : RecorderCore V) (reply : RecordReply V) : World V :=
  { w.setRecorder m.target r with deliveries := w.deliveries ++ [⟨m, reply⟩] }

theorem later_answer (w : World V) (m : Message V) (r : RecorderCore V) (reply : RecordReply V) :
    w.Later (w.answer m r reply) :=
  ⟨fun inv h => ⟨inv, h, rfl, rfl, fun _ h => h⟩, [⟨m, reply⟩], rfl⟩

theorem history_answer (w : World V) (m : Message V) (r : RecorderCore V) (reply : RecordReply V)
    (j : ReplicaId) : (w.answer m r reply).history j slot =
      w.history j slot ++ (Delivery.effect j slot ⟨m, reply⟩).toList := by
  simp only [history, answer, List.filterMap_append, List.filterMap_cons, List.filterMap_nil]
  cases Delivery.effect j slot (⟨m, reply⟩ : Delivery V) <;> rfl

private theorem Tracks.register_advance {j : ReplicaId} {request : RecordRequest V}
    (h : w.Tracks slot j r) (ha : r.Admitted request) (hslot : request.slot = slot)
    (hmax : request.step ≤ u64Max) :
    let g := (r.register slot).advance request.step request.proposal
    (g.step = request.step ∧ (∀ x ∈ w.history j slot, x.1 ≤ request.step) ∧
      g.Reflects (w.history j slot ++ [(request.step, request.proposal)])) ∨
    (g.step ≠ request.step ∧ Step.roundOnePhaseZero ≤ g.step ∧ g.Reflects (w.history j slot)) := by
  intro g
  cases hget : r.slots.get slot with
  | none =>
    have hreg : r.register slot = .default := by rw [RecorderCore.register, hget]; rfl
    have hempty : w.history j slot = [] := by
      refine (h.idle hget).resolve_right (not_le.mpr ?_)
      rw [← hslot]
      exact ha.live
    have hg : g = IntervalSummaryRegister.default.advance request.step request.proposal := by
      simp only [g, hreg]
    rw [hempty, hg]
    refine .inl ⟨?_, by simp, IntervalSummaryRegister.reflects_default _ ha.low hmax⟩
    rw [IntervalSummaryRegister.advance_step]
    exact Nat.zero_max _
  | some g₀ =>
    obtain ⟨hrefl, hlow⟩ := h.active g₀ hget
    have hg : g = g₀.advance request.step request.proposal := by
      simp only [g, RecorderCore.register, hget]
      rfl
    rcases lt_or_ge request.step g₀.step with hlt | hle
    · -- a stale request changes nothing
      rw [hg, IntervalSummaryRegister.advance_of_lt _ hlt]
      exact .inr ⟨ne_of_gt hlt, hlow, hrefl⟩
    · have hstep : g.step = request.step := by
        rw [hg, IntervalSummaryRegister.advance_step]
        exact max_eq_right hle
      have hpos : 0 < g₀.step := lt_of_lt_of_le (show 0 < 4 by decide) hlow
      refine .inl ⟨hstep, fun x hx => (hrefl.le x hx).trans hle, ?_⟩
      rw [hg]
      exact hrefl.advance hpos hle hmax

private theorem effect_other {j : ReplicaId} {reply : RecordReply V}
    (h : m.target ≠ j ∨ m.request.slot ≠ slot) : Delivery.effect j slot ⟨m, reply⟩ = none := by
  apply if_neg
  rintro ⟨htarget, hslot, _⟩
  exact h.elim (fun hne => hne htarget) (fun hne => hne hslot)

/-- How one answer changes a history, together with the register that answered. -/
private theorem history_answer_cases
    (h : w.Tracks slot m.target r) (ha : r.Admitted m.request) (hslot : m.request.slot = slot)
    (hmax : m.request.step ≤ u64Max) :
    let g := (r.register slot).advance m.request.step m.request.proposal
    let w' := w.answer m (r.recorded m.request) (r.reply m.request)
    g.Reflects (w'.history m.target slot) ∧ Step.roundOnePhaseZero ≤ g.step ∧
      (w.history m.target slot).Extends (w'.history m.target slot) := by
  intro g w'
  have hsum : (r.reply m.request).summary.step = g.step := by
    simp only [RecorderCore.reply, hslot]
    rfl
  rcases h.register_advance ha hslot hmax with ⟨hstep, hle, hrefl⟩ | ⟨hstep, hlow, hrefl⟩
  · have heff : Delivery.effect m.target slot ⟨m, r.reply m.request⟩ =
        some (m.request.step, m.request.proposal) := if_pos ⟨rfl, hslot, hsum.trans hstep⟩
    have hhist : w'.history m.target slot = w.history m.target slot ++ [(m.request.step, m.request.proposal)] := by
      rw [history_answer, heff]
      rfl
    rw [hhist]
    refine ⟨hrefl, ?_, History.Extends.concat hle⟩
    rw [hstep]
    exact ha.low
  · have heff : Delivery.effect m.target slot ⟨m, r.reply m.request⟩ = none := by
      apply if_neg
      rintro ⟨_, _, heq⟩
      exact hstep (hsum.symm.trans heq)
    have hhist : w'.history m.target slot = w.history m.target slot := by
      rw [history_answer, heff]
      exact List.append_nil _
    rw [hhist]
    exact ⟨hrefl, hlow, History.Extends.refl _⟩

private theorem Tracks.answer (h : w.Tracks slot m.target r)
    (ha : r.Admitted m.request) (hmax : m.request.slot = slot → m.request.step ≤ u64Max)
    (hbound : ∀ d ∈ w.deliveries, d.message.target = m.target → d.message.request.slot = slot →
      m.request.slot = slot → d.message.request.roundOneLeader = m.request.roundOneLeader) :
    (w.answer m (r.recorded m.request) (r.reply m.request)).Tracks slot m.target (r.recorded m.request) := by
  have hl := later_answer w m (r.recorded m.request) (r.reply m.request)
  have hdecisions : ∀ d, (r.recorded m.request).decisions.get slot = some d →
      d.slot = slot ∧ (w.answer m (r.recorded m.request) (r.reply m.request)).Returned d := by
    intro d hd
    obtain ⟨hs, hret⟩ := h.decisions d hd
    exact ⟨hs, hl.returned hret⟩
  by_cases hslot : m.request.slot = slot
  · obtain ⟨hrefl, hlow, _⟩ := history_answer_cases h ha hslot (hmax hslot)
    have hget : (r.recorded m.request).slots.get slot =
        some ((r.register slot).advance m.request.step m.request.proposal) := by
      simp only [RecorderCore.recorded, OrderedMap.get_insert, hslot, if_true]
    have hleader : (r.recorded m.request).roundOneLeaders.get slot = some m.request.roundOneLeader := by
      simp only [RecorderCore.recorded, OrderedMap.get_orInsert, hslot, if_true]
      cases hb : r.roundOneLeaders.get slot with
      | none => rfl
      | some l => rw [ha.bound l (hslot ▸ hb)]; rfl
    refine ⟨h.id, hdecisions, fun g hg => ?_, fun hnone => ?_, fun d hd htarget hds => .inl ?_⟩
    · rw [hget] at hg
      cases hg
      exact ⟨hrefl, hlow⟩
    · rw [hget] at hnone
      cases hnone
    · rw [hleader]
      rcases List.mem_append.mp hd with hd | hd
      · rw [hbound d hd htarget hds hslot]
      · rw [List.mem_singleton.mp hd]
  · have hne : slot ≠ m.request.slot := Ne.symm hslot
    have hhist : (w.answer m (r.recorded m.request) (r.reply m.request)).history m.target slot =
        w.history m.target slot := by
      rw [history_answer, effect_other (.inr hslot)]
      exact List.append_nil _
    have hslots : (r.recorded m.request).slots.get slot = r.slots.get slot := by
      simp only [RecorderCore.recorded, OrderedMap.get_insert, hne, if_false]
    have hleaders : (r.recorded m.request).roundOneLeaders.get slot = r.roundOneLeaders.get slot := by
      simp only [RecorderCore.recorded, OrderedMap.get_orInsert, hne, if_false]
    refine ⟨h.id, hdecisions, ?_, ?_, fun d hd htarget hds => ?_⟩
    · rw [hslots, hhist]; exact h.active
    · rw [hslots, hhist]; exact h.idle
    · rw [hleaders]
      rcases List.mem_append.mp hd with hd | hd
      · exact h.leaders d hd htarget hds
      · rw [List.mem_singleton.mp hd] at hds
        exact absurd hds hslot

private theorem Tracks.of_other {r' : RecorderCore V} {reply : RecordReply V} {j : ReplicaId}
    (hj : j ≠ m.target) (h : w.Tracks slot j r) : (w.answer m r' reply).Tracks slot j r := by
  have hl := later_answer w m r' reply
  have hhist : (w.answer m r' reply).history j slot = w.history j slot := by
    rw [history_answer, effect_other (.inl hj.symm)]
    exact List.append_nil _
  refine ⟨h.id, fun d hd => ?_, ?_, ?_, fun d hd htarget hds => ?_⟩
  · obtain ⟨hs, hret⟩ := h.decisions d hd
    exact ⟨hs, hl.returned hret⟩
  · rw [hhist]; exact h.active
  · rw [hhist]; exact h.idle
  · rcases List.mem_append.mp hd with hd | hd
    · exact h.leaders d hd htarget hds
    · rw [List.mem_singleton.mp hd] at htarget
      exact absurd htarget.symm hj

/-- A recorder at or past the slot's floor admits a request only under the leader it is bound to. -/
private theorem Tracks.bound_of_admitted
    (hr : w.Tracks slot m.target r) (ha : r.Admitted m.request) (hslot : m.request.slot = slot) :
    ∀ d ∈ w.deliveries, d.message.target = m.target → d.message.request.slot = slot →
      d.message.request.roundOneLeader = m.request.roundOneLeader := by
  intro d hd htarget hds
  have hlive : ¬slot ≤ r.prunedThrough := not_le.mpr (hslot ▸ ha.live)
  have hget := (hr.leaders d hd htarget hds).resolve_right hlive
  exact ha.bound _ (hslot ▸ hget)

private theorem Consistent.answer (h : w.Consistent C slot) (hm : m ∈ w.sent)
    (hr : w.Tracks slot m.target r) (ha : r.Admitted m.request) :
    (w.answer m (r.recorded m.request) (r.reply m.request)).Consistent C slot := by
  have hmax : m.request.slot = slot → m.request.step ≤ u64Max := fun hs => (h.sent m hm hs).high
  have hbound := fun hs => hr.bound_of_admitted ha hs
  have hl := later_answer w m (r.recorded m.request) (r.reply m.request)
  have hext : ∀ j, (w.history j slot).Extends
      ((w.answer m (r.recorded m.request) (r.reply m.request)).history j slot) := by
    intro j
    by_cases hj : m.target = j ∧ m.request.slot = slot
    · obtain ⟨rfl, hslot⟩ := hj
      exact (history_answer_cases hr ha hslot (hmax hslot)).2.2
    · rw [history_answer, effect_other (not_and_or.mp hj)]
      simp only [Option.toList_none, List.append_nil]
      exact History.Extends.refl _
  have hg : (w.rounds C slot).Grows ((w.answer m (r.recorded m.request) (r.reply m.request)).rounds C slot) :=
    hl.grows hext
  refine ⟨fun j => ?_, ?_, ?_, ?_, ?_, ?_, h.index, h.current, ?_, ?_, h.results⟩
  · by_cases hj : j = m.target
    · subst hj
      have hget : (w.answer m (r.recorded m.request) (r.reply m.request)).recorders m.target =
          r.recorded m.request := Function.update_self ..
      rw [hget]
      exact hr.answer ha hmax fun d hd ht hds hs => hbound hs d hd ht hds
    · have hget : (w.answer m (r.recorded m.request) (r.reply m.request)).recorders j = w.recorders j :=
        Function.update_of_ne hj ..
      rw [hget]
      exact (h.recorders j).of_other hj
  · intro d hd d' hd' htarget hs hs'
    rcases List.mem_append.mp hd with hd | hd <;> rcases List.mem_append.mp hd' with hd' | hd'
    · exact h.bound d hd d' hd' htarget hs hs'
    · rw [List.mem_singleton.mp hd'] at htarget hs' ⊢
      exact hbound hs' d hd htarget hs
    · rw [List.mem_singleton.mp hd] at htarget hs ⊢
      exact (hbound hs d' hd' htarget.symm hs').symm
    · rw [List.mem_singleton.mp hd, List.mem_singleton.mp hd']
  · intro d hd
    rcases List.mem_append.mp hd with hd | hd
    · exact h.delivered d hd
    · rw [List.mem_singleton.mp hd]; exact hm
  · intro d hd hslot
    rcases List.mem_append.mp hd with hd | hd
    · exact (h.answered d hd hslot).mono hl hext
    · rw [List.mem_singleton.mp hd] at hslot ⊢
      replace hslot : m.request.slot = slot := hslot
      obtain ⟨hrefl, hlow, _⟩ := history_answer_cases hr ha hslot (hmax hslot)
      have hsum : (r.reply m.request).summary =
          ((r.register slot).advance m.request.step m.request.proposal).summary := by
        simp only [RecorderCore.reply, hslot]
      refine ⟨hr.id, ?_, ?_, ?_, ?_, fun dec hdec => ?_⟩
      · rw [hsum]; exact hrefl.held
      · rw [hsum]; exact lt_of_lt_of_le (show 0 < 4 by decide) hlow
      · rw [hsum]; exact hrefl.first
      · rw [hsum]; exact hrefl.prior
      · obtain ⟨hs, hret⟩ := hr.decisions dec (hslot ▸ hdec)
        exact ⟨hs, hl.returned hret⟩
  · exact fun m' hm' hslot => (h.sent m' hm' hslot).mono hl hg
  · exact fun m' hm' d hd hslot => hl.returned (h.known m' hm' d hd hslot)
  · exact fun inv hinv hslot => (h.running inv hinv hslot).mono hl hg
  · exact fun inv hinv d hd hslot => hl.returned (h.calls inv hinv d hd hslot)

/-- Whatever the recorder does with a delivered request, the invariant survives. -/
theorem Consistent.deliver [DecidableEq V] (h : w.Consistent C slot) (m : Message V) (available : Availability V) :
    (w.step (.deliver m available)).Consistent C slot := by
  have hmoves := w.moves (.deliver m available)
  generalize w.step (.deliver m available) = w' at hmoves ⊢
  have hknown : m ∈ w.sent → Keeps (w.Tracks slot m.target) (RecorderCore.informDecisions m.request.knownDecisions) :=
    fun hm => Tracks.keeps_informDecisions (h.known m hm)
  cases hmoves with
  | idle => exact h
  | replies hm hrecord =>
    obtain ⟨ha, r, hinform, hsame, _, rfl, rfl⟩ := RecorderCore.record_ok hrecord
    exact h.answer hm ((hknown hm).ok (h.recorders m.target) hinform) (ha.of_sameRegisters hsame)
  | refuses hm hrecord =>
    apply h.setRecorder
    rcases RecorderCore.record_error hrecord with rfl | rfl
    · exact h.recorders m.target
    · exact (hknown hm).after (h.recorders m.target)

end World
end QuePaxa
