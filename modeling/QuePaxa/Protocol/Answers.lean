import QuePaxa.Core.RecorderRestart
import QuePaxa.Protocol.Termination
import QuePaxa.Protocol.Validity

/-! What recorders answer. The register of a slot moves only when a request for the slot is
delivered, and each reply shows the register it left behind. Two sets of replies that are each
enough for one call share a recorder. -/
namespace QuePaxa
open Library
variable {V : Type}

namespace RecorderCore

def Rests (slot : SlotIndex) (r r' : RecorderCore V) : Prop :=
  r.prunedThrough ≤ r'.prunedThrough ∧
    (r'.register slot = r.register slot ∨ r'.register slot = .default ∧ slot ≤ r'.prunedThrough)

theorem Rests.of_slots {slot : SlotIndex} {r r' : RecorderCore V} (hslots : r'.slots = r.slots)
    (hfloor : r'.prunedThrough = r.prunedThrough) : r.Rests slot r' := by
  refine ⟨le_of_eq hfloor.symm, .inl ?_⟩
  rw [register, register, hslots]

private theorem register_pruneThrough (r : RecorderCore V) (through slot : SlotIndex) :
    (r.pruneThrough through).register slot = if through < slot then r.register slot else .default := by
  simp only [register, pruneThrough, OrderedMap.get_retain_key, decide_eq_true_eq]
  split_ifs <;> rfl

private theorem rests_pruneThrough (r : RecorderCore V) (through slot : SlotIndex) :
    r.Rests slot (r.pruneThrough through) := by
  refine ⟨le_max_left _ _, ?_⟩
  rw [register_pruneThrough]
  split_ifs with hlive
  · exact .inl rfl
  · exact .inr ⟨rfl, (not_lt.mp hlive).trans (le_max_right _ _)⟩

theorem register_recorded (m : RecorderCore V) (request : RecordRequest V) (slot : SlotIndex) :
    (m.recorded request).register slot =
      if slot = request.slot then (m.register request.slot).advance request.step request.proposal
      else m.register slot := by
  simp only [register, recorded, OrderedMap.get_insert]
  split_ifs <;> rfl

section
variable [DecidableEq V] {r r' : RecorderCore V} {slot : SlotIndex} {available : Availability V}
  {request : RecordRequest V} {reply : RecordReply V}

private theorem rests_informDecisions (ds : List (Decision V)) (r : RecorderCore V) :
    r.Rests slot (after (informDecisions ds) r) := by
  have hsame := (informDecisions_sameRegisters r ds).after ⟨rfl, rfl, rfl, rfl⟩
  exact .of_slots hsame.slots hsame.floor

private theorem rests_informDecision (d : Decision V) (r : RecorderCore V) :
    r.Rests slot (after (informDecision d) r) := by
  rcases informDecision_after d r with hsame | ⟨_, hnew⟩
  · rw [hsame]
    exact .of_slots rfl rfl
  · rw [hnew]
    exact .of_slots rfl rfl

private theorem rests_installMembership (change : MembershipChange V) (r : RecorderCore V) :
    r.Rests slot (after (installMembership change) r) := by
  by_cases hinstalls : r.Installs change
  · rw [after_ok (installMembership_of_installs hinstalls)]
    exact .of_slots rfl rfl
  · rw [installMembership_of_not_installs hinstalls]
    exact .of_slots rfl rfl

private theorem rests_record_error {e : QuePaxaError} (h : record available request r = .error e r') :
    r.Rests slot r' := by
  rcases record_error h with rfl | rfl
  · exact .of_slots rfl rfl
  · exact rests_informDecisions _ r

private theorem rests_record_other (h : record available request r = .ok reply r') (hslot : request.slot ≠ slot) :
    r.Rests slot r' := by
  obtain ⟨_, m, _, hsame, _, _, rfl⟩ := record_ok h
  refine ⟨le_of_eq hsame.floor.symm, .inl ?_⟩
  rw [register_recorded, if_neg (Ne.symm hslot), register, register, hsame.slots]

structure Shows (r : RecorderCore V) (request : RecordRequest V) (reply : RecordReply V)
    (r' : RecorderCore V) : Prop where
  live : r'.prunedThrough < request.slot
  floor : r'.prunedThrough = r.prunedThrough
  register : r'.register request.slot = (r.register request.slot).advance request.step request.proposal
  summary : reply.summary = (r'.register request.slot).summary
  stored : r'.slots.get request.slot = some (r'.register request.slot)
  decision : reply.decision = r'.decisions.get request.slot

theorem record_shows (h : record available request r = .ok reply r') : r.Shows request reply r' := by
  obtain ⟨hadmitted, m, _, hsame, _, rfl, rfl⟩ := record_ok h
  have hregister : m.register request.slot = r.register request.slot := by rw [register, register, hsame.slots]
  have hadvanced : (m.recorded request).register request.slot =
      (m.register request.slot).advance request.step request.proposal := by
    rw [register_recorded, if_pos rfl]
  refine ⟨?_, hsame.floor, by rw [hadvanced, hregister], by rw [hadvanced]; rfl, ?_, rfl⟩
  · exact lt_of_le_of_lt (le_of_eq hsame.floor) hadmitted.live
  · rw [hadvanced]
    exact OrderedMap.get_insert_self ..

private theorem Sound.answers (h : r.Sound) (hrecord : record available request r = .ok reply r') :
    reply.Carries (fun p => p.valueIds ≠ []) (fun d => d.slot = request.slot ∧ d.valueIds ≠ []) ∧
      reply.summary.first.isSome = true := by
  have hsound : r'.Sound := by
    have happly : RecorderOp.apply r (.record available request) = r' :=
      (after_bind_pure _ _ _).trans (after_ok hrecord)
    exact happly ▸ sound_apply r _ h
  have hshows := record_shows hrecord
  obtain ⟨_, hfits⟩ := hsound.slots _ _ hshows.stored
  have hproposals : ∀ p ∈ (r'.register request.slot).proposals, p.valueIds ≠ [] :=
    fun p hp => (hfits.proposals p hp).nonempty
  refine ⟨⟨fun p hp => ?_, fun p hp => ?_, fun d hd => ?_⟩, ?_⟩
  · rw [hshows.summary] at hp
    exact hproposals p (IntervalSummaryRegister.mem_proposals.mpr (.inl hp))
  · rw [hshows.summary] at hp
    exact hproposals p (IntervalSummaryRegister.mem_proposals.mpr (.inr (.inr hp)))
  · rw [hshows.decision] at hd
    obtain ⟨hkey, _, hd⟩ := hsound.decisions _ d hd
    exact ⟨hkey, hd.nonempty⟩
  · rw [hshows.summary]
    exact hfits.first

end
end RecorderCore

namespace World
section
variable [DecidableEq V] {w : World V} {a : Action V}

theorem replied_step {d : Delivery V} (hd : d ∈ (w.step a).deliveries) : d ∈ w.deliveries ∨
    ∃ available, a = .deliver d.message available ∧ d.message ∈ w.sent ∧
      RecorderCore.record available d.message.request (w.recorders d.message.target) =
        .ok d.reply ((w.step a).recorders d.message.target) := by
  have hmoves := w.moves a
  generalize w.step a = w' at hmoves hd ⊢
  cases hmoves with
  | @replies m available reply r hm hrecord =>
    refine (List.mem_append.mp hd).imp_right fun hd => ?_
    obtain rfl := List.mem_singleton.mp hd
    refine ⟨available, rfl, hm, hrecord.trans ?_⟩
    rw [show (w.setRecorder m.target r).recorders m.target = r from Function.update_self ..]
  | idle | opens | sends | refuses | fails | concludes | informs | prunes | installs => exact .inl hd

theorem register_step (w : World V) (a : Action V) (j : ReplicaId) (slot : SlotIndex) :
    (w.recorders j).Rests slot ((w.step a).recorders j) ∨
    ∃ m available reply, a = .deliver m available ∧ m ∈ w.sent ∧ m.target = j ∧ m.request.slot = slot ∧
      (w.recorders j).Shows m.request reply ((w.step a).recorders j) := by
  have hmoves := w.moves a
  generalize w.step a = w' at hmoves ⊢
  -- a recorder that was not called is as before
  have hcalled : ∀ (target : ReplicaId) (r : RecorderCore V), (w.recorders target).Rests slot r →
      (w.recorders j).Rests slot (Function.update w.recorders target r j) := by
    intro target r hrests
    by_cases hj : j = target
    · subst hj
      rwa [Function.update_self]
    · rw [Function.update_of_ne hj]
      exact .of_slots rfl rfl
  cases hmoves with
  | idle | opens | sends | fails | concludes => exact .inl (.of_slots rfl rfl)
  | @replies m available reply r hm hrecord =>
    by_cases hslot : m.request.slot = slot
    · by_cases hj : j = m.target
      · subst hj
        refine .inr ⟨m, available, reply, rfl, hm, rfl, hslot, ?_⟩
        rw [show (w.setRecorder m.target r).recorders m.target = r from Function.update_self ..]
        exact RecorderCore.record_shows hrecord
      · rw [show (w.setRecorder m.target r).recorders j = w.recorders j from Function.update_of_ne hj ..]
        exact .inl (.of_slots rfl rfl)
    · exact .inl (hcalled _ _ (RecorderCore.rests_record_other hrecord hslot))
  | refuses _ hrecord => exact .inl (hcalled _ _ (RecorderCore.rests_record_error hrecord))
  | informs target d => exact .inl (hcalled _ _ (RecorderCore.rests_informDecision d _))
  | prunes target through => exact .inl (hcalled _ _ (RecorderCore.rests_pruneThrough _ through slot))
  | installs target change => exact .inl (hcalled _ _ (RecorderCore.rests_installMembership change _))

end

structure Kept (w : World V) : Prop where
  sound : ∀ j, (w.recorders j).Sound
  begun : ∀ t ∈ w.invocations.map terms, ∃ p, t.1.begin t.2.1 = .ok (t.2.2, p)
  proposals : ∀ inv ∈ w.invocations, inv.proposal.valueIds ≠ []
  addressed : ∀ m ∈ w.sent, ∃ c, w.calls[m.invocation]? = some c ∧ m.target ∈ c.2.recorders ∧ m.request.slot = c.2.slot
  delivered : ∀ d ∈ w.deliveries, d.message ∈ w.sent
  answers : ∀ d ∈ w.deliveries,
    d.reply.Carries (fun p => p.valueIds ≠ []) (fun x => x.slot = d.message.request.slot ∧ x.valueIds ≠ []) ∧
      d.reply.summary.first.isSome = true
  held : ∀ d ∈ w.deliveries, d.message.request.slot ≤ (w.recorders d.message.target).prunedThrough ∨
    d.reply.summary.step ≤ ((w.recorders d.message.target).register d.message.request.slot).step

private theorem kept_opening {recorders : ReplicaId → RecorderCore V} (h : ∀ j, (recorders j).Sound) :
    (opening recorders).Kept where
  sound := h
  begun t ht := by cases ht
  proposals inv hinv := by cases hinv
  addressed m hm := by cases hm
  delivered d hd := by cases hd
  answers d hd := by cases hd
  held d hd := by cases hd

private theorem send_target {inv : Invocation V} {i : Nat} {draws : ReplicaId → Result Priority} {busy : List ReplicaId}
    {m : Message V} (hm : m ∈ (inv.send i draws busy).2) : m.target ∈ inv.call.recorders := by
  simp only [Invocation.send] at hm
  split_ifs at hm with hlimit
  · cases hm
  · cases hrequests : inv.requests draws with
    | error e =>
      rw [hrequests] at hm
      cases hm
    | ok requests =>
      rw [hrequests] at hm
      obtain ⟨r, hr, rfl⟩ := List.mem_map.mp hm
      obtain ⟨id, hid, hbuilt⟩ := mem_of_mapM_eq_ok hrequests (List.mem_of_mem_filter hr)
      simp only [except_bind_eq_ok, pure, Except.pure, Except.ok.injEq] at hbuilt
      obtain ⟨p, _, rfl⟩ := hbuilt
      exact hid

theorem calls_of_invocation {w : World V} {i : Nat} {inv : Invocation V} (hi : w.invocations[i]? = some inv) :
    w.calls[i]? = some (inv.proposer, inv.call) := by
  rw [calls, List.getElem?_map, hi]
  rfl

section
variable [DecidableEq V] {w : World V} {a : Action V}

private theorem addressed_step {m : Message V} (hm : m ∈ (w.step a).sent) : m ∈ w.sent ∨
    ∃ c, w.calls[m.invocation]? = some c ∧ m.target ∈ c.2.recorders ∧ m.request.slot = c.2.slot := by
  have hmoves := w.moves a
  generalize w.step a = w' at hmoves hm
  cases hmoves with
  | @sends i inv draws busy hi hready =>
    refine (List.mem_append.mp hm).imp_right fun hm => ?_
    have htarget := send_target hm
    rcases send_cases inv i draws busy with ⟨e, hsend⟩ | ⟨_, targets, messages, hsend, hall⟩
    · rw [hsend] at hm
      cases hm
    · rw [hsend] at hm
      obtain ⟨rfl, _, p, _, hrequest⟩ := hall m hm
      exact ⟨(inv.proposer, inv.call), calls_of_invocation hi, htarget, by rw [hrequest]⟩
  | idle | opens | replies | refuses | fails | concludes | informs | prunes | installs => exact .inl hm

private theorem sound_step (h : ∀ j, (w.recorders j).Sound) (a : Action V) (j : ReplicaId) :
    ((w.step a).recorders j).Sound := by
  rcases recorders_step w a j with hsame | ⟨op, happly, _⟩
  · rw [hsame]
    exact h j
  · rw [happly]
    exact RecorderCore.sound_apply _ op (h j)

private theorem begun_step (h : ∀ t ∈ w.invocations.map terms, ∃ p, t.1.begin t.2.1 = .ok (t.2.2, p)) (a : Action V) :
    ∀ t ∈ (w.step a).invocations.map terms, ∃ p, t.1.begin t.2.1 = .ok (t.2.2, p) := by
  intro t ht
  rcases terms_step w a with hsame | ⟨proposer, call, quorum, p, rfl, hbegin, hnew⟩
  · exact h t (hsame ▸ ht)
  · rw [hnew] at ht
    rcases List.mem_append.mp ht with ht | ht
    · exact h t ht
    · rw [List.mem_singleton.mp ht]
      exact ⟨p, hbegin⟩

private theorem Kept.proposals_step (h : w.Kept) (a : Action V) :
    ∀ inv ∈ (w.step a).invocations, inv.proposal.valueIds ≠ [] := by
  intro x hx
  have hmoves := w.moves a
  generalize w.step a = w' at hmoves hx
  cases hmoves with
  | opens hbegin =>
    rcases List.mem_append.mp hx with hx | hx
    · exact h.proposals x hx
    · rw [List.mem_singleton.mp hx]
      exact Proposer.begin_nonempty hbegin
  | @sends i inv draws busy hi hready =>
    rcases List.mem_or_eq_of_mem_set hx with hx | rfl
    · exact h.proposals x hx
    · have hold := h.proposals inv (List.mem_of_getElem? hi)
      rcases send_cases inv i draws busy with ⟨e, hsend⟩ | ⟨_, targets, messages, hsend, _⟩ <;> rw [hsend] <;>
        exact hold
  | @fails i inv targets arrivals e hi =>
    rcases List.mem_or_eq_of_mem_set hx with hx | rfl
    · exact h.proposals x hx
    · exact h.proposals inv (List.mem_of_getElem? hi)
  | @concludes i inv targets arrivals replies hi hwaiting hgenuine hcollect =>
    rcases List.mem_or_eq_of_mem_set hx with hx | rfl
    · exact h.proposals x hx
    have hold := h.proposals inv (List.mem_of_getElem? hi)
    simp only [Invocation.conclude]
    split
    · exact hold
    · exact hold
    · next step proposal hconclude =>
      refine (concludeStep_ok hconclude).proposal (P := fun p => p.valueIds ≠ []) (D := fun x => x.valueIds ≠ []) hold
        fun reply hr => ?_
      obtain ⟨d, hd, _, _, _, rfl⟩ := hgenuine.delivered ((Proposer.collectQuorum_ok hcollect).2.collected reply hr)
      exact (h.answers d hd).1.mono (fun _ hp => hp) fun _ hx => hx.2
  | idle | replies | refuses | informs | prunes | installs => exact h.proposals x hx

/-- What a reply reported is still in the register, until the slot is pruned. -/
theorem Kept.held_step (h : w.Kept) {d : Delivery V} (hd : d ∈ w.deliveries) (a : Action V) :
    d.message.request.slot ≤ ((w.step a).recorders d.message.target).prunedThrough ∨
      d.reply.summary.step ≤ (((w.step a).recorders d.message.target).register d.message.request.slot).step := by
  rcases h.held d hd with hpruned | hheld
  · left
    rcases register_step w a d.message.target d.message.request.slot with hrests | ⟨_, _, _, _, _, _, _, hshows⟩
    · exact hpruned.trans hrests.1
    · exact hpruned.trans (le_of_eq hshows.floor.symm)
  · rcases register_step w a d.message.target d.message.request.slot with
      ⟨_, hsame | ⟨_, hpruned⟩⟩ | ⟨m, _, _, _, _, _, hslot, hshows⟩
    · exact .inr (hsame ▸ hheld)
    · exact .inl hpruned
    · right
      rw [← hslot, hshows.register, IntervalSummaryRegister.advance_step, hslot]
      exact hheld.trans (le_max_left _ _)

theorem Kept.step (h : w.Kept) (a : Action V) : (w.step a).Kept where
  sound := sound_step h.sound a
  begun := begun_step h.begun a
  proposals := h.proposals_step a
  addressed m hm := by
    have hc : ∃ c, w.calls[m.invocation]? = some c ∧ m.target ∈ c.2.recorders ∧ m.request.slot = c.2.slot :=
      (addressed_step hm).elim (h.addressed m) id
    obtain ⟨c, hc, haddressed⟩ := hc
    exact ⟨c, calls_getElem hc a, haddressed⟩
  delivered d hd := by
    obtain ⟨messages, hsent, _⟩ := sent_step w a
    rw [hsent]
    rcases replied_step hd with hd | ⟨_, _, hm, _⟩
    · exact List.mem_append_left _ (h.delivered d hd)
    · exact List.mem_append_left _ hm
  answers d hd := by
    rcases replied_step hd with hd | ⟨_, _, _, hrecord⟩
    · exact h.answers d hd
    · exact (h.sound _).answers hrecord
  held d hd := by
    rcases replied_step hd with hd | ⟨_, _, _, hrecord⟩
    · exact h.held_step hd a
    · right
      rw [(RecorderCore.record_shows hrecord).summary]
      exact le_refl _

theorem kept_run {recorders : ReplicaId → RecorderCore V} (h : ∀ j, (recorders j).Sound) (actions : List (Action V)) :
    (run World.step (opening recorders) actions).Kept :=
  run_invariant_all (fun _ a h => h.step a) (kept_opening h) actions

end
end World
end QuePaxa
