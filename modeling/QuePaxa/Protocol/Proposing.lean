import QuePaxa.Protocol.Consistency
import QuePaxa.Protocol.Effects

/-! Proposers starting, sending and concluding steps keep the invariant: each turn of
the loop is a move of the abstract rounds, justified by the quorum it collected. -/
namespace QuePaxa
open Library
variable {V : Type}

namespace World
variable {C : ClusterIdentity} {slot : SlotIndex} {w : World V}

def update (w : World V) (i : Nat) (inv : Invocation V) (messages : List (Message V))
    (collected : List (Nat × List (RecordReply V))) : World V :=
  { w with invocations := w.invocations.set i inv, sent := w.sent ++ messages, collected }

section
variable {i : Nat} {inv inv' : Invocation V} {messages : List (Message V)}
  {collected : List (Nat × List (RecordReply V))}

private theorem later_update (hi : w.invocations[i]? = some inv) (hprop : inv'.proposer = inv.proposer)
    (hcall : inv'.call = inv.call) (hopen : ∀ r, inv.progress ≠ .returned r) :
    w.Later (w.update i inv' messages collected) := by
  refine ⟨fun x hx => ?_, [], (List.append_nil _).symm⟩
  obtain ⟨k, hk⟩ := List.mem_iff_getElem?.mp hx
  by_cases hki : k = i
  · subst hki
    rw [hi] at hk
    cases hk
    have hlen := (List.getElem?_eq_some_iff.mp hi).1
    refine ⟨inv', List.mem_iff_getElem?.mpr ⟨k, List.getElem?_set_self hlen⟩, hprop, hcall, fun r hr => ?_⟩
    exact absurd hr (hopen r)
  · refine ⟨x, List.mem_iff_getElem?.mpr ⟨k, ?_⟩, rfl, rfl, fun _ h => h⟩
    exact (List.getElem?_set_ne (Ne.symm hki)).trans hk

/-- A turn keeps the invariant if its new state and messages are justified. -/
theorem Consistent.update (h : w.Consistent C slot) (hi : w.invocations[i]? = some inv)
    (hprop : inv'.proposer = inv.proposer) (hcall : inv'.call = inv.call)
    (hopen : ∀ r, inv.progress ≠ .returned r)
    (hres : ∀ d, inv'.progress = .returned (.ok d) → d.slot = inv'.call.slot)
    (hrun : inv'.call.slot = slot → w.Running C slot inv')
    (hmsg : ∀ m ∈ messages, m.invocation = i ∧ (m.request.slot = slot → w.Sent C slot m) ∧
      ∀ d ∈ m.request.knownDecisions, d.slot = slot → w.Returned d)
    (hcur : ∀ m ∈ w.sent ++ messages, m.invocation = i → Current inv' m) :
    (w.update i inv' messages collected).Consistent C slot := by
  have hl : w.Later (w.update i inv' messages collected) := later_update hi hprop hcall hopen
  have hg : (w.rounds C slot).Grows ((w.update i inv' messages collected).rounds C slot) :=
    hl.grows_of_deliveries rfl
  have hlen := (List.getElem?_eq_some_iff.mp hi).1
  have hsize : (w.update i inv' messages collected).invocations.length = w.invocations.length :=
    List.length_set ..
  have hmem : ∀ x ∈ (w.update i inv' messages collected).invocations, x = inv' ∨ x ∈ w.invocations :=
    fun x hx => (List.mem_or_eq_of_mem_set hx).symm
  refine ⟨fun j => (h.recorders j).mono hl rfl, h.bound, ?_, ?_, ?_, ?_, ?_, ?_, ?_, ?_, ?_⟩
  · exact fun d hd => List.mem_append_left _ (h.delivered d hd)
  · exact fun d hd hslot => (h.answered d hd hslot).mono hl fun _ => History.Extends.refl _
  · intro m hm hslot
    rcases List.mem_append.mp hm with hm | hm
    · exact (h.sent m hm hslot).mono hl hg
    · exact ((hmsg m hm).2.1 hslot).mono hl hg
  · intro m hm d hd hslot
    rcases List.mem_append.mp hm with hm | hm
    · exact hl.returned (h.known m hm d hd hslot)
    · exact hl.returned ((hmsg m hm).2.2 d hd hslot)
  · intro m hm
    rw [hsize]
    rcases List.mem_append.mp hm with hm | hm
    · exact h.index m hm
    · rw [(hmsg m hm).1]; exact hlen
  · intro k x hx m hm hk
    by_cases hki : k = i
    · subst hki
      have hset : (w.update k inv' messages collected).invocations[k]? = some inv' :=
        List.getElem?_set_self hlen
      rw [hset] at hx
      cases hx
      exact hcur m hm hk
    · have hset : (w.update i inv' messages collected).invocations[k]? = w.invocations[k]? :=
        List.getElem?_set_ne (Ne.symm hki)
      rw [hset] at hx
      rcases List.mem_append.mp hm with hm | hm
      · exact h.current k x hx m hm hk
      · exact absurd (hk.symm.trans (hmsg m hm).1) hki
  · intro x hx hslot
    rcases hmem x hx with rfl | hx
    · exact (hrun hslot).mono hl hg
    · exact (h.running x hx hslot).mono hl hg
  · intro x hx d hd hslot
    rcases hmem x hx with rfl | hx
    · rw [hcall] at hd
      exact hl.returned (h.calls inv (List.mem_of_getElem? hi) d hd hslot)
    · exact hl.returned (h.calls x hx d hd hslot)
  · intro x hx d hd
    rcases hmem x hx with rfl | hx
    · exact hres d hd
    · exact h.results x hx d hd

theorem Current.finish {m : Message V} (h : Current inv m) (r : Result (Decision V)) : Current (inv.finish r) m :=
  ⟨h.slot, h.leader, h.iteration, fun heq => ⟨by simp [Invocation.finish], (h.latest heq).2⟩⟩

theorem Consistent.fail (h : w.Consistent C slot) (hi : w.invocations[i]? = some inv)
    (hopen : ∀ r, inv.progress ≠ .returned r) (e : QuePaxaError) :
    (w.update i (inv.finish (.error e)) [] collected).Consistent C slot := by
  refine h.update hi rfl rfl hopen (fun d hd => by cases hd) (fun hslot => ?_) (by simp) ?_
  · have hr := h.running inv (List.mem_of_getElem? hi) hslot
    refine ⟨hr.cluster, hr.held, hr.authentic, hr.low, hr.high, hr.first, fun d hd => ?_⟩
    cases hd
  · intro m hm hmi
    rw [List.append_nil] at hm
    exact (h.current i inv hi m hm hmi).finish _

end

/-! Starting and sending. -/

theorem Consistent.start [DecidableEq V] (h : w.Consistent C slot) {proposer : Proposer} {call : ProposeCall V}
    (hcluster : call.slot = slot → proposer.cluster = some C)
    (hknown : ∀ d ∈ call.knownDecisions, d.slot = slot → w.Returned d) :
    (w.step (.start proposer call)).Consistent C slot := by
  rcases start_cases w proposer call with hsame | ⟨quorum, _, _, heq⟩
  · rw [hsame]
    exact h
  · rw [heq]
    set inv : Invocation V := .opened proposer call quorum with hinv
    set w' : World V := { w with invocations := w.invocations ++ [inv] } with hw'
    have hnew : inv ∈ w'.invocations := List.mem_append_right _ (List.mem_singleton_self _)
    have hl : w.Later w' := by
      refine ⟨fun x hx => ⟨x, List.mem_append_left _ hx, rfl, rfl, fun _ h => h⟩, [], ?_⟩
      exact (List.append_nil _).symm
    have hg : (w.rounds C slot).Grows (w'.rounds C slot) := hl.grows_of_deliveries rfl
    refine ⟨fun j => (h.recorders j).mono hl rfl, h.bound, h.delivered, ?_, ?_, ?_, ?_, ?_, ?_, ?_, ?_⟩
    · exact fun d hd hslot => (h.answered d hd hslot).mono hl fun _ => History.Extends.refl _
    · exact fun m hm hslot => (h.sent m hm hslot).mono hl hg
    · exact fun m hm d hd hslot => hl.returned (h.known m hm d hd hslot)
    · intro m hm
      have hlen : w'.invocations.length = w.invocations.length + 1 := List.length_append
      rw [hlen]
      exact Nat.lt_succ_of_lt (h.index m hm)
    · intro k x hx m hm hk
      have hlt := h.index m hm
      rw [hk] at hlt
      have hold : w'.invocations[k]? = w.invocations[k]? := List.getElem?_append_left hlt
      rw [hold] at hx
      exact h.current k x hx m hm hk
    · intro x hx hslot
      rcases List.mem_append.mp hx with hx | hx
      · exact (h.running x hx hslot).mono hl hg
      · rw [List.mem_singleton.mp hx] at hslot ⊢
        have hentered : (w'.rounds C slot).Entered 4 inv.proposal := .start ⟨inv, hnew, hslot, rfl⟩
        refine ⟨hcluster hslot, ⟨_, hentered, rfl, fun _ => rfl⟩, ⟨inv, hnew, hslot, rfl, rfl⟩, le_refl _,
          show 4 ≤ u64Max by decide, fun _ => rfl, fun d hd => ?_⟩
        cases hd
    · intro x hx d hd hslot
      rcases List.mem_append.mp hx with hx | hx
      · exact hl.returned (h.calls x hx d hd hslot)
      · rw [List.mem_singleton.mp hx] at hd
        exact hl.returned (hknown d hd hslot)
    · intro x hx d hd
      rcases List.mem_append.mp hx with hx | hx
      · exact h.results x hx d hd
      · rw [List.mem_singleton.mp hx] at hd
        cases hd

theorem known_subset {proposer : Proposer} {call : ProposeCall V} {iteration : Nat} {d : Decision V}
    (h : d ∈ proposer.known call iteration) : d ∈ call.knownDecisions := by
  cases proposer with
  | blocking core =>
    simp only [Proposer.known] at h
    split_ifs at h
    · exact h
    · cases h
  | async core => cases h

/-- A request of the present step is justified by the proposal its invocation holds. -/
private theorem Running.sent {inv : Invocation V} (hr : w.Running C slot inv) (hinv : inv ∈ w.invocations)
    (hslot : inv.call.slot = slot) {draw : Result Priority} {p : Proposal V}
    (hdraw : ∀ q, draw = .ok q → q < Priority.max)
    (hp : proposalFor inv.proposer.replicaId inv.call.leader inv.step inv.proposal draw = .ok p)
    {m : Message V} {known : List (Decision V)}
    (hm : m.request = ⟨inv.proposer.replicaId, inv.call.slot, inv.call.leader, inv.step, p, known⟩) :
    w.Sent C slot m := by
  obtain ⟨q, hq, hval, heq⟩ := hr.held
  obtain ⟨x, hx, hxs, horigin, hvalues⟩ := hr.authentic
  have hstep : m.request.step = inv.step := by rw [hm]
  have hprop : m.request.proposal = p := by rw [hm]
  rcases proposalFor_ok hp with ⟨hphase, priority, hpr, rfl⟩ | ⟨rfl, hleader⟩
  · refine ⟨?_, ?_, ?_, ?_, fun _ => .inl ?_⟩
    · rw [hstep, hprop]
      exact ⟨q, hq, hval, fun hne => absurd hphase hne⟩
    · rw [hprop]
      exact ⟨x, hx, hxs, horigin, hvalues⟩
    · rw [hstep]; exact hr.low
    · rw [hstep]; exact hr.high
    · rw [hprop]
      exact hdraw priority hpr
  · refine ⟨?_, ?_, ?_, ?_, fun hfirst => .inr ?_⟩
    · rw [hstep, hprop]
      exact ⟨q, hq, hval, heq⟩
    · rw [hprop]
      exact ⟨x, hx, hxs, horigin, hvalues⟩
    · rw [hstep]; exact hr.low
    · rw [hstep]; exact hr.high
    · rw [hstep] at hfirst
      refine ⟨inv, hinv, hslot, ?_, hleader hfirst, by rw [hm]⟩
      rw [hprop]
      exact hr.first hfirst

/-- The loop head: the priorities drawn stay below the reserved one. -/
theorem Consistent.send [DecidableEq V] (h : w.Consistent C slot) {i : Nat} {draws : ReplicaId → Result Priority}
    (hdraws : ∀ id q, draws id = .ok q → q < Priority.max) (busy : List ReplicaId) :
    (w.step (.send i draws busy)).Consistent C slot := by
  have hmoves := w.moves (.send i draws busy)
  generalize w.step (.send i draws busy) = w' at hmoves ⊢
  cases hmoves with
  | idle => exact h
  | @sends _ inv _ _ hi hready =>
    have hopen : ∀ r, inv.progress ≠ .returned r := by simp [hready]
    rcases send_cases inv i draws busy with ⟨e, hsend⟩ | ⟨_, targets, messages, hsend, hall⟩
    · rw [hsend]
      exact h.fail hi hopen e
    · rw [hsend]
      have hmem : inv ∈ w.invocations := List.mem_of_getElem? hi
      refine h.update hi rfl rfl hopen (fun d hd => by cases hd) (fun hslot => ?_) (fun m hm => ?_) (fun m hm hmi => ?_)
      · have hr := h.running inv hmem hslot
        refine ⟨hr.cluster, hr.held, hr.authentic, hr.low, hr.high, hr.first, fun d hd => ?_⟩
        cases hd
      · obtain ⟨hmi, _, p, hprop, hrequest⟩ := hall m hm
        refine ⟨hmi, fun hslot => ?_, fun d hd hslot => ?_⟩
        · have hs : inv.call.slot = slot := by rw [← hslot, hrequest]
          exact (h.running inv hmem hs).sent hmem hs (hdraws m.target) hprop hrequest
        · rw [hrequest] at hd
          exact h.calls inv hmem d (known_subset hd) hslot
      · rcases List.mem_append.mp hm with hm | hm
        · obtain ⟨hs, hlead, hit, hlat⟩ := h.current i inv hi m hm hmi
          exact ⟨hs, hlead, hit, fun heq => absurd hready (hlat heq).1⟩
        · obtain ⟨_, hiteration, p, hprop, hrequest⟩ := hall m hm
          refine ⟨by
            rw [hrequest], by rw [hrequest], hiteration.le, fun _ => ⟨by simp, by rw [hrequest], fun hph => ?_⟩⟩
          rcases proposalFor_ok hprop with ⟨h0, _⟩ | ⟨rfl, _⟩
          · exact absurd h0 hph
          · rw [hrequest]

end World
end QuePaxa
