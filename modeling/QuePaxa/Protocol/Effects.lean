import QuePaxa.Core.ProposerSpec
import QuePaxa.Core.RecorderSpec
import QuePaxa.Protocol.World

/-! What an action can add to the log of a world, whoever acts. -/
namespace QuePaxa
open Library
variable {V : Type}

theorem Proposer.collectQuorum_ok {p : Proposer} {quorum launched : Nat} {arrivals : List (Arrival V)}
    {replies : List (RecordReply V)} (h : p.collectQuorum quorum launched arrivals = .ok replies) :
    quorumReached replies quorum p.cluster = true ∧ Gathered p.cluster arrivals replies := by
  cases p with
  | blocking core => exact ProposerCore.collectQuorum_ok h
  | async core => exact AsyncProposerCore.collectQuorum_ok h

def Invocation.opened (proposer : Proposer) (call : ProposeCall V) (quorum : Nat) : Invocation V :=
  ⟨proposer, call, quorum, Step.roundOnePhaseZero, ⟨⟨Priority.max, proposer.replicaId, proposer.laneId⟩, call.valueIds⟩,
    0, .ready⟩

namespace World

private theorem begin_ok {proposer : Proposer} {call : ProposeCall V} {quorum : Nat} {p : Proposal V}
    (h : proposer.begin call = .ok (quorum, p)) :
    p = ⟨⟨Priority.max, proposer.replicaId, proposer.laneId⟩, call.valueIds⟩ := by
  cases proposer with
  | blocking core => exact ProposerCore.begin_ok h
  | async core => exact AsyncProposerCore.begin_ok h

inductive Moves [DecidableEq V] (w : World V) : Action V → World V → Prop
  | idle (a : Action V) : w.Moves a w
  | opens {proposer : Proposer} {call : ProposeCall V} {quorum : Nat} {p : Proposal V}
      (hbegin : proposer.begin call = .ok (quorum, p)) :
      w.Moves (.start proposer call) { w with invocations := w.invocations ++ [.opened proposer call quorum] }
  | sends {i : Nat} {inv : Invocation V} (draws : ReplicaId → Result Priority) (busy : List ReplicaId)
      (hi : w.invocations[i]? = some inv) (hready : inv.progress = .ready) :
      w.Moves (.send i draws busy)
        { w with
          invocations := w.invocations.set i (inv.send i draws busy).1
          sent := w.sent ++ (inv.send i draws busy).2 }
  | replies {m : Message V} {available : Availability V} {reply : RecordReply V} {r : RecorderCore V}
      (hm : m ∈ w.sent) (hrecord : RecorderCore.record available m.request (w.recorders m.target) = .ok reply r) :
      w.Moves (.deliver m available) { w.setRecorder m.target r with deliveries := w.deliveries ++ [⟨m, reply⟩] }
  | refuses {m : Message V} {available : Availability V} {e : QuePaxaError} {r : RecorderCore V}
      (hm : m ∈ w.sent) (hrecord : RecorderCore.record available m.request (w.recorders m.target) = .error e r) :
      w.Moves (.deliver m available) (w.setRecorder m.target r)
  | fails {i : Nat} {inv : Invocation V} {targets : List ReplicaId} {arrivals : List (Arrival V)} {e : QuePaxaError}
      (hi : w.invocations[i]? = some inv) (hwaiting : inv.progress = .waiting targets)
      (hgenuine : w.Genuine i inv.iteration targets arrivals)
      (hcollect : inv.proposer.collectQuorum inv.quorum targets.length arrivals = .error e) :
      w.Moves (.collect i arrivals) { w with invocations := w.invocations.set i (inv.finish (.error e)) }
  | concludes {i : Nat} {inv : Invocation V} {targets : List ReplicaId} {arrivals : List (Arrival V)}
      {replies : List (RecordReply V)} (hi : w.invocations[i]? = some inv) (hwaiting : inv.progress = .waiting targets)
      (hgenuine : w.Genuine i inv.iteration targets arrivals)
      (hcollect : inv.proposer.collectQuorum inv.quorum targets.length arrivals = .ok replies) :
      w.Moves (.collect i arrivals)
        { w with
          invocations := w.invocations.set i (inv.conclude replies)
          collected := w.collected ++ [(i, replies)] }
  | informs (target : ReplicaId) (d : Decision V) : w.Moves (.inform target d)
      (w.setRecorder target (after (RecorderCore.informDecision d) (w.recorders target)))
  | prunes (target : ReplicaId) (slot : SlotIndex) : w.Moves (.prune target slot)
      (w.setRecorder target ((w.recorders target).pruneThrough slot))
  | installs (target : ReplicaId) (change : MembershipChange V) : w.Moves (.install target change)
      (w.setRecorder target (after (RecorderCore.installMembership change) (w.recorders target)))

theorem moves [DecidableEq V] (w : World V) (a : Action V) : w.Moves a (w.step a) := by
  cases a with
  | start proposer call =>
    simp only [World.step]
    cases hbegin : proposer.begin call with
    | error e => exact .idle _
    | ok started =>
      obtain ⟨quorum, p⟩ := started
      obtain rfl := begin_ok hbegin
      exact .opens hbegin
  | send i draws busy =>
    simp only [World.step]
    split
    · next inv hi =>
      split
      · next hready => exact .sends draws busy hi hready
      · exact .idle _
    · exact .idle _
  | deliver m available =>
    simp only [World.step]
    split_ifs with hm
    · split
      · next reply r hrecord => exact .replies hm hrecord
      · next e r hrecord => exact .refuses hm hrecord
    · exact .idle _
  | collect i arrivals =>
    simp only [World.step]
    split
    · next inv hi =>
      split
      · next targets hwaiting =>
        split_ifs with hgenuine
        · split
          · next e hcollect => exact .fails hi hwaiting hgenuine hcollect
          · next replies hcollect => exact .concludes hi hwaiting hgenuine hcollect
        · exact .idle _
      · exact .idle _
    · exact .idle _
  | inform target d => exact .informs target d
  | prune target slot => exact .prunes target slot
  | install target change => exact .installs target change

theorem start_cases [DecidableEq V] (w : World V) (proposer : Proposer) (call : ProposeCall V) :
    w.step (.start proposer call) = w ∨ ∃ quorum p, proposer.begin call = .ok (quorum, p) ∧
      w.step (.start proposer call) = { w with invocations := w.invocations ++ [.opened proposer call quorum] } := by
  have hmoves := w.moves (.start proposer call)
  generalize w.step (.start proposer call) = w' at hmoves ⊢
  cases hmoves with
  | idle => exact .inl rfl
  | opens hbegin => exact .inr ⟨_, _, hbegin, rfl⟩

/-- A collected reply was delivered in the present iteration. -/
theorem Genuine.delivered [DecidableEq V] {w : World V} {i iteration : Nat} {targets : List ReplicaId}
    {arrivals : List (Arrival V)} (hg : w.Genuine i iteration targets arrivals) {cluster : Option ClusterIdentity}
    {reply : RecordReply V} (hc : Collected cluster arrivals reply) :
    ∃ d ∈ w.deliveries, d.message.invocation = i ∧ d.message.iteration = iteration ∧
      d.message.target = reply.recorder ∧ d.reply = reply := by
  have hpossible := hg.2 _ hc.arrived
  simp only [World.possible, decide_eq_true_eq] at hpossible
  exact hpossible.2

def terms (inv : Invocation V) : Proposer × ProposeCall V × Nat := (inv.proposer, inv.call, inv.quorum)

def calls (w : World V) : List (Proposer × ProposeCall V) := w.invocations.map fun inv => (inv.proposer, inv.call)

theorem calls_opened (w : World V) (proposer : Proposer) (call : ProposeCall V) (quorum : Nat) :
    ({ w with invocations := w.invocations ++ [.opened proposer call quorum] } : World V).calls = w.calls ++
      [(proposer, call)] := by
  rw [calls, List.map_append, List.map_singleton]
  rfl

private theorem calls_eq_terms (w : World V) : w.calls = (w.invocations.map terms).map fun t => (t.1, t.2.1) := by
  rw [List.map_map]
  rfl

theorem map_set_same {α β : Type} {f : α → β} {l : List α} {i : Nat} {x x' : α} (hi : l[i]? = some x)
    (h : f x' = f x) : (l.set i x').map f = l.map f := by
  apply List.ext_getElem?
  intro k
  by_cases hk : i = k
  · subst hk
    have hlen := (List.getElem?_eq_some_iff.mp hi).1
    rw [List.getElem?_map, List.getElem?_map, List.getElem?_set_self hlen, hi]
    simp only [Option.map_some, h]
  · rw [List.getElem?_map, List.getElem?_map, List.getElem?_set_ne hk]

/-- The loop head stops the invocation, or it waits for the requests of its step. -/
theorem send_cases (inv : Invocation V) (i : Nat) (draws : ReplicaId → Result Priority) (busy : List ReplicaId) :
    (∃ e, inv.send i draws busy = (inv.finish (.error e), [])) ∨
    (inv.step ≤ inv.proposer.maxSteps ∧ ∃ targets messages,
      inv.send i draws busy = ({ inv with progress := .waiting targets }, messages) ∧
      ∀ m ∈ messages, m.invocation = i ∧ m.iteration = inv.iteration ∧
        ∃ p, proposalFor inv.proposer.replicaId inv.call.leader inv.step inv.proposal (draws m.target) = .ok p ∧
          m.request = ⟨inv.proposer.replicaId, inv.call.slot, inv.call.leader, inv.step, p,
            inv.proposer.known inv.call inv.iteration⟩) := by
  simp only [Invocation.send]
  split_ifs with hlimit
  · exact .inl ⟨_, rfl⟩
  · cases hreq : inv.requests draws with
    | error e => exact .inl ⟨e, rfl⟩
    | ok requests =>
      refine .inr ⟨not_lt.mp hlimit, _, _, rfl, fun m hm => ?_⟩
      obtain ⟨r, hr, rfl⟩ := List.mem_map.mp hm
      exact ⟨rfl, rfl, stepRequests_ok hreq (List.mem_of_mem_filter hr)⟩

private theorem send_terms (inv : Invocation V) (i : Nat) (draws : ReplicaId → Result Priority)
    (busy : List ReplicaId) : terms (inv.send i draws busy).1 = terms inv := by
  rcases send_cases inv i draws busy with ⟨e, hsend⟩ | ⟨_, targets, messages, hsend, _⟩ <;> rw [hsend] <;> rfl

section
variable [DecidableEq V]

private theorem conclude_terms (inv : Invocation V) (replies : List (RecordReply V)) :
    terms (inv.conclude replies) = terms inv := by
  simp only [Invocation.conclude]
  split <;> rfl

theorem terms_step (w : World V) (a : Action V) : (w.step a).invocations.map terms = w.invocations.map terms ∨
    ∃ proposer call quorum p, a = .start proposer call ∧ proposer.begin call = .ok (quorum, p) ∧
      (w.step a).invocations.map terms = w.invocations.map terms ++ [(proposer, call, quorum)] := by
  have hmoves := w.moves a
  generalize w.step a = w' at hmoves ⊢
  cases hmoves with
  | opens hbegin =>
    refine .inr ⟨_, _, _, _, rfl, hbegin, ?_⟩
    rw [List.map_append, List.map_singleton]
    rfl
  | sends draws busy hi hready => exact .inl (map_set_same hi (send_terms _ _ draws busy))
  | fails hi => exact .inl (map_set_same hi rfl)
  | concludes hi => exact .inl (map_set_same hi (conclude_terms _ _))
  | idle | replies | refuses | informs | prunes | installs => exact .inl rfl

theorem calls_step (w : World V) (a : Action V) : (w.step a).calls = w.calls ∨
    ∃ proposer call, a = .start proposer call ∧ (w.step a).calls = w.calls ++ [(proposer, call)] := by
  simp only [calls_eq_terms]
  rcases terms_step w a with hsame | ⟨proposer, call, quorum, p, rfl, _, hnew⟩
  · exact .inl (by rw [hsame])
  · exact .inr ⟨proposer, call, rfl, by rw [hnew, List.map_append, List.map_singleton]⟩

theorem calls_subset (w : World V) (a : Action V) : ∀ c ∈ w.calls, c ∈ (w.step a).calls := by
  intro c hc
  rcases calls_step w a with hsame | ⟨proposer, call, _, hnew⟩
  · exact hsame ▸ hc
  · exact hnew ▸ List.mem_append_left _ hc

theorem calls_getElem {w : World V} {i : Nat} {c : Proposer × ProposeCall V} (h : w.calls[i]? = some c)
    (a : Action V) : (w.step a).calls[i]? = some c := by
  rcases calls_step w a with hsame | ⟨proposer, call, _, hnew⟩
  · rwa [hsame]
  · have hlen := (List.getElem?_eq_some_iff.mp h).1
    rw [hnew, List.getElem?_append_left hlen]
    exact h

inductive Turn (w : World V) (i : Nat) (inv : Invocation V) : Action V → Invocation V → Prop
  | rests (a : Action V) : Turn w i inv a inv
  | sends (draws : ReplicaId → Result Priority) (busy : List ReplicaId) (hready : inv.progress = .ready) :
      Turn w i inv (.send i draws busy) (inv.send i draws busy).1
  | fails {targets : List ReplicaId} {arrivals : List (Arrival V)} {e : QuePaxaError}
      (hwaiting : inv.progress = .waiting targets) (hgenuine : w.Genuine i inv.iteration targets arrivals)
      (hcollect : inv.proposer.collectQuorum inv.quorum targets.length arrivals = .error e) :
      Turn w i inv (.collect i arrivals) (inv.finish (.error e))
  | concludes {targets : List ReplicaId} {arrivals : List (Arrival V)} {replies : List (RecordReply V)}
      (hwaiting : inv.progress = .waiting targets) (hgenuine : w.Genuine i inv.iteration targets arrivals)
      (hcollect : inv.proposer.collectQuorum inv.quorum targets.length arrivals = .ok replies) :
      Turn w i inv (.collect i arrivals) (inv.conclude replies)

private theorem turn_set {w : World V} {a : Action V} {i k : Nat} {inv x x' : Invocation V}
    (hi : w.invocations[i]? = some inv)
    (hk : w.invocations[k]? = some x) (hturn : Turn w k x a x') :
    ∃ inv', (w.invocations.set k x')[i]? = some inv' ∧ Turn w i inv a inv' := by
  by_cases hki : k = i
  · subst hki
    rw [hi] at hk
    cases hk
    exact ⟨x', List.getElem?_set_self (List.getElem?_eq_some_iff.mp hi).1, hturn⟩
  · exact ⟨inv, (List.getElem?_set_ne hki).trans hi, .rests a⟩

theorem turn_step (w : World V) (a : Action V) {i : Nat} {inv : Invocation V} (hi : w.invocations[i]? = some inv) :
    ∃ inv', (w.step a).invocations[i]? = some inv' ∧ Turn w i inv a inv' := by
  have hmoves := w.moves a
  generalize w.step a = w' at hmoves ⊢
  cases hmoves with
  | opens hbegin =>
    have hlen := (List.getElem?_eq_some_iff.mp hi).1
    exact ⟨inv, (List.getElem?_append_left hlen).trans hi, .rests _⟩
  | sends draws busy hk hready => exact turn_set hi hk (.sends draws busy hready)
  | fails hk hwaiting hgenuine hcollect => exact turn_set hi hk (.fails hwaiting hgenuine hcollect)
  | concludes hk hwaiting hgenuine hcollect => exact turn_set hi hk (.concludes hwaiting hgenuine hcollect)
  | idle | replies | refuses | informs | prunes | installs => exact ⟨inv, hi, .rests _⟩

theorem sent_turn (w : World V) (a : Action V) {m : Message V} (hm : m ∈ (w.step a).sent) : m ∈ w.sent ∨
    ∃ inv targets p, ∃ draws : ReplicaId → Result Priority, w.invocations[m.invocation]? = some inv ∧
      inv.progress = .ready ∧
      (w.step a).invocations[m.invocation]? = some { inv with progress := .waiting targets } ∧
      m.iteration = inv.iteration ∧
      proposalFor inv.proposer.replicaId inv.call.leader inv.step inv.proposal (draws m.target) = .ok p ∧
      m.request = ⟨inv.proposer.replicaId, inv.call.slot, inv.call.leader, inv.step, p,
        inv.proposer.known inv.call inv.iteration⟩ := by
  have hmoves := w.moves a
  generalize w.step a = w' at hmoves hm ⊢
  cases hmoves with
  | @sends i inv draws busy hi hready =>
    refine (List.mem_append.mp hm).imp_right fun hm => ?_
    have hlen := (List.getElem?_eq_some_iff.mp hi).1
    rcases send_cases inv i draws busy with ⟨e, hsend⟩ | ⟨_, targets, messages, hsend, hall⟩
    · rw [hsend] at hm
      cases hm
    · rw [hsend] at hm ⊢
      obtain ⟨rfl, hiteration, p, hp, hrequest⟩ := hall m hm
      exact ⟨inv, targets, p, draws, hi, hready, List.getElem?_set_self hlen, hiteration, hp, hrequest⟩
  | idle | opens | replies | refuses | fails | concludes | informs | prunes | installs => exact .inl hm

/-- A recorder changes only by serving a call; an install must be the action itself. -/
theorem recorders_step (w : World V) (a : Action V) (j : ReplicaId) :
    (w.step a).recorders j = w.recorders j ∨ ∃ op : RecorderOp V,
      (w.step a).recorders j = op.apply (w.recorders j) ∧
        ∀ change, op = .installMembership change → a = .install j change := by
  have hmoves := w.moves a
  generalize w.step a = w' at hmoves ⊢
  -- only the recorder that is called changes, as the operation says
  have hserved : ∀ (target : ReplicaId) (op : RecorderOp V) (r : RecorderCore V), op.apply (w.recorders target) = r →
      (∀ change, op = .installMembership change → a = .install target change) →
      Function.update w.recorders target r j = w.recorders j ∨ ∃ op : RecorderOp V,
        Function.update w.recorders target r j = op.apply (w.recorders j) ∧
          ∀ change, op = .installMembership change → a = .install j change := by
    rintro target op r rfl hinstall
    by_cases hj : j = target
    · subst hj
      exact .inr ⟨op, Function.update_self .., hinstall⟩
    · exact .inl (Function.update_of_ne hj ..)
  cases hmoves with
  | idle | opens | sends | fails | concludes => exact .inl rfl
  | @replies m available reply r _ hrecord =>
    refine hserved m.target (.record available m.request) r ?_ (fun _ h => by cases h)
    exact (after_bind_pure _ _ _).trans (after_ok hrecord)
  | @refuses m available e r _ hrecord =>
    refine hserved m.target (.record available m.request) r ?_ (fun _ h => by cases h)
    exact (after_bind_pure _ _ _).trans (after_error hrecord)
  | informs target d => exact hserved target (.informDecision d) _ (after_bind_pure _ _ _) (fun _ h => by cases h)
  | prunes target slot => exact hserved target (.pruneThrough slot) _ rfl (fun _ h => by cases h)
  | installs target change =>
    refine hserved target (.installMembership change) _ ?_ (fun _ h => by cases h; rfl)
    exact RecorderCore.apply_installMembership change _

/-- A delivery records the reply of the call it made. -/
theorem deliveries_step (w : World V) (a : Action V) : (w.step a).deliveries = w.deliveries ∨
    ∃ m available reply r, m ∈ w.sent ∧
      RecorderCore.record available m.request (w.recorders m.target) = .ok reply r ∧
      (w.step a).deliveries = w.deliveries ++ [⟨m, reply⟩] ∧ (w.step a).recorders m.target = r := by
  have hmoves := w.moves a
  generalize w.step a = w' at hmoves ⊢
  cases hmoves with
  | replies hm hrecord => exact .inr ⟨_, _, _, _, hm, hrecord, rfl, Function.update_self ..⟩
  | idle | opens | sends | refuses | fails | concludes | informs | prunes | installs => exact .inl rfl

theorem sent_step (w : World V) (a : Action V) : ∃ messages, (w.step a).sent = w.sent ++ messages ∧
    ∀ m ∈ messages, ∃ c, w.calls[m.invocation]? = some c ∧ m.request.slot = c.2.slot := by
  have hmoves := w.moves a
  generalize w.step a = w' at hmoves ⊢
  cases hmoves with
  | @sends i inv draws busy hi hready =>
    refine ⟨_, rfl, fun m hm => ?_⟩
    rcases send_cases inv i draws busy with ⟨e, hsend⟩ | ⟨_, targets, messages, hsend, hall⟩
    · rw [hsend] at hm
      cases hm
    · rw [hsend] at hm
      obtain ⟨rfl, _, p, _, hrequest⟩ := hall m hm
      refine ⟨(inv.proposer, inv.call), ?_, by rw [hrequest]⟩
      rw [calls, List.getElem?_map, hi]
      rfl
  | idle | opens | replies | refuses | fails | concludes | informs | prunes | installs =>
    exact ⟨[], (List.append_nil _).symm, fun m hm => absurd hm List.not_mem_nil⟩

/-- A quorum is logged with the replies of its call's own deliveries. -/
theorem collected_step (w : World V) (a : Action V) : (w.step a).collected = w.collected ∨
    ∃ i inv replies, w.invocations[i]? = some inv ∧ (w.step a).collected = w.collected ++ [(i, replies)] ∧
      (∃ quorum, quorumReached replies quorum inv.proposer.cluster = true) ∧
      ∀ reply ∈ replies, (∀ c ∈ inv.proposer.cluster, reply.cluster = c) ∧
        ∃ d ∈ w.deliveries, d.message.invocation = i ∧ d.message.target = reply.recorder ∧ d.reply = reply := by
  have hmoves := w.moves a
  generalize w.step a = w' at hmoves ⊢
  cases hmoves with
  | @concludes i inv targets arrivals replies hi _ hgenuine hcollect =>
    obtain ⟨hreach, hall, _⟩ := Proposer.collectQuorum_ok hcollect
    refine .inr ⟨i, inv, replies, hi, rfl, ⟨_, hreach⟩, fun reply hr => ⟨(hall reply hr).cluster, ?_⟩⟩
    obtain ⟨d, hd, hdi, _, htarget, hreply⟩ := hgenuine.delivered (hall reply hr)
    exact ⟨d, hd, hdi, htarget, hreply⟩
  | idle | opens | sends | replies | refuses | fails | informs | prunes | installs => exact .inl rfl

end
end World
end QuePaxa
