import QuePaxa.Protocol.Effects

/-! A proposer's loop ends within its step budget. A reply is never behind the request it
answers, so a turn of the loop that does not return goes on at a later step, whatever the
other proposers do at the recorders meanwhile. -/
namespace QuePaxa
open Library
variable {V : Type}
variable {targets : List ReplicaId} {inv : Invocation V}

def Progress.isReady : Progress V → Bool
  | ready => true
  | _ => false

def Progress.isWaiting : Progress V → Bool
  | waiting _ => true
  | _ => false

namespace Invocation

inductive Advances (inv : Invocation V) : Invocation V → Prop
  | returns (result : Result (Decision V)) (hnot : inv.progress.isReady = true ∨ inv.progress.isWaiting = true) :
      inv.Advances (inv.finish result)
  | enters (targets : List ReplicaId) (hready : inv.progress = .ready) (hlimit : inv.step ≤ inv.proposer.maxSteps) :
      inv.Advances { inv with progress := .waiting targets }
  | repeats {targets : List ReplicaId} {step : Step} (proposal : Proposal V)
    (hwaiting : inv.progress = .waiting targets)
      (hlater : inv.step < step) :
      inv.Advances { inv with step, proposal, iteration := inv.iteration + 1, progress := .ready }

def bodiesLeft (inv : Invocation V) : Nat :=
  match inv.progress with
  | .ready => inv.proposer.maxSteps + 1 - inv.step
  | .waiting _ => inv.proposer.maxSteps - inv.step
  | .returned _ => 0

def turnsLeft (inv : Invocation V) : Nat :=
  match inv.progress with
  | .ready => 2 * (inv.proposer.maxSteps + 1 - inv.step) + 1
  | .waiting _ => 2 * (inv.proposer.maxSteps - inv.step) + 2
  | .returned _ => 0

private theorem returned_of_turnsLeft (h : inv.turnsLeft = 0) :
    ∃ result, inv.progress = .returned result := by
  unfold turnsLeft at h
  split at h
  · omega
  · omega
  · next result hprogress => exact ⟨result, hprogress⟩

private theorem Advances.proposer {inv' : Invocation V} (h : inv.Advances inv') : inv'.proposer = inv.proposer := by
  cases h <;> rfl

private theorem Advances.bodies {inv' : Invocation V} (h : inv.Advances inv') :
    (inv.progress.isReady && inv'.progress.isWaiting).toNat + inv'.bodiesLeft ≤ inv.bodiesLeft := by
  cases h with
  | returns result => simp [finish, Progress.isWaiting, bodiesLeft]
  | enters targets hready hlimit =>
    simp only [bodiesLeft, hready, Progress.isReady, Progress.isWaiting, Bool.and_self, Bool.toNat_true]
    lia
  | repeats proposal hwaiting hlater =>
    simp only [bodiesLeft, hwaiting, Progress.isReady, Progress.isWaiting, Bool.and_self, Bool.toNat_false]
    lia

private theorem Advances.turns {inv' : Invocation V} (h : inv.Advances inv') : 1 + inv'.turnsLeft ≤ inv.turnsLeft := by
  cases h with
  | returns result hnot =>
    cases hprogress : inv.progress with
    | ready =>
      simp only [turnsLeft, finish, hprogress]
      omega
    | waiting targets =>
      simp only [turnsLeft, finish, hprogress]
      omega
    | returned => simp [hprogress, Progress.isReady, Progress.isWaiting] at hnot
  | enters targets hready hlimit =>
    simp only [turnsLeft, hready]
    lia
  | repeats proposal hwaiting hlater =>
    simp only [turnsLeft, hwaiting]
    lia

end Invocation

namespace World

def opening (recorders : ReplicaId → RecorderCore V) : World V := ⟨recorders, [], [], [], []⟩

structure Paced (w : World V) : Prop where
  sent : ∀ m ∈ w.sent, ∃ inv, w.invocations[m.invocation]? = some inv ∧ m.iteration ≤ inv.iteration ∧
    (m.iteration = inv.iteration → inv.progress.isReady = false ∧ m.request.step = inv.step)
  delivered : ∀ d ∈ w.deliveries, d.message ∈ w.sent ∧ d.message.request.step ≤ d.reply.summary.step

private theorem send_advances (hready : inv.progress = .ready) (i : Nat)
    (draws : ReplicaId → Result Priority) (busy : List ReplicaId) :
    inv.Advances (inv.send i draws busy).1 := by
  rcases send_cases inv i draws busy with ⟨e, hsend⟩ | ⟨hlimit, targets, messages, hsend, _⟩
  · rw [hsend]
    exact .returns _ (.inl (by rw [hready]; rfl))
  · rw [hsend]
    exact .enters targets hready hlimit

theorem paced_opening (recorders : ReplicaId → RecorderCore V) : (opening recorders).Paced :=
  ⟨fun _ hm => absurd hm List.not_mem_nil, fun _ hd => absurd hd List.not_mem_nil⟩

section
variable [DecidableEq V] {w : World V} {i : Nat} {inv inv' : Invocation V} {a : Action V}

def takesTurn (i : Nat) (w : World V) : Action V → Bool
  | .send k _ _ => k = i && (w.invocations[i]?).any (·.progress.isReady)
  | .collect k arrivals =>
    k = i && (w.invocations[i]?).any fun inv =>
      match inv.progress with
      | .waiting targets => w.Genuine i inv.iteration targets arrivals
      | _ => false
  | _ => false

def entersBody (i : Nat) (w : World V) (a : Action V) : Bool :=
  (w.invocations[i]?).any (·.progress.isReady) && ((w.step a).invocations[i]?).any (·.progress.isWaiting)

private theorem record_step_le {r r' : RecorderCore V} {available : Availability V} {request : RecordRequest V}
    {reply : RecordReply V}
    (h : RecorderCore.record available request r = .ok reply r') : request.step ≤ reply.summary.step := by
  obtain ⟨_, m, _, _, _, rfl, _⟩ := RecorderCore.record_ok h
  have hstep : (m.reply request).summary.step = max (m.register request.slot).step request.step :=
    IntervalSummaryRegister.advance_step _ _ _
  rw [hstep]
  exact le_max_right _ _

theorem Paced.ahead (h : w.Paced) (hi : w.invocations[i]? = some inv) {arrivals : List (Arrival V)}
    (hgenuine : w.Genuine i inv.iteration targets arrivals) {replies : List (RecordReply V)}
    (hcollect : inv.proposer.collectQuorum inv.quorum targets.length arrivals = .ok replies) :
    ∀ reply ∈ replies, inv.step ≤ reply.summary.step := by
  intro reply hr
  obtain ⟨_, hall, _⟩ := Proposer.collectQuorum_ok hcollect
  obtain ⟨d, hd, hinvocation, hiteration, _, rfl⟩ := hgenuine.delivered (hall reply hr)
  obtain ⟨hsent, hle⟩ := h.delivered d hd
  obtain ⟨x, hx, _, hlatest⟩ := h.sent d.message hsent
  rw [hinvocation, hi] at hx
  cases hx
  rwa [(hlatest hiteration).2] at hle

/-- The loop body with replies that are not behind returns or goes on at a later step. -/
theorem conclude_advances (hwaiting : inv.progress = .waiting targets)
    {replies : List (RecordReply V)} (hahead : ∀ reply ∈ replies, inv.step ≤ reply.summary.step) :
    inv.Advances (inv.conclude replies) := by
  have hnot : inv.progress.isReady = true ∨ inv.progress.isWaiting = true := .inr (by rw [hwaiting]; rfl)
  unfold Invocation.conclude
  split
  · exact .returns _ hnot
  · exact .returns _ hnot
  · next step proposal hconclude => exact .repeats proposal hwaiting (concludeStep_next hconclude hahead)

private theorem step_send (hi : w.invocations[i]? = some inv) (hready : inv.progress = .ready)
    (draws : ReplicaId → Result Priority)
    (busy : List ReplicaId) : (w.step (.send i draws busy)).invocations[i]? = some (inv.send i draws busy).1 := by
  simp only [World.step, hi, hready]
  exact List.getElem?_set_self (List.getElem?_eq_some_iff.mp hi).1

private theorem step_collect (hi : w.invocations[i]? = some inv) (hwaiting : inv.progress = .waiting targets)
    {arrivals : List (Arrival V)} (hgenuine : w.Genuine i inv.iteration targets arrivals) :
    (∃ e, (w.step (.collect i arrivals)).invocations[i]? = some (inv.finish (.error e))) ∨
    ∃ replies, inv.proposer.collectQuorum inv.quorum targets.length arrivals = .ok replies ∧
      (w.step (.collect i arrivals)).invocations[i]? = some (inv.conclude replies) := by
  have hlen := (List.getElem?_eq_some_iff.mp hi).1
  cases hcollect : inv.proposer.collectQuorum inv.quorum targets.length arrivals with
  | error e =>
    refine .inl ⟨e, ?_⟩
    simp only [World.step, hi, hwaiting, if_pos hgenuine, hcollect]
    exact List.getElem?_set_self hlen
  | ok replies =>
    refine .inr ⟨replies, rfl, ?_⟩
    simp only [World.step, hi, hwaiting, if_pos hgenuine, hcollect]
    exact List.getElem?_set_self hlen

theorem Paced.turn (h : w.Paced) (hi : w.invocations[i]? = some inv) (hturn : w.takesTurn i a = true) :
    ∃ inv', (w.step a).invocations[i]? = some inv' ∧ inv.Advances inv' := by
  cases a with
  | send k draws busy =>
    simp only [takesTurn, hi, Option.any_some, Bool.and_eq_true, decide_eq_true_eq] at hturn
    obtain ⟨rfl, hready⟩ := hturn
    cases hprogress : inv.progress with
    | ready => exact ⟨_, step_send hi hprogress draws busy, send_advances hprogress _ draws busy⟩
    | waiting | returned => simp [hprogress, Progress.isReady] at hready
  | collect k arrivals =>
    simp only [takesTurn, hi, Option.any_some, Bool.and_eq_true, decide_eq_true_eq] at hturn
    obtain ⟨rfl, hgenuine⟩ := hturn
    cases hprogress : inv.progress with
    | waiting targets =>
      simp only [hprogress, decide_eq_true_eq] at hgenuine
      rcases step_collect hi hprogress hgenuine with ⟨e, hstep⟩ | ⟨replies, hcollect, hstep⟩
      · exact ⟨_, hstep, .returns _ (.inr (by rw [hprogress]; rfl))⟩
      · exact ⟨_, hstep, conclude_advances hprogress (h.ahead hi hgenuine hcollect)⟩
    | ready | returned => simp [hprogress] at hgenuine
  | start | deliver | inform | prune | install => cases hturn

theorem rests (hi : w.invocations[i]? = some inv) (hturn : ¬w.takesTurn i a = true) :
    (w.step a).invocations[i]? = some inv := by
  obtain ⟨inv', hi', hcase⟩ := turn_step w a hi
  cases hcase with
  | rests => exact hi'
  | sends draws busy hready => simp [takesTurn, hi, hready, Progress.isReady] at hturn
  | fails hwaiting hgenuine => simp [takesTurn, hi, hwaiting, hgenuine] at hturn
  | concludes hwaiting hgenuine => simp [takesTurn, hi, hwaiting, hgenuine] at hturn

private theorem can_turn (hi : w.invocations[i]? = some inv) (hnot : ∀ result, inv.progress ≠ .returned result) :
    ∃ a, w.takesTurn i a = true := by
  cases hprogress : inv.progress with
  | ready =>
    refine ⟨.send i (fun _ => .ok 0) [], ?_⟩
    simp [takesTurn, hi, hprogress, Progress.isReady]
  | waiting targets =>
    refine ⟨.collect i [.timedOut], ?_⟩
    have hgenuine : w.Genuine i inv.iteration targets [.timedOut] := ⟨List.nodup_nil, by simp [possible]⟩
    simp [takesTurn, hi, hprogress, hgenuine]
  | returned result => exact absurd hprogress (hnot result)

/-- An invocation's messages stay at or behind it, and only those of its present iteration are at its step. -/
theorem Paced.step (h : w.Paced) (a : Action V) : (w.step a).Paced := by
  constructor
  · intro m hm
    rcases sent_turn w a hm with hm | ⟨inv, targets, p, draws, _, _, hi', hiteration, _, hrequest⟩
    · obtain ⟨inv, hi, hle, hlatest⟩ := h.sent m hm
      by_cases hturn : w.takesTurn m.invocation a = true
      · obtain ⟨inv', hi', hadvances⟩ := h.turn hi hturn
        refine ⟨inv', hi', ?_⟩
        cases hadvances with
        | returns result => exact ⟨hle, fun heq => ⟨rfl, (hlatest heq).2⟩⟩
        | enters targets hready => exact ⟨hle, fun heq => ⟨rfl, (hlatest heq).2⟩⟩
        | repeats =>
          refine ⟨Nat.le_succ_of_le hle, fun heq => ?_⟩
          exact absurd heq (Nat.ne_of_lt (Nat.lt_succ_of_le hle))
      · exact ⟨inv, rests hi hturn, hle, hlatest⟩
    · refine ⟨_, hi', le_of_eq hiteration, fun _ => ⟨rfl, ?_⟩⟩
      rw [hrequest]
  · obtain ⟨messages, hsent, _⟩ := sent_step w a
    have hkept : ∀ m ∈ w.sent, m ∈ (w.step a).sent := fun m hm => hsent ▸ List.mem_append_left _ hm
    have hold : ∀ d ∈ w.deliveries, d.message ∈ (w.step a).sent ∧ d.message.request.step ≤ d.reply.summary.step :=
      fun d hd => ⟨hkept _ (h.delivered d hd).1, (h.delivered d hd).2⟩
    intro d hd
    rcases deliveries_step w a with hsame | ⟨m, available, reply, r, hm, hrecord, hnew, _⟩
    · exact hold d (hsame ▸ hd)
    · rw [hnew] at hd
      rcases List.mem_append.mp hd with hd | hd
      · exact hold d hd
      · rw [List.mem_singleton.mp hd]
        exact ⟨hkept m hm, record_step_le hrecord⟩

theorem paced_run (recorders : ReplicaId → RecorderCore V) (actions : List (Action V)) :
    (run World.step (opening recorders) actions).Paced :=
  run_invariant_all (fun _ a h => h.step a) (paced_opening recorders) actions

private theorem opened_of_new (hnone : w.invocations[i]? = none) (hi' : (w.step a).invocations[i]? = some inv') :
    inv'.progress = .ready ∧ inv'.step = Step.roundOnePhaseZero := by
  have hset : ∀ k x, (w.invocations.set k x)[i]? = none := by
    intro k x
    rw [List.getElem?_eq_none_iff, List.length_set]
    exact List.getElem?_eq_none_iff.mp hnone
  have hmoves := w.moves a
  generalize w.step a = w' at hmoves hi'
  cases hmoves with
  | opens hbegin =>
    have hlen := List.getElem?_eq_none_iff.mp hnone
    rw [List.getElem?_append_right hlen] at hi'
    obtain ⟨hindex, rfl⟩ := List.getElem?_eq_some_iff.mp hi'
    simp only [List.length_singleton, Nat.lt_one_iff] at hindex
    simp only [hindex, List.getElem_cons_zero]
    exact ⟨rfl, rfl⟩
  | sends | fails | concludes => cases (hset _ _).symm.trans hi'
  | idle | replies | refuses | informs | prunes | installs => cases hnone.symm.trans hi'

structure Budgeted (recorders : ReplicaId → RecorderCore V) (actions : List (Action V)) (i : Nat) (inv : Invocation V) :
    Prop where
  bodies : tally World.step (entersBody i) (opening recorders) actions + inv.bodiesLeft ≤ inv.proposer.maxSteps - 3
  turns : tally World.step (takesTurn i) (opening recorders) actions + inv.turnsLeft ≤
    2 * (inv.proposer.maxSteps - 3) + 1

variable {recorders : ReplicaId → RecorderCore V} {actions : List (Action V)}

private theorem Budgeted.step (h : Budgeted recorders actions i inv)
    (hi : (run World.step (opening recorders) actions).invocations[i]? = some inv) (a : Action V) :
    ∃ inv', (run World.step (opening recorders) (actions ++ [a])).invocations[i]? = some inv' ∧
      Budgeted recorders (actions ++ [a]) i inv' := by
  have hbodies := h.bodies
  have hturns := h.turns
  rw [run_append, run_cons, run_nil]
  by_cases hturn : takesTurn i (run World.step (opening recorders) actions) a = true
  · obtain ⟨inv', hi', hadvances⟩ := (paced_run recorders actions).turn hi hturn
    have hfewer := hadvances.bodies
    have hless := hadvances.turns
    refine ⟨inv', hi', ?_, ?_⟩
    · rw [tally_concat, entersBody, hi, hi', hadvances.proposer]
      simp only [Option.any_some]
      omega
    · rw [tally_concat, hturn, hadvances.proposer, Bool.toNat_true]
      omega
  · have hi' := rests hi hturn
    refine ⟨inv, hi', ?_, ?_⟩
    · have hneither : (inv.progress.isReady && inv.progress.isWaiting) = false := by cases inv.progress <;> rfl
      rw [tally_concat, entersBody, hi, hi']
      simp only [Option.any_some, hneither, Bool.toNat_false]
      exact hbodies
    · rw [tally_concat, Bool.eq_false_iff.mpr hturn, Bool.toNat_false]
      exact hturns

theorem takesTurn_of_none (hnone : w.invocations[i]? = none) (a : Action V) : w.takesTurn i a = false := by
  cases a with
  | send k draws busy => simp [takesTurn, hnone]
  | collect k arrivals => simp [takesTurn, hnone]
  | start | deliver | inform | prune | install => rfl

private theorem tally_of_none (hnone : (run World.step (opening recorders) actions).invocations[i]? = none) :
    tally World.step (entersBody i) (opening recorders) actions = 0 ∧
      tally World.step (takesTurn i) (opening recorders) actions = 0 := by
  induction actions using List.reverseRecOn with
  | nil => exact ⟨rfl, rfl⟩
  | append_singleton actions a ih =>
    rw [run_append, run_cons, run_nil] at hnone
    cases hbefore : (run World.step (opening recorders) actions).invocations[i]? with
    | some inv =>
      obtain ⟨inv', hi', _⟩ := turn_step _ a hbefore
      cases hnone.symm.trans hi'
    | none =>
      obtain ⟨hbodies, hturns⟩ := ih hbefore
      rw [tally_concat, tally_concat, hbodies, hturns, takesTurn_of_none hbefore, entersBody, hbefore]
      exact ⟨rfl, rfl⟩

private theorem budgeted_run (hi : (run World.step (opening recorders) actions).invocations[i]? = some inv) :
    Budgeted recorders actions i inv := by
  induction actions using List.reverseRecOn generalizing inv with
  | nil => cases hi
  | append_singleton actions a ih =>
    cases hbefore : (run World.step (opening recorders) actions).invocations[i]? with
    | some earlier =>
      obtain ⟨inv', hi', hbudgeted⟩ := (ih hbefore).step hbefore a
      cases hi.symm.trans hi'
      exact hbudgeted
    | none =>
      obtain ⟨hbodies, hturns⟩ := tally_of_none hbefore
      rw [run_append, run_cons, run_nil] at hi
      obtain ⟨hready, hstep⟩ := opened_of_new hbefore hi
      constructor
      · rw [tally_concat, hbodies, entersBody, hbefore, Invocation.bodiesLeft, hready, hstep]
        simp only [Option.any_none, Bool.false_and, Bool.toNat_false, Step.roundOnePhaseZero]
        omega
      · rw [tally_concat, hturns, takesTurn_of_none hbefore, Invocation.turnsLeft, hready, hstep, Bool.toNat_false]
        simp only [Step.roundOnePhaseZero]
        omega

/-- Proposers of both kinds share any recorders, in any interleaving, with any failures and any
order of the replies. Each turn of a propose loop returns, enters the loop body, or comes back
from it at a later step; the body is entered at most `maxSteps - 3` times; an invocation that has
not returned can take a turn, and after enough turns it has returned a decision or an error. -/
theorem propose_terminates (recorders : ReplicaId → RecorderCore V) (actions : List (Action V)) (i : Nat)
    (inv : Invocation V)
    (hi : (run World.step (opening recorders) actions).invocations[i]? = some inv) :
    (∀ a, takesTurn i (run World.step (opening recorders) actions) a = true →
      ∃ inv', ((run World.step (opening recorders) actions).step a).invocations[i]? = some inv' ∧ inv.Advances inv') ∧
    tally World.step (entersBody i) (opening recorders) actions ≤ inv.proposer.maxSteps - 3 ∧
    ((∃ result, inv.progress = .returned result) ∨
      ∃ a, takesTurn i (run World.step (opening recorders) actions) a = true) ∧
    tally World.step (takesTurn i) (opening recorders) actions ≤ 2 * (inv.proposer.maxSteps - 3) + 1 ∧
    (tally World.step (takesTurn i) (opening recorders) actions = 2 * (inv.proposer.maxSteps - 3) + 1 →
      ∃ result, inv.progress = .returned result) := by
  have hbudgeted := budgeted_run hi
  have hbodies := hbudgeted.bodies
  have hturns := hbudgeted.turns
  refine ⟨fun a hturn => (paced_run recorders actions).turn hi hturn, by omega, ?_, by omega, fun hall => ?_⟩
  · by_cases hreturned : ∃ result, inv.progress = .returned result
    · exact .inl hreturned
    · exact .inr (can_turn hi (not_exists.mp hreturned))
  · exact Invocation.returned_of_turnsLeft (by omega)

/-- A single voter without a leader: the budget of one loop body is used up, and the loop
head then reports it. -/
theorem propose_terminates_at_limit :
    let solo : ClusterIdentity := ⟨[1], 0, 0, none⟩
    let drawn : Proposal Nat := ⟨⟨7, 1, 1⟩, [10]⟩
    let call : ProposeCall Nat := ⟨1, [10], none, [1], []⟩
    let opened := opening fun id => RecorderCore.new ⟨id, solo, .default⟩
    let actions : List (Action Nat) :=
      [.start (.async ⟨1, 1, solo, 4⟩) call, .send 0 (fun _ => .ok 7) [],
        .deliver ⟨0, 0, 1, ⟨1, 1, none, 4, drawn, []⟩⟩ (fun _ => .ok ()),
        .collect 0 [.answered 1 (.ok ⟨1, solo, ⟨4, some drawn, none⟩, none⟩)], .send 0 (fun _ => .ok 7) []]
    tally World.step (entersBody 0) opened actions = 1 ∧ tally World.step (takesTurn 0) opened actions = 3 ∧
    ∃ inv : Invocation Nat, (run World.step opened actions).invocations[0]? = some inv ∧
      ∃ result, inv.progress = .returned result := by
  intro solo drawn call opened actions
  have hlimit : (run World.step opened actions).invocations[0]?.map (·.proposer.maxSteps) = some 4 := by decide +kernel
  have hturns : tally World.step (takesTurn 0) opened actions = 3 := by decide +kernel
  obtain ⟨inv, hi, hmax⟩ := Option.map_eq_some_iff.mp hlimit
  obtain ⟨_, _, _, _, hreturned⟩ := propose_terminates _ actions 0 inv hi
  rw [hmax] at hreturned
  exact ⟨by decide +kernel, hturns, inv, hi, hreturned hturns⟩

end
end World
end QuePaxa
