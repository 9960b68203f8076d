import QuePaxa.Core.ReplicaClaims
import QuePaxa.Protocol.Validity

/-! The replicated log of a whole cluster. Each member queues values, is handed slots for
batches of them by its pipeline, proposes each batch for its slot as often as it likes, and
applies decisions that some proposer has returned, in any order. What agreement asks of the
proposers follows: a member is handed a slot once, so it never proposes two batches for one
slot. -/
namespace QuePaxa
open Library
variable {V : Type}

structure Member (V : Type) where
  replica : ReplicaCore V
  claims : List (SlotIndex × List V)
  applied : List (Decision V)
  committed : List (Decision V)

namespace Member

def start (config : ReplicaConfig) : Member V := ⟨.new config, [], [], []⟩

def commitRecord (m : Member V) : CommitRecord V := ⟨m.replica, m.applied, m.committed⟩

def claimRecord (m : Member V) : ClaimRecord V := ⟨m.replica, m.claims.map (·.1), m.applied⟩

def log (m : Member V) : List (SlotIndex × List V) := m.committed.map fun d => (d.slot, d.valueIds)

section
variable [DecidableEq V]

def serve (m : Member V) : ReplicaOp V → Member V
  | .nextProposal =>
    match ReplicaCore.nextProposal m.replica with
    | .ok (some claim) replica => { m with replica, claims := m.claims ++ [claim] }
    | .ok none replica | .error _ replica => { m with replica }
  | .applyDecision d =>
    match ReplicaCore.applyDecision d m.replica with
    | .ok ds replica => { m with replica, applied := m.applied ++ [d], committed := m.committed ++ ds }
    | .error _ replica => { m with replica }
  | op => { m with replica := m.replica.perform op }

private theorem commitRecord_serve (m : Member V) (op : ReplicaOp V) :
    (m.serve op).commitRecord = m.commitRecord.step (.op op) := by
  cases op with
  | enqueue values => rfl
  | pruneThrough slot => rfl
  | nextProposal =>
    rcases heq : ReplicaCore.nextProposal m.replica with ⟨_ | claim, replica⟩ | ⟨e, replica⟩ <;>
      simp only [serve, CommitRecord.step, ReplicaCore.serve, ReplicaCore.perform, after, commitRecord, heq]
  | applyDecision d =>
    cases heq : ReplicaCore.applyDecision d m.replica <;> simp only [serve, CommitRecord.step, commitRecord, heq]

private theorem claimRecord_serve (m : Member V) (op : ReplicaOp V) :
    (m.serve op).claimRecord = m.claimRecord.step (.op op) := by
  cases op with
  | enqueue values => rfl
  | pruneThrough slot => rfl
  | nextProposal =>
    rcases heq : ReplicaCore.nextProposal m.replica with ⟨_ | claim, replica⟩ | ⟨e, replica⟩ <;>
      simp [serve, ClaimRecord.step, ReplicaCore.perform, after, result, claimRecord, heq]
  | applyDecision d =>
    cases heq : ReplicaCore.applyDecision d m.replica <;>
      simp [serve, ClaimRecord.step, ReplicaCore.perform, after, result, claimRecord, heq, Except.isOk, Except.toBool]

private theorem claims_serve (m : Member V) (op : ReplicaOp V) : ∀ c ∈ m.claims, c ∈ (m.serve op).claims := by
  intro c hc
  cases op with
  | enqueue | pruneThrough => exact hc
  | nextProposal =>
    simp only [serve]
    split
    · exact List.mem_append_left _ hc
    · exact hc
    · exact hc
  | applyDecision d =>
    simp only [serve]
    split <;> exact hc

private theorem applied_serve {m : Member V} {op : ReplicaOp V} {d : Decision V} (hd : d ∈ (m.serve op).applied) :
    d ∈ m.applied ∨ op = .applyDecision d := by
  cases op with
  | enqueue | pruneThrough => exact .inl hd
  | nextProposal =>
    simp only [serve] at hd
    split at hd <;> exact .inl hd
  | applyDecision e =>
    simp only [serve] at hd
    split at hd
    · refine (List.mem_append.mp hd).imp_right fun hd => ?_
      rw [List.mem_singleton.mp hd]
    · exact .inl hd

end
end Member

namespace Fleet

structure Setup where
  cluster : ClusterIdentity
  proposer : ReplicaId → Proposer
  wellFormed : cluster.isWellFormed = true
  identified : ∀ id, (proposer id).replicaId = id
  configured : ∀ id, (proposer id).cluster = some cluster

end Fleet

structure Fleet (V : Type) where
  world : World V
  members : ReplicaId → Member V

inductive FleetAction (V : Type) where
  | serve (id : ReplicaId) (op : ReplicaOp V)
  /-- Propose the batch claimed for the slot, under whatever leader the member believes in. -/
  | propose (id : ReplicaId) (slot : SlotIndex) (leader : Option ReplicaId) (known : List (Decision V))
  /-- Anything between proposers and recorders but the start of a call. -/
  | network (action : Action V)

namespace Fleet

def initial (S : Setup) (limits : ReplicaId → RecorderLimits) (config : ReplicaId → ReplicaConfig) : Fleet V :=
  ⟨World.initial S.cluster limits, fun id => .start (config id)⟩

/-- Decisions are passed on after they were returned, priorities stay below the reserved one, the
membership does not change, and calls are started by members. -/
def Allowed (f : Fleet V) : FleetAction V → Prop
  | .serve _ (.applyDecision d) => f.world.Returned d ∧ d.slot < u64Max
  | .propose _ _ _ known => ∀ d ∈ known, f.world.Returned d
  | .network (.send _ draws _) => ∀ id q, draws id = .ok q → 1 ≤ q ∧ q < Priority.max
  | .network (.inform _ d) => f.world.Returned d
  | .network (.start _ _) | .network (.install _ _) => False
  | _ => True

structure Coherent (S : Setup) (f : Fleet V) : Prop where
  consistent : ∀ slot, f.world.Consistent S.cluster slot
  contract : ∀ slot, f.world.Contract slot
  valid : ∀ slot, f.world.Valid slot
  ordered : ∀ id, (f.members id).commitRecord.InOrder
  exclusive : ∀ id, (f.members id).claimRecord.Exclusive
  claimed : ∀ c ∈ f.world.calls, (c.2.slot, c.2.valueIds) ∈ (f.members c.1.replicaId).claims
  applied : ∀ id, ∀ d ∈ (f.members id).applied, f.world.Returned d

variable {S : Setup} {f : Fleet V}

private theorem coherent_initial (S : Setup) (limits : ReplicaId → RecorderLimits)
    (config : ReplicaId → ReplicaConfig) :
    (initial S limits config : Fleet V).Coherent S where
  consistent _ := World.consistent_initial limits
  contract _ a ha := absurd ha List.not_mem_nil
  valid _ := World.valid_initial S.cluster limits
  ordered id := CommitRecord.inOrder_start (config id)
  exclusive id := ClaimRecord.exclusive_start (config id)
  claimed c hc := absurd hc List.not_mem_nil
  applied id d hd := by cases hd

private theorem Coherent.one_claim (h : f.Coherent S) {id : ReplicaId} {slot : SlotIndex} {values values' : List V}
    (hc : (slot, values) ∈ (f.members id).claims) (hc' : (slot, values') ∈ (f.members id).claims) :
    values = values' := by
  have hnodup : ((f.members id).claims.map (·.1)).Nodup := (h.exclusive id).once
  have hsame := List.inj_on_of_nodup_map hnodup hc hc' rfl
  exact congrArg Prod.snd hsame

private theorem Coherent.agree (h : f.Coherent S) {d e : Decision V} (hd : f.world.Returned d) (he : f.world.Returned e)
    (hslot : d.slot = e.slot) : d.valueIds = e.valueIds := by
  obtain ⟨x, hx, hxd⟩ := hd
  obtain ⟨y, hy, hye⟩ := he
  have hcons := h.consistent d.slot
  have hxs : x.call.slot = d.slot := (hcons.results x hx d hxd).symm
  have hys : y.call.slot = d.slot := (hcons.results y hy e hye).symm.trans hslot.symm
  obtain ⟨p, hp, hpd⟩ := (hcons.running x hx hxs).decided d hxd
  obtain ⟨q, hq, hqe⟩ := (hcons.running y hy hys).decided e hye
  have hvalues := (hcons.sound (h.contract d.slot) S.wellFormed).agreement hp hq
  exact hpd.symm.trans (hvalues.trans hqe)

/-- A returned decision carries a batch that its proposer was handed for the slot. -/
theorem Coherent.handed_out (h : f.Coherent S) {d : Decision V} (hd : f.world.Returned d) :
    (d.slot, d.valueIds) ∈ (f.members d.proposer).claims := by
  obtain ⟨c, hc, hslot, hid, hvalues⟩ := (h.valid d.slot).sourced.returned hd rfl
  have hclaimed := h.claimed c hc
  rwa [hslot, hid, hvalues] at hclaimed

variable [DecidableEq V]

def step (S : Setup) (f : Fleet V) : FleetAction V → Fleet V
  | .serve id op => { f with members := Function.update f.members id ((f.members id).serve op) }
  | .propose id slot leader known =>
    match (f.members id).claims.find? (·.1 = slot) with
    | some claim => { f with
        world := f.world.step (.start (S.proposer id) ⟨slot, claim.2, leader, S.cluster.members, known⟩) }
    | none => f
  | .network action => { f with world := f.world.step action }

/-- The world moves by an action that agreement permits in every slot. -/
theorem Coherent.world_step (h : f.Coherent S) {action : Action V}
    (hpermitted : ∀ slot, f.world.Permitted S.cluster slot action)
    (hone : ∀ slot, f.world.OneLeaderValue slot action)
    (hclaimed : ∀ proposer call, action = .start proposer call →
      (call.slot, call.valueIds) ∈ (f.members proposer.replicaId).claims) :
    Coherent S { f with world := f.world.step action } where
  consistent slot := (h.consistent slot).step (hpermitted slot)
  contract slot := (h.contract slot).step (hpermitted slot) (hone slot)
  valid slot := (h.valid slot).step (hpermitted slot).gossips
  ordered := h.ordered
  exclusive := h.exclusive
  claimed c hc := by
    rcases World.calls_step f.world action with hsame | ⟨proposer, call, rfl, hnew⟩
    · exact h.claimed c (hsame ▸ hc)
    · rw [hnew] at hc
      rcases List.mem_append.mp hc with hc | hc
      · exact h.claimed c hc
      · rw [List.mem_singleton.mp hc]
        exact hclaimed _ _ rfl
  applied id d hd := by
    obtain ⟨inv, hinv, hreturned⟩ := h.applied id d hd
    obtain ⟨i, hi⟩ := List.mem_iff_getElem?.mp hinv
    obtain ⟨inv', hi', hturn⟩ := World.turn_step f.world action hi
    refine ⟨inv', List.mem_of_getElem? hi', ?_⟩
    cases hturn with
    | rests => exact hreturned
    | sends _ _ hready => cases hready.symm.trans hreturned
    | fails hwaiting => cases hwaiting.symm.trans hreturned
    | concludes hwaiting => cases hwaiting.symm.trans hreturned

private theorem Coherent.network (h : f.Coherent S) {action : Action V} (ha : f.Allowed (.network action)) :
    (f.step S (.network action)).Coherent S := by
  cases action with
  | start | install => exact absurd ha id
  | send k draws busy => exact h.world_step (fun _ => ha) (fun _ => trivial) (by simp)
  | inform target d => exact h.world_step (fun _ _ => ha) (fun _ => trivial) (by simp)
  | deliver | collect | prune => exact h.world_step (fun _ => trivial) (fun _ => trivial) (by simp)

/-- A batch that was claimed before is proposed with the same values. -/
theorem Coherent.propose (h : f.Coherent S) {id : ReplicaId} {slot : SlotIndex} {leader : Option ReplicaId}
    {known : List (Decision V)} (hknown : ∀ d ∈ known, f.world.Returned d) :
    (f.step S (.propose id slot leader known)).Coherent S := by
  simp only [step]
  cases hfind : (f.members id).claims.find? (·.1 = slot) with
  | none => exact h
  | some claim =>
    have hslot : claim.1 = slot := by simpa using List.find?_some hfind
    have hclaim : (slot, claim.2) ∈ (f.members id).claims := hslot ▸ List.mem_of_find?_eq_some hfind
    have hsame : ∀ inv ∈ f.world.invocations, inv.call.slot = slot →
      inv.proposer.replicaId = (S.proposer id).replicaId →
        inv.call.valueIds = claim.2 := by
      intro inv hinv hs hid
      have hclaimed := h.claimed (inv.proposer, inv.call) (List.mem_map_of_mem hinv)
      simp only [hs, hid, S.identified] at hclaimed
      exact h.one_claim hclaimed hclaim
    refine h.world_step (fun k => ⟨fun hk => ⟨S.configured id, fun inv hinv hs hid _ => ?_⟩, fun d hd _ => hknown d hd⟩)
      (fun k hk _ inv hinv hs _ hid => ?_) (fun proposer call heq => ?_)
    · exact hsame inv hinv (hs.trans hk.symm) hid
    · exact hsame inv hinv (hs.trans hk.symm) hid
    · cases heq
      rw [S.identified]
      exact hclaim

private theorem Coherent.serve (h : f.Coherent S) {id : ReplicaId} {op : ReplicaOp V} (ha : f.Allowed (.serve id op)) :
    (f.step S (.serve id op)).Coherent S := by
  have hmember : ∀ {P : Member V → Prop}, (∀ j, P (f.members j)) → P ((f.members id).serve op) →
      ∀ j, P (Function.update f.members id ((f.members id).serve op) j) := by
    intro P hall hnew j
    by_cases hj : j = id
    · rw [hj, Function.update_self]
      exact hnew
    · rw [Function.update_of_ne hj]
      exact hall j
  have hbelow : ReplicaCall.BelowLast (.op op) := by
    cases op with
    | applyDecision d => exact ha.2
    | enqueue | nextProposal | pruneThrough => trivial
  refine ⟨h.consistent, h.contract, h.valid, hmember (P := (·.commitRecord.InOrder)) h.ordered ?_,
    hmember (P := (·.claimRecord.Exclusive)) h.exclusive ?_, fun c hc => ?_,
    hmember (P := fun m => ∀ d ∈ m.applied, f.world.Returned d) h.applied fun d hd => ?_⟩
  · rw [Member.commitRecord_serve]
    exact CommitRecord.inOrder_step _ _ (h.ordered id) hbelow
  · rw [Member.claimRecord_serve]
    exact ClaimRecord.exclusive_op (h.exclusive id) op
  · have hold := h.claimed c hc
    simp only [step]
    by_cases hid : c.1.replicaId = id
    · rw [hid] at hold ⊢
      rw [Function.update_self]
      exact Member.claims_serve _ op _ hold
    · rw [Function.update_of_ne hid]
      exact hold
  · rcases Member.applied_serve hd with hd | rfl
    · exact h.applied id d hd
    · exact ha.1

private theorem coherent_run {limits : ReplicaId → RecorderLimits} {config : ReplicaId → ReplicaConfig}
    {actions : List (FleetAction V)}
    (h : Along (step S) Allowed (initial S limits config) actions) :
    (run (step S) (initial S limits config) actions).Coherent S := by
  refine run_invariant (fun f a hf ha => ?_) (coherent_initial S limits config) h
  cases a with
  | serve id op => exact hf.serve ha
  | propose id slot leader known => exact hf.propose ha
  | network action => exact hf.network ha

/-- The members of one cluster queue values, claim slots, propose and propose again under any
leaders, and apply returned decisions in any order and as often as they like, over a network that
loses, repeats and delays. At any moment the logs of any two members are one a prefix of the other;
each log has the slots from 1 on without a gap, and each of its batches is what the pipeline of
the decision's proposer was handed for this slot. -/
theorem replicated_logs_agree (S : Setup) (limits : ReplicaId → RecorderLimits) (config : ReplicaId → ReplicaConfig)
    (actions : List (FleetAction V)) (h : Along (step S) Allowed (initial S limits config) actions) (i j : ReplicaId) :
    let f := run (step S) (initial S limits config) actions
    ((f.members i).log <+: (f.members j).log ∨ (f.members j).log <+: (f.members i).log) ∧
    (f.members i).log.map (·.1) = List.range' 1 (f.members i).replica.committedThrough ∧
    ∀ d ∈ (f.members i).committed, (d.slot, d.valueIds) ∈ (f.members d.proposer).claims := by
  intro f
  have hf : f.Coherent S := coherent_run h
  have hi := (hf.ordered i).deliverable
  have hj := (hf.ordered j).deliverable
  refine ⟨hi.map_prefix_or hj fun d hd e he hslot => ?_, ?_, fun d hd => ?_⟩
  · have hvalues := hf.agree (hf.applied i d hd) (hf.applied j e he) hslot
    rw [hslot, hvalues]
  · have hthrough : (f.members i).replica.committedThrough = (f.members i).committed.length := by
      have hcount := (hf.ordered i).count
      simp only [Member.commitRecord] at hcount
      rw [ReplicaCore.committedThrough, hcount]
      rfl
    rw [hthrough, Member.log, List.map_map]
    exact hi.keys
  · exact hf.handed_out (hf.applied i d (hi.mem hd))

/-- Replica 1 leads slot 1 and decides its batch; replica 2 hears of the decision. -/
theorem replicated_logs_agree_leader :
    let S : Setup := ⟨World.trio, fun id => .async ⟨id, 1, World.trio, 1027⟩, by decide, fun _ => rfl, fun _ => rfl⟩
    let d : Decision Nat := ⟨1, [10], 1, 4⟩
    let deliver (j : ReplicaId) : FleetAction Nat :=
      .network (.deliver ⟨0, 0, j, World.request 1 4 World.leading⟩ fun _ => .ok ())
    let actions : List (FleetAction Nat) :=
      [.serve 1 (.enqueue [10]), .serve 1 .nextProposal, .propose 1 1 (some 1) [],
        .network (.send 0 (fun _ => .ok 1) []),
        deliver 1, deliver 2, .network (.collect 0 [World.replied 1 4 World.leading none,
          World.replied 2 4 World.leading none]),
        .serve 1 (.applyDecision d), .serve 2 (.applyDecision d)]
    let f := run (step S) (initial S (fun _ => .default) fun _ => .default) actions
    (f.members 1).log = [(1, [10])] ∧ (f.members 2).log = [(1, [10])] ∧ (f.members 3).log = [] ∧
      ((f.members 2).log <+: (f.members 3).log ∨ (f.members 3).log <+: (f.members 2).log) := by
  intro S d deliver actions f
  have hlogs : (f.members 1).log = [(1, [10])] ∧ (f.members 2).log = [(1, [10])] ∧ (f.members 3).log = [] := by
    decide +kernel
  have hreturned : ∀ g : Fleet Nat, (1, some d) ∈ g.world.results → g.world.Returned d := by
    intro g hresults
    obtain ⟨inv, hinv, _, hd⟩ := World.mem_results hresults
    exact ⟨inv, hinv, hd⟩
  have hdraws : ∀ (id : ReplicaId) (q : Priority), (fun _ : ReplicaId => (.ok 1 : Result Priority)) id = .ok q →
      1 ≤ q ∧ q < Priority.max := by
    intro id q hq
    cases hq
    exact ⟨le_refl _, by decide⟩
  have hallowed : Along (step S) Allowed (initial S (fun _ => .default) fun _ => .default) actions :=
    ⟨trivial, trivial, fun _ h => absurd h List.not_mem_nil, hdraws, trivial, trivial, trivial,
      ⟨hreturned _ (by decide +kernel), by decide⟩, ⟨hreturned _ (by decide +kernel), by decide⟩, trivial⟩
  exact ⟨hlogs.1, hlogs.2.1, hlogs.2.2,
    (replicated_logs_agree S (fun _ => .default) (fun _ => .default) actions hallowed 2 3).1⟩

end Fleet
end QuePaxa
