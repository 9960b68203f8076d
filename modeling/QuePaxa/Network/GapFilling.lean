import QuePaxa.Core.ReplicaClaims
import QuePaxa.Network.Serving

/-! The no-op that fills a gap. A no-op that loses its slot goes back to the queue like any other
value, but the next gap is filled without a look at the queue, so that the no-op waits twice. -/
namespace QuePaxa
open Library
variable {V : Type}
variable {replica : ReplicaCore V}

namespace ConsensusState

structure Tidy (s : ConsensusState V) : Prop where
  spaced : s.replica.Spaced
  tracked : ∀ slot v, s.replica.Offers slot v → s.pending.contains slot = true

private theorem tidy_fresh (config : ReplicaRuntimeConfig) : (fresh config : ConsensusState V).Tidy := by
  refine ⟨ReplicaCore.spaced_new config.replica, ?_⟩
  rintro slot v ⟨e, he, _, hv⟩
  simp only [fresh, ReplicaCore.new, OrderedMap.get_insert, OrderedMap.get_emptyCollection] at he
  split_ifs at he
  cases he
  cases hv

variable [DecidableEq V] {s : ConsensusState V}

private theorem Tidy.enqueued (h : s.Tidy) {values : List V}
    (hok : ReplicaCore.enqueue values s.replica = .ok () replica) : (s.withReplica replica).Tidy := by
  obtain ⟨hspaced, hoffers⟩ := h.spaced.enqueue values
  rw [after_ok hok] at hspaced hoffers
  exact ⟨hspaced, fun slot v hv => h.tracked slot v (hoffers ▸ hv)⟩

private theorem Tidy.claimed (h : s.Tidy) {slot : SlotIndex} {values : List V}
    (hok : ReplicaCore.nextProposal s.replica = .ok (some (slot, values)) replica) :
    Tidy { s with replica, pending := s.pending.insert slot values } := by
  have harm := ReplicaCore.armed_of_nextProposal hok
  refine ⟨h.spaced.armed harm, fun k v hv => ?_⟩
  rw [ReplicaCore.offers_armed harm] at hv
  simp only [OrderedMap.contains, OrderedMap.get_insert]
  split_ifs at hv ⊢ with hk
  · rfl
  · exact h.tracked k v hv

private theorem Tidy.drained (h : s.Tidy) {e : QuePaxaError}
    (herr : ReplicaCore.nextProposal s.replica = .error e replica) : (s.withReplica replica).Tidy := by
  rcases ReplicaCore.nextProposal_cases s.replica with ⟨_, _, _, heq, _⟩ | heq | ⟨e', r, heq, hr⟩
  · rw [herr] at heq
    cases heq
  · rw [herr] at heq
    cases heq
  · rw [herr] at heq
    cases heq
    rcases hr with hsame | ⟨n, _, rfl⟩
    · subst hsame
      exact h
    · exact ⟨h.spaced.drain n, h.tracked⟩

private theorem Tidy.applied (h : s.Tidy) {d : Decision V} {ds : List (Decision V)}
    (hok : ReplicaCore.applyDecision d s.replica = .ok ds replica) :
      ((s.withReplica replica).retainDecision d).Tidy := by
  obtain ⟨hspaced, hoffers⟩ := h.spaced.applyDecision d
  rw [after_ok hok] at hspaced hoffers
  refine ⟨hspaced, fun slot v hv => ?_⟩
  have hne : slot ≠ d.slot := by
    rintro rfl
    exact h.spaced.not_offers_applied hok v hv
  have hold := h.tracked slot v (hoffers slot v hv)
  simp only [retainDecision, withReplica, OrderedMap.contains, OrderedMap.get_erase, if_neg hne]
  exact hold

private theorem Tidy.refused (h : s.Tidy) {d : Decision V} {e : QuePaxaError}
    (herr : ReplicaCore.applyDecision d s.replica = .error e replica) : (s.withReplica replica).Tidy := by
  obtain ⟨hspaced, hoffers⟩ := h.spaced.applyDecision d
  rw [after_error herr] at hspaced hoffers
  exact ⟨hspaced, fun slot v hv => h.tracked slot v (hoffers slot v hv)⟩

/-- With nothing pending, a value that is not queued may be proposed for the open gap. -/
theorem Tidy.filled (h : s.Tidy) {noop : V} {gap : SlotIndex} (hidle : s.pending.keys = [])
    (hqueue : noop ∉ s.replica.pending)
    (hgap : s.replica.committedThrough.checkedNext = some gap) (hblocking : s.gapIsBlocking gap = true)
    (hadm : s.replica.admitProposal gap [noop] = .ok ()) :
    Tidy { s with replica := s.replica.proposed gap [noop], pending := s.pending.insert gap [noop] } := by
  have hfree : (s.replica.log.get gap).any (·.taken) = false := by
    simp only [gapIsBlocking, Bool.and_eq_true] at hblocking
    cases hget : s.replica.log.get gap with
    | none => rfl
    | some e =>
      rw [hget] at hblocking
      simpa using hblocking.2
  have hoffered : ∀ k v, ¬s.replica.Offers k v := by
    intro k v hv
    obtain ⟨values, hget⟩ := (OrderedMap.contains_iff ..).mp (h.tracked k v hv)
    have hmem := OrderedMap.mem_keys_of_get hget
    rw [hidle] at hmem
    cases hmem
  have hahead : s.replica.nextCommit ≤ gap := by
    rw [(SlotIndex.checkedNext_eq_some.mp hgap).2]
    exact Nat.le_add_of_sub_le (le_refl _)
  have hplaced : (s.replica.proposed gap [noop]).Placed := by
    refine ReplicaCore.placed_proposed h.spaced.placed hfree (List.nodup_singleton noop) ?_ fun v _ k => hoffered k v
    exact fun v hv => List.mem_singleton.mp hv ▸ hqueue
  refine ⟨h.spaced.proposed hahead hfree hadm hplaced, fun k v hv => ?_⟩
  rw [ReplicaCore.offers_proposed hfree] at hv
  split_ifs at hv with hk
  · simp only [OrderedMap.contains, OrderedMap.get_insert, hk, if_true, Option.isSome_some]
  · exact absurd hv (hoffered k v)

end ConsensusState

namespace NetworkConsensusHandler
open ConsensusState
variable [DecidableEq V]

/-- No gap is about to be filled with a no-op that waits in the queue. -/
def gapApart (h : NetworkConsensusHandler V) : Bool :=
  !h.gapOpen || h.noopValue.all (· ∉ h.state.replica.pending)

private theorem serving_tidy : Serving (fun h : NetworkConsensusHandler V => h.gapApart = true) Tidy where
  same s s' hs hsame := by
    refine ⟨hsame.replica ▸ hs.spaced, ?_⟩
    rw [hsame.replica, hsame.pending]
    exact hs.tracked
  executed s slot hs := ⟨hs.spaced, hs.tracked⟩
  enqueued s values replica hs hok := hs.enqueued hok
  claimed s slot values replica hs hok := hs.claimed hok
  drained s e replica hs herr := hs.drained herr
  filled h noop gap hs hapart hnoop hidle hgap hblocking hadm := by
    refine hs.filled hidle ?_ hgap hblocking hadm
    simpa [gapApart, gapOpen, hnoop, hidle, hgap, hblocking] using hapart

end NetworkConsensusHandler

def Task.fillsApart [DecidableEq V] (h : NetworkConsensusHandler V) : Task V → Bool
  | .receiving (d :: _) | .accepting d => (h.beforeArming d).gapApart
  | .recovering => h.gapApart
  | _ => true

private theorem Task.fills_of_fillsApart [DecidableEq V] {h : NetworkConsensusHandler V} {task : Task V}
    (hapart : task.fillsApart h = true) :
    task.Fills (fun h => h.gapApart = true) h := by
  constructor
  · intro d hd
    unfold Task.accepts at hd
    split at hd
    · cases hd
      exact hapart
    · cases hd
      exact hapart
    · cases hd
  · rintro rfl
    exact hapart

namespace Node
open NetworkConsensusHandler ConsensusState
variable [DecidableEq V]

def fillsApart : Node V → NodeAction V → Bool
  | .up h tasks, .run i _ => (tasks[i]?).all (·.fillsApart h)
  | _, a => a.serves

private theorem tidy_step {env : NetworkEnvironment V} (n : Node V) (a : NodeAction V)
    (hn : n.Serves fun h => h.state.Tidy)
    (ha : n.fillsApart a = true) : (n.step env a).Serves fun h => h.state.Tidy := by
  have hserves : a.serves = true := by
    cases n <;> cases a <;> first | exact ha | rfl
  refine serves_step (C := fun h task => task.fillsApart h = true) ?_ ?_ hn hserves ?_
  · intro config recorders h noop hnew
    obtain ⟨_, ⟨_, hfresh⟩ | ⟨_, hsome, _⟩⟩ := new_ok hnew
    · show h.state.Tidy
      rw [hfresh]
      exact tidy_fresh config
    · cases hsome
  · intro h task now hh hserves hapart
    exact Task.serving_advance serving_tidy hserves now hh (Task.fills_of_fillsApart hapart)
      (fun d ds replica _ hok => hh.applied hok) fun d e replica _ herr => hh.refused herr
  · rintro h tasks i now task rfl rfl here
    simpa only [fillsApart, here, Option.all_some] using ha

/-- Every value waits in one place. A claim does not fail for values that are there twice, and
takes nothing from the queue without proposing it unless the log is full. -/
theorem no_value_waits_twice (env : NetworkEnvironment V) (actions : List (NodeAction V))
    (hrun : Along (step env) (fun n a => n.fillsApart a = true) fresh actions)
    (h : NetworkConsensusHandler V) (tasks : List (Task V)) (reached : run (step env) fresh actions = .up h tasks) :
    (h.state.replica.pending ++ h.state.replica.offered).Nodup ∧
    ∀ e replica, ReplicaCore.nextProposal h.state.replica = .error e replica →
      e ≠ .invalidProposal "proposal contains duplicate value IDs" ∧
        (replica.pending = h.state.replica.pending ∨ h.state.replica.roomForNext = false) := by
  have hfresh : (fresh : Node V).Serves fun h => h.state.Tidy := rfl
  have hserves := run_invariant tidy_step hfresh hrun
  rw [reached] at hserves
  obtain ⟨hspaced, _⟩ := hserves.1
  exact ⟨hspaced.placed.nodup, fun e replica => ReplicaCore.nextProposal_error hspaced.sound hspaced.placed.queue⟩

/-! The no-op 99 is armed for slot 1 and loses it. Slot 4 is decided, and the no-op is armed for
slot 3 while it waits in the queue. Once it has lost slot 3 as well it is in the queue twice, and
the next claim fails and takes the value of a client with it. -/

def slotsOutOfOrder : List (Decision Nat) := [⟨2, [20], 2, 4⟩, ⟨1, [10], 2, 4⟩, ⟨4, [40], 2, 4⟩, ⟨3, [30], 2, 4⟩]

def losesTwice : List (NodeAction Nat) :=
  [.restart nodeOne [1, 2, 3] (some 99), .call (.receiving slotsOutOfOrder), .run 0 0, .run 0 0, .run 0 0, .run 0 0,
    .call (.submit [5]), .run 1 0]

theorem noop_waits_twice :
    (∃ h tasks, run (step .obliging) fresh (losesTwice.take 5) = .up h tasks ∧
      h.state.replica.pending = [99] ∧ h.state.replica.offered = [99]) ∧
    ∃ h tasks, run (step .obliging) fresh losesTwice = .up h tasks ∧ h.state.replica.pending = [99, 99, 5] ∧
      result ReplicaCore.nextProposal h.state.replica =
        .error (.invalidProposal "proposal contains duplicate value IDs") ∧
      (after ReplicaCore.nextProposal h.state.replica).pending = [] ∧
        (after ReplicaCore.nextProposal h.state.replica).offered = [] := by
  have hfirst : (run (step .obliging) fresh (losesTwice.take 5)).passes (fun h =>
      decide (h.state.replica.pending = [99] ∧ h.state.replica.offered = [99])) = true := by decide +kernel
  have hsecond : (run (step .obliging) fresh losesTwice).passes
    (fun h => decide (h.state.replica.pending = [99, 99, 5] ∧
      result ReplicaCore.nextProposal h.state.replica =
        .error (.invalidProposal "proposal contains duplicate value IDs") ∧
      (after ReplicaCore.nextProposal h.state.replica).pending = [] ∧
      (after ReplicaCore.nextProposal h.state.replica).offered = [])) = true := by decide +kernel
  obtain ⟨h, tasks, hrun, hresult⟩ := up_of_passes hfirst
  obtain ⟨h', tasks', hrun', hresult'⟩ := up_of_passes hsecond
  exact ⟨⟨h, tasks, hrun, of_decide_eq_true hresult⟩, h', tasks', hrun', of_decide_eq_true hresult'⟩

/-- The no-op loses slot 1, and goes into the next batch together with a client's value. -/
theorem no_value_waits_twice_requeued :
    ∃ h tasks, run (step .obliging) fresh (losesTwice.take 4 ++ [.call (.submit [5]), .run 1 0, .run 1 0]) =
      .up h tasks ∧
      h.state.replica.offered = [99, 5] ∧ (h.state.replica.pending ++ h.state.replica.offered).Nodup := by
  have hrun : Along (step .obliging) (fun n a => n.fillsApart a = true) fresh
      (losesTwice.take 4 ++ [.call (.submit [5]), .run 1 0, .run 1 0]) := by decide +kernel
  have hoffered : (run (step .obliging) fresh (losesTwice.take 4 ++ [.call (.submit [5]), .run 1 0, .run 1 0])).passes
      (fun h => decide (h.state.replica.offered = [99, 5])) = true := by decide +kernel
  obtain ⟨h, tasks, reached, hresult⟩ := up_of_passes hoffered
  exact ⟨h, tasks, reached, of_decide_eq_true hresult, (no_value_waits_twice _ _ hrun h tasks reached).1⟩

end Node
end QuePaxa
