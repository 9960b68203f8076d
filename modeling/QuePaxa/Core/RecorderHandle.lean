import QuePaxa.Core.Types
import QuePaxa.Library.Runs

/-! The guard of a recorder endpoint. Calls from any threads share one flag; the worker of a call
holds it until the client returns, whether or not the caller still waits. -/
namespace QuePaxa
open Library
variable {α : Type}

/-- How far a call has come. The flag is taken before the thread is started. -/
inductive CallStage (α : Type) where
  | refused
  | claimed
  | running
  | released (result : Result α)
  | sent (result : Result α)

structure HandleCall (α : Type) where
  stage : CallStage α
  answer : Option (Result α)

def HandleCall.holds (call : HandleCall α) : Bool :=
  match call.stage with
  | .claimed | .running => true
  | _ => false

structure RecorderHandle (α : Type) where
  id : ReplicaId
  poisoned : Bool
  inFlight : Bool
  calls : List (HandleCall α)

inductive HandleAction (α : Type) where
  | tryBegin
  | spawnFails (call : Nat)
  | spawn (call : Nat)
  /-- The client returns, or panics. -/
  | finish (call : Nat) (outcome : Option (Result α))
  | send (call : Nat)
  | timeOut (call : Nat)

namespace RecorderHandle

def new (id : ReplicaId) : RecorderHandle α := ⟨id, false, false, []⟩

def reply (h : RecorderHandle α) (outcome : Option (Result α)) : Result α :=
  if h.poisoned then .error (.transportError "recorder client lock was poisoned")
  else outcome.getD (.error (.transportError "recorder client panicked while handling an RPC"))

def step (h : RecorderHandle α) : HandleAction α → RecorderHandle α
  | .tryBegin =>
    let id := h.id
    if h.inFlight then
      { h with calls := h.calls ++
        [⟨.refused, some (.error (.transportError s!"recorder {id} already has an RPC in flight"))⟩] }
    else { h with inFlight := true, calls := h.calls ++ [⟨.claimed, none⟩] }
  | .spawnFails k =>
    match h.calls[k]? with
    | some ⟨.claimed, _⟩ => { h with
        inFlight := false
        calls := h.calls.set k ⟨.refused, some (.error (.transportError "could not start recorder RPC worker"))⟩ }
    | _ => h
  | .spawn k =>
    match h.calls[k]? with
    | some ⟨.claimed, answer⟩ => { h with calls := h.calls.set k ⟨.running, answer⟩ }
    | _ => h
  | .finish k outcome =>
    match h.calls[k]? with
    -- the guard is dropped before the result is sent
    | some ⟨.running, answer⟩ => { h with
        inFlight := false
        poisoned := h.poisoned || outcome.isNone
        calls := h.calls.set k ⟨.released (h.reply outcome), answer⟩ }
    | _ => h
  | .send k =>
    match h.calls[k]? with
    | some ⟨.released result, answer⟩ => { h with calls := h.calls.set k ⟨.sent result, answer.or (some result)⟩ }
    | _ => h
  | .timeOut k =>
    match h.calls[k]? with
    | some ⟨.claimed, _⟩ => h
    | some ⟨stage, none⟩ => { h with
        calls := h.calls.set k ⟨stage, some (.error (.transportError "recorder RPC exceeded its transport timeout"))⟩ }
    | _ => h

structure Guarded (h : RecorderHandle α) : Prop where
  holders : h.calls.countP (·.holds) = h.inFlight.toNat
  answered : ∀ call ∈ h.calls, ∀ value, call.answer = some (.ok value) → call.stage = .sent (.ok value)

private theorem Guarded.set {h : RecorderHandle α} (hg : h.Guarded) {k : Nat} {old new : HandleCall α}
    (hk : h.calls[k]? = some old)
    (poisoned flag : Bool) (hflag : old.holds.toNat + flag.toNat = h.inFlight.toNat + new.holds.toNat)
    (hanswer : ∀ value, new.answer = some (.ok value) → new.stage = .sent (.ok value)) :
    Guarded { h with poisoned, inFlight := flag, calls := h.calls.set k new } := by
  obtain ⟨hlt, rfl⟩ := List.getElem?_eq_some_iff.mp hk
  refine ⟨?_, fun call hcall => ?_⟩
  · have hcount := hg.holders
    have hpos : h.calls[k].holds = true → 0 < h.calls.countP (·.holds) :=
      fun hh => List.countP_pos_iff.mpr ⟨_, List.getElem_mem hlt, hh⟩
    simp only [List.countP_set hlt]
    cases hold : h.calls[k].holds <;> cases hnew : new.holds <;> simp_all <;> omega
  · rcases List.mem_or_eq_of_mem_set hcall with hmem | rfl
    · exact hg.answered call hmem
    · exact hanswer

private theorem Guarded.append {h : RecorderHandle α} (hg : h.Guarded) {new : HandleCall α} {flag : Bool}
    (hflag : flag.toNat = h.inFlight.toNat + new.holds.toNat) (hanswer : ∀ value, new.answer ≠ some (.ok value)) :
    Guarded { h with inFlight := flag, calls := h.calls ++ [new] } := by
  refine ⟨?_, fun call hcall => ?_⟩
  · rw [List.countP_append, hg.holders, hflag, List.countP_singleton]
    cases new.holds <;> rfl
  · rcases List.mem_append.mp hcall with hmem | hnew
    · exact hg.answered call hmem
    · obtain rfl := List.mem_singleton.mp hnew
      exact fun value heq => absurd heq (hanswer value)

private theorem Guarded.flag {h : RecorderHandle α} (hg : h.Guarded) {call : HandleCall α} (hcall : call ∈ h.calls)
    (hholds : call.holds = true) :
    h.inFlight = true := by
  have hpos := List.countP_pos_iff.mpr ⟨call, hcall, hholds⟩
  rw [hg.holders] at hpos
  cases hflag : h.inFlight with
  | true => rfl
  | false => simp [hflag] at hpos

private theorem Guarded.step {h : RecorderHandle α} (hg : h.Guarded) (action : HandleAction α) :
    (h.step action).Guarded := by
  cases action with
  | tryBegin =>
    simp only [RecorderHandle.step]
    split_ifs with hflag
    · exact hg.append (by simp [HandleCall.holds]) (by simp)
    · exact hg.append (by simp [HandleCall.holds, hflag]) (by simp)
  | spawnFails k =>
    simp only [RecorderHandle.step]
    split
    · next hk => exact hg.set hk _ _ (by simp [HandleCall.holds, hg.flag (List.mem_of_getElem? hk) rfl]) (by simp)
    · exact hg
  | spawn k =>
    simp only [RecorderHandle.step]
    split
    · next hk =>
      exact hg.set hk _ _ (by simp [HandleCall.holds, Nat.add_comm]) fun value hv => by
        cases hg.answered _ (List.mem_of_getElem? hk) value hv
    · exact hg
  | finish k outcome =>
    simp only [RecorderHandle.step]
    split
    · next hk =>
      exact hg.set hk _ _ (by simp [HandleCall.holds, hg.flag (List.mem_of_getElem? hk) rfl]) fun value hv => by
        cases hg.answered _ (List.mem_of_getElem? hk) value hv
    · exact hg
  | send k =>
    simp only [RecorderHandle.step]
    split
    · next result answer hk =>
      refine hg.set hk _ _ (by simp [HandleCall.holds]) fun value hv => ?_
      cases answer with
      | none => exact congrArg CallStage.sent (Option.some.inj hv)
      | some earlier => cases hg.answered _ (List.mem_of_getElem? hk) value hv
    · exact hg
  | timeOut k =>
    simp only [RecorderHandle.step]
    split
    · exact hg
    · next hk => exact hg.set hk _ _ (by simp [HandleCall.holds, Nat.add_comm]) (by simp)
    · exact hg

/-- Over every interleaving of calls, workers, timeouts, panics and failed spawns, the flag is set
exactly while one call holds it, so an endpoint never has a second worker with its client, however
many callers have given up; and a caller that got a value has it from a worker that let go. -/
theorem endpoint_serves_one_call_at_a_time (id : ReplicaId) (actions : List (HandleAction α)) :
    let h := run step (new id) actions
    h.calls.countP (·.holds) = h.inFlight.toNat ∧
      ∀ call ∈ h.calls, ∀ value, call.answer = some (.ok value) → call.stage = .sent (.ok value) := by
  have hg : (run step (new id) actions : RecorderHandle α).Guarded :=
    run_invariant_all (fun _ action hg => hg.step action) ⟨rfl, fun _ hcall => absurd hcall List.not_mem_nil⟩ actions
  exact ⟨hg.holders, hg.answered⟩

end RecorderHandle
end QuePaxa
