import QuePaxa.Core.ReplicaSpec
import QuePaxa.Runtime.Process

/-! Invariants of a process over its lifetimes: what the runtime maintains while it is up
has to follow, at a start, from what the trace keeps while it is down. -/
namespace QuePaxa
open Library
variable {V : Type}

def StoredAll (Good : RuntimeSnapshot V → Prop) (trace : List (Event V)) : Prop := Always Event.stored Good trace

namespace ReplicaRuntime

structure Booted (config : ReplicaRuntimeConfig) (stored : Option (RuntimeSnapshot V))
    (r : ReplicaRuntime V) : Prop where
  setup : r.config = config
  tuner : r.tuner.epochSize = max config.epochSize 1 ∧ r.tuner.members = config.members ∧
    r.tuner.auto = config.autoSchedules
  empty : stored = none → r.replica = ReplicaCore.new config.replica ∧ r.decisions = ∅ ∧ r.pending = ∅ ∧
    r.executed = ∅ ∧
    r.notified = ∅ ∧ r.announcedTo = ∅ ∧ r.tuner = EpochTuner.new config.epochSize config.members config.autoSchedules
  loaded : ∀ s, stored = some s → r.runtimeSnapshot = s

@[simp] theorem trace_noop (r : ReplicaRuntime V) (noop : Option V) :
    (noop.elim r r.withNoopValue).trace = r.trace := by
  cases noop <;> rfl

theorem Booted.noop {config : ReplicaRuntimeConfig} {stored : Option (RuntimeSnapshot V)} {r : ReplicaRuntime V}
    (h : Booted config stored r) (noop : Option V) : Booted config stored (noop.elim r r.withNoopValue) := by
  cases noop with
  | none => exact h
  | some value => exact ⟨h.setup, h.tuner, h.empty, h.loaded⟩

theorem pending_restored (s : RuntimeSnapshot V) :
    (s.pending.mapValues fun p => PendingProposal.armed p.valueIds).mapValues
      (fun p => (⟨p.valueIds⟩ : PendingProposalSnapshot V)) = s.pending := by
  rw [OrderedMap.mapValues_mapValues]
  exact OrderedMap.mapValues_id _ _ fun _ => rfl

variable [DecidableEq V]

theorem new_booted {config : ReplicaRuntimeConfig} {proposer : ProposerCore} {recorders : List ReplicaId}
    {stored : Option (RuntimeSnapshot V)} {trace : List (Event V)} {r : ReplicaRuntime V}
    (h : new config proposer recorders stored trace = .ok r) : Booted config stored r ∧ r.trace = trace := by
  simp only [new, except_bind_eq_ok] at h
  obtain ⟨_, _, _, _, r', hbuild, _, _, hr⟩ := h
  obtain rfl : r' = r := Except.ok.inj hr
  cases stored with
  | none =>
    obtain rfl := Except.ok.inj hbuild
    exact ⟨⟨rfl, ⟨rfl, rfl, rfl⟩, fun _ => ⟨rfl, rfl, rfl, rfl, rfl, rfl, rfl⟩, fun s hs => by cases hs⟩, rfl⟩
  | some s =>
    simp only [rebuild, except_bind_eq_ok, require_eq_ok] at hbuild
    obtain ⟨_, ⟨hcluster, hprotocol⟩, replica, hreplica, tuner, htuner, hr⟩ := hbuild
    obtain rfl := Except.ok.inj hr
    obtain rfl := ReplicaCore.restore_eq_ok hreplica
    simp only [EpochTuner.restore, unit_bind_eq_ok, pure, Except.pure, Except.ok.injEq] at htuner
    obtain ⟨_, _, rfl⟩ := htuner
    refine ⟨⟨rfl, ⟨rfl, rfl, rfl⟩, (fun hs => by cases hs), ?_⟩, rfl⟩
    rintro s' hs
    cases hs
    have hpending := pending_restored s
    simp only [runtimeSnapshot, hpending, ← hcluster, ← hprotocol]
    rfl

/-- Whatever a move saves is the state after it. -/
theorem Move.trace {env : Environment V} {op : RuntimeOp V} {r r' : ReplicaRuntime V} (h : Move env op r r') :
    r'.trace = r.trace ∨ ∃ e, r'.trace = r.trace ++ [e] ∧ e ≠ .started ∧
      ∀ s, e.stored = some s → s = r'.runtimeSnapshot := by
  have hstored : ∀ {snapshot s : RuntimeSnapshot V} {result : Result Unit},
      (Event.saved snapshot result).stored = some s → s = snapshot := by
    intro snapshot s result hs
    cases result with
    | ok u => exact (Option.some.inj hs).symm
    | error e => cases hs
  cases h with
  | quiet hq =>
    cases hq with
    | saved => exact .inr ⟨_, rfl, (fun he => nomatch he), fun s => hstored⟩
    | counted | scheduled | timed | observed => exact .inl rfl
    | _ => exact .inr ⟨_, rfl, (fun he => nomatch he), fun s hs => nomatch hs⟩
  | reconfigured => exact .inr ⟨_, rfl, (fun he => nomatch he), fun s => hstored⟩
  | exported | reconfigureFailed => exact .inr ⟨_, rfl, (fun he => nomatch he), fun s hs => nomatch hs⟩
  | _ => exact .inl rfl

end ReplicaRuntime

namespace Process
variable (J : ReplicaRuntime V → Prop) (T : List (Event V) → Prop)

def Upholds : Process V → Prop
  | .up r => J r
  | .down trace => T trace

variable {J T} [DecidableEq V] {env : Environment V}

theorem upholds_step {C : Process V → ProcessAction V → Prop}
    (hcall : ∀ r op, J r → C (.up r) (.call op) → J (after (ReplicaRuntime.perform env op) r))
    (hcrash : ∀ r op n, J r → C (.up r) (.crash op n) → T (after (ReplicaRuntime.perform env op) r).trace)
    (hcut : ∀ t p, p <+: t → T t → T p)
    (hstart : ∀ t config proposer recorders noop r, T t → C (.down t) (.restart config proposer recorders noop) →
      ReplicaRuntime.new config proposer recorders (lastSaved t) (t ++ [.started]) = .ok r →
      J (noop.elim r r.withNoopValue))
    {p : Process V} {a : ProcessAction V} (h : p.Upholds J T) (hc : C p a) : (p.step env a).Upholds J T := by
  cases p with
  | up r =>
    cases a with
    | call op => exact hcall r op h hc
    | crash op n => exact hcut _ _ (List.take_prefix ..) (hcrash r op n h hc)
    | restart => exact h
  | down t =>
    cases a with
    | call | crash => exact h
    | restart config proposer recorders noop =>
      simp only [step]
      cases hnew : ReplicaRuntime.new config proposer recorders (lastSaved t) (t ++ [.started]) with
      | error e => exact h
      | ok r => exact hstart t config proposer recorders noop r h hc hnew

theorem upholds_run {C : Process V → ProcessAction V → Prop}
    (hcall : ∀ r op, J r → C (.up r) (.call op) → J (after (ReplicaRuntime.perform env op) r))
    (hcrash : ∀ r op n, J r → C (.up r) (.crash op n) → T (after (ReplicaRuntime.perform env op) r).trace)
    (hcut : ∀ t p, p <+: t → T t → T p)
    (hstart : ∀ t config proposer recorders noop r, T t → C (.down t) (.restart config proposer recorders noop) →
      ReplicaRuntime.new config proposer recorders (lastSaved t) (t ++ [.started]) = .ok r →
      J (noop.elim r r.withNoopValue))
    (hfresh : T []) {actions : List (ProcessAction V)} (h : Along (step env) C fresh actions) :
    (run (step env) fresh actions).Upholds J T :=
  run_invariant (I := Upholds J T) (fun _ _ hp ha => upholds_step hcall hcrash hcut hstart hp ha) hfresh h

end Process
end QuePaxa
