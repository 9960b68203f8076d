import QuePaxa.Network.Serving

/-! When a submission is found to be committed. A submission looks for one decision that covers
all its values, while batches are cut from the queue by count and may divide it. -/
namespace QuePaxa
open Library
variable {V : Type}

section
variable [DecidableEq V]

def Decision.isWhole (d : Decision V) (values : List V) : Bool :=
  values.all (· ∈ d.valueIds) || values.all (· ∉ d.valueIds)

/-- Where a retained decision divides no submission, one that has a value of it covers it. -/
theorem ConsensusState.decisionFor_isSome {s : ConsensusState V} {values : List V} (hne : values ≠ [])
    (hwhole : ∀ d ∈ s.decisions.values, d.isWhole values = true)
    (hdecided : ∀ v ∈ values, ∃ d ∈ s.decisions.values, v ∈ d.valueIds) : (s.decisionFor values).isSome = true := by
  obtain ⟨v, hv⟩ := List.exists_mem_of_ne_nil values hne
  obtain ⟨d, hd, hmem⟩ := hdecided v hv
  refine List.find?_isSome.mpr ⟨d, hd, ?_⟩
  rcases Bool.or_eq_true_iff.mp (hwhole d hd) with hall | hnone
  · exact hall
  · exact absurd hmem (of_decide_eq_true (List.all_eq_true.mp hnone v hv))

end

structure SubmissionRecord (V : Type) where
  node : Node V
  admitted : List (List V)

namespace SubmissionRecord
open NetworkConsensusHandler

def start : SubmissionRecord V := ⟨.fresh, []⟩

variable [DecidableEq V] (env : NetworkEnvironment V)

def admits : Node V → NodeAction V → List (List V)
  | .up h tasks, .run i _ => match tasks[i]? with
    | some (.submit values) => if (result (enqueueSubmission env values) h).isOk then [values] else []
    | _ => []
  | _, _ => []

def step (p : SubmissionRecord V) (a : NodeAction V) : SubmissionRecord V :=
  ⟨p.node.step env a, p.admitted ++ admits env p.node a⟩

/-- A decision to be accepted divides no submission, and a submission to be queued is not empty and
not divided by a decision. -/
def undivided (admitted : List (List V)) (h : NetworkConsensusHandler V) : Task V → Bool
  | .receiving (d :: _) | .accepting d => admitted.all d.isWhole
  | .submit values => !values.isEmpty && h.state.decisions.values.all (·.isWhole values)
  | _ => true

def keepsWhole (p : SubmissionRecord V) (a : NodeAction V) : Bool :=
  match p.node, a with
  | .up h tasks, .run i _ => (tasks[i]?).all (undivided p.admitted h)
  | _, a => a.serves

def Retains (submissions : List (List V)) (h : NetworkConsensusHandler V) : Prop :=
  ∀ values ∈ submissions, ∀ d ∈ h.state.decisions.values, d.isWhole values = true

structure Whole (p : SubmissionRecord V) : Prop where
  nonempty : ∀ values ∈ p.admitted, values ≠ []
  node : p.node.Serves (Retains p.admitted)

variable {env : NetworkEnvironment V} {h : NetworkConsensusHandler V} {task : Task V}

private theorem serving_decisions (decisions : OrderedMap SlotIndex (Decision V)) (task : Task V) :
    Serving (fun _ => True) fun s : ConsensusState V => s.decisions = decisions ∨
      ∃ d, task.accepts = some d ∧ s.decisions = decisions.insert d.slot d where
  same _ _ hs hsame := hsame.decisions ▸ hs
  executed _ _ hs := hs
  enqueued _ _ _ hs _ := hs
  claimed _ _ _ _ hs _ := hs
  drained _ _ _ hs _ := hs
  filled _ _ _ hs _ _ _ _ _ _ := hs

private theorem retains_advance {submissions : List (List V)} (hs : task.serves = true) (now : Instant)
    (hh : Retains submissions h)
    (hwhole : ∀ d, task.accepts = some d → ∀ values ∈ submissions, d.isWhole values = true) :
    Triple (· = h) (task.advance env now) (fun _ => Retains submissions) fun _ => Retains submissions := by
  have hgrown : ∀ h' : NetworkConsensusHandler V, (h'.state.decisions = h.state.decisions ∨
      ∃ d, task.accepts = some d ∧ h'.state.decisions = h.state.decisions.insert d.slot d) →
        Retains submissions h' := by
    rintro h' (heq | ⟨d, hd, heq⟩) values hvalues d' hd'
    · exact hh values hvalues d' (heq ▸ hd')
    · rw [heq] at hd'
      obtain ⟨slot, hget⟩ := (OrderedMap.mem_values ..).mp hd'
      rw [OrderedMap.get_insert] at hget
      split_ifs at hget
      · cases hget
        exact hwhole d hd values hvalues
      · exact hh values hvalues d' ((OrderedMap.mem_values ..).mpr ⟨slot, hget⟩)
  refine Triple.conseq (Task.serving_advance (serving_decisions h.state.decisions task) hs now (.inl rfl) ?_ ?_ ?_)
    (fun _ hs => hs) (fun _ h' => hgrown h') fun _ h' => hgrown h'
  · exact ⟨fun _ _ => trivial, fun _ => trivial⟩
  · exact fun d _ _ hd _ => .inr ⟨d, hd, rfl⟩
  · exact fun _ _ _ _ _ => .inl rfl

theorem mem_admits {n : Node V} {a : NodeAction V} {values : List V} (hv : values ∈ admits env n a) :
    ∃ h tasks i now, n = .up h tasks ∧ a = .run i now ∧ tasks[i]? = some (.submit values) := by
  unfold admits at hv
  split at hv
  · next h tasks i now =>
    split at hv
    · next values' here =>
      split_ifs at hv
      · exact ⟨h, tasks, i, now, rfl, rfl, List.mem_singleton.mp hv ▸ here⟩
      · cases hv
    · cases hv
  · cases hv

private theorem admits_accepting {tasks : List (Task V)} {i : Nat} {now : Instant} {d : Decision V}
    (here : tasks[i]? = some task)
    (hd : task.accepts = some d) (values : List V) : values ∉ admits env (.up h tasks) (.run i now) := by
  intro hv
  obtain ⟨_, _, _, _, hup, hrun, here'⟩ := mem_admits hv
  cases hup
  cases hrun
  rw [here] at here'
  cases here'
  cases hd

private theorem whole_step (p : SubmissionRecord V) (a : NodeAction V) (hp : p.Whole) (ha : p.keepsWhole a = true) :
    (p.step env a).Whole := by
  obtain ⟨node, admitted⟩ := p
  have hserves : a.serves = true := by
    cases node <;> cases a <;> first | exact ha | rfl
  have hnew : ∀ values ∈ admits env node a, values ≠ [] ∧ ∀ h tasks, node = .up h tasks →
      ∀ d ∈ h.state.decisions.values, d.isWhole values = true := by
    intro values hv
    obtain ⟨h, tasks, i, now, rfl, rfl, here⟩ := mem_admits hv
    simp only [keepsWhole, here, Option.all_some, undivided, Bool.and_eq_true, Bool.not_eq_true', List.all_eq_true]
      at ha
    refine ⟨List.isEmpty_eq_false_iff.mp ha.1, fun h' tasks' heq => ?_⟩
    cases heq
    exact ha.2
  refine ⟨fun values hv => ?_, ?_⟩
  · rcases List.mem_append.mp hv with hv | hv
    · exact hp.nonempty values hv
    · exact (hnew values hv).1
  have hbefore : node.Serves (Retains (admitted ++ admits env node a)) := by
    cases node with
    | down trace => exact hp.node
    | up h tasks =>
      refine ⟨fun values hv => ?_, hp.node.2⟩
      rcases List.mem_append.mp hv with hv | hv
      · exact hp.node.1 values hv
      · exact (hnew values hv).2 h tasks rfl
  refine Node.serves_step (C := fun _ task => ∀ d, task.accepts = some d →
    ∀ values ∈ admitted ++ admits env node a, d.isWhole values = true) ?_ ?_ hbefore hserves ?_
  · intro config recorders h noop hstart values _ d hd
    obtain ⟨_, ⟨_, hfresh⟩ | ⟨_, hsome, _⟩⟩ := new_ok hstart
    · rw [hfresh] at hd
      cases hd
    · cases hsome
  · exact fun h task now hh hs hwhole => retains_advance hs now hh hwhole
  · rintro h tasks i now task rfl rfl here d hd values hv
    rcases List.mem_append.mp hv with hv | hv
    · simp only [keepsWhole, here, Option.all_some] at ha
      unfold Task.accepts at hd
      split at hd
      · cases hd
        exact List.all_eq_true.mp ha values hv
      · cases hd
        exact List.all_eq_true.mp ha values hv
      · cases hd
    · exact absurd hv (admits_accepting here hd values)

/-- A submission all of whose values are decided is found committed at its next turn. -/
theorem decided_submissions_return (env : NetworkEnvironment V) (actions : List (NodeAction V))
    (hrun : Along (step env) (fun p a => p.keepsWhole a = true) start actions)
    (h : NetworkConsensusHandler V) (tasks : List (Task V))
    (reached : (run (step env) start actions).node = .up h tasks)
    (values : List V) (admitted : values ∈ (run (step env) start actions).admitted)
    (decided : ∀ v ∈ values, ∃ d ∈ h.state.decisions.values, v ∈ d.valueIds) :
    (h.state.decisionFor values).isSome = true ∧ ∃ d, submissionTurn env values h = .ok (.committed d) h := by
  have hstart : (start : SubmissionRecord V).Whole := ⟨fun _ hv => (nomatch hv), rfl⟩
  have hwhole := run_invariant whole_step hstart hrun
  have hnode := hwhole.node
  rw [reached] at hnode
  have hsome := ConsensusState.decisionFor_isSome (hwhole.nonempty values admitted) (hnode.1 values admitted) decided
  obtain ⟨d, hd⟩ := Option.isSome_iff_exists.mp hsome
  refine ⟨hsome, d, ?_⟩
  simp only [submissionTurn, bind_apply (x := get), get_apply, hd]
  rfl

/-! Two submissions are queued, values 1 and values 2 and 3, and batches hold two values. The
first batch takes 1 and 2, the second one 3, and both are decided as proposed: no decision covers
the second submission, and there is nothing left to propose. -/

def unopposed : NetworkEnvironment Nat :=
  { NetworkEnvironment.obliging with propose := fun _ call => .ok ⟨call.slot, call.valueIds, 1, 4⟩ }

def twoValueBatches : ReplicaRuntimeConfig := { nodeOne with replica := { ReplicaConfig.default with batchSize := 2 } }

def proposeThird : List (NodeAction Nat) := List.replicate 6 (.run 2 0)

def dividedSubmission : List (NodeAction Nat) :=
  [.restart twoValueBatches [1, 2, 3] none, .call (.submit [1]), .call (.submit [2, 3]), .run 0 0, .run 0 0,
    .run 0 0] ++
    proposeThird ++ [.run 0 0] ++ proposeThird

theorem divided_submission_waits :
    ∃ h tasks, (run (step unopposed) start dividedSubmission).node = .up h tasks ∧ .submitting [2, 3] ∈ tasks ∧
      [2, 3] ∈ (run (step unopposed) start dividedSubmission).admitted ∧
      h.state.decisions.values.map (·.valueIds) = [[1, 2], [3]] ∧ h.state.decisionFor [2, 3] = none ∧
      h.state.replica.pending = [] ∧ h.state.pending.keys = [] ∧ result (submissionTurn unopposed [2, 3]) h =
        .ok .wait := by
  have hwaits : (run (step unopposed) start dividedSubmission).node.upWith (fun h tasks =>
      decide (.submitting [2, 3] ∈ tasks ∧ [2, 3] ∈ (run (step unopposed) start dividedSubmission).admitted ∧
        h.state.decisions.values.map (·.valueIds) = [[1, 2], [3]] ∧ h.state.decisionFor [2, 3] = none ∧
        h.state.replica.pending = [] ∧ h.state.pending.keys = [] ∧ result (submissionTurn unopposed [2, 3]) h =
          .ok .wait)) =
      true := by decide +kernel
  obtain ⟨h, tasks, hnode, hresult⟩ := Node.exists_up hwaits
  exact ⟨h, tasks, hnode, of_decide_eq_true hresult⟩

def largerFirst : List (NodeAction Nat) :=
  [.restart twoValueBatches [1, 2, 3] none, .call (.submit [2, 3]), .call (.submit [1]), .run 0 0, .run 1 0] ++
    proposeThird ++
    [.run 0 0]

theorem decided_submissions_return_undivided :
    ∃ h tasks, (run (step unopposed) start largerFirst).node = .up h tasks ∧
      (run (step unopposed) start largerFirst).admitted = [[2, 3], [1]] ∧
      ∃ d, submissionTurn unopposed [2, 3] h = .ok (.committed d) h := by
  have hrun : Along (step unopposed) (fun p a => p.keepsWhole a = true) start largerFirst := by decide +kernel
  have hadmitted : (run (step unopposed) start largerFirst).admitted = [[2, 3], [1]] := by decide +kernel
  have hdecided : (run (step unopposed) start largerFirst).node.passes (fun h =>
      decide ([2, 3] ∈ h.state.decisions.values.map (·.valueIds))) = true := by decide +kernel
  obtain ⟨h, tasks, reached, hresult⟩ := Node.up_of_passes hdecided
  obtain ⟨d, hd, hvalues⟩ := List.mem_map.mp (of_decide_eq_true hresult)
  have hmem : [2, 3] ∈ (run (step unopposed) start largerFirst).admitted := hadmitted ▸ List.mem_cons_self
  have hcovered : ∀ v ∈ [2, 3], ∃ d ∈ h.state.decisions.values, v ∈ d.valueIds := fun v hv => ⟨d, hd, hvalues ▸ hv⟩
  exact ⟨h, tasks, reached, hadmitted,
    (decided_submissions_return unopposed largerFirst hrun h tasks reached [2, 3] hmem hcovered).2⟩

end SubmissionRecord
end QuePaxa
