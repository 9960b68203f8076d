import QuePaxa.Core.Types

/-! The interval summary register: constant-space state of one slot at one recorder. -/
namespace QuePaxa
variable {V : Type}

structure RecordSummary (V : Type) where
  step : Step
  first : Option (Proposal V)
  priorAggregate : Option (Proposal V)
  deriving DecidableEq, Repr

structure IntervalSummarySnapshot (V : Type) where
  step : Step
  first : Option (Proposal V)
  currentAggregate : Option (Proposal V)
  priorAggregate : Option (Proposal V)
  deriving DecidableEq, Repr

structure IntervalSummaryRegister (V : Type) where
  step : Step
  first : Option (Proposal V)
  currentAggregate : Option (Proposal V)
  priorAggregate : Option (Proposal V)
  deriving DecidableEq, Repr

namespace IntervalSummaryRegister

def default : IntervalSummaryRegister V := ⟨Step.initial, none, none, none⟩

def snapshot (r : IntervalSummaryRegister V) : IntervalSummarySnapshot V :=
  ⟨r.step, r.first, r.currentAggregate, r.priorAggregate⟩

def restore (s : IntervalSummarySnapshot V) : IntervalSummaryRegister V :=
  ⟨s.step, s.first, s.currentAggregate, s.priorAggregate⟩

/-- The register after a record call; a stale step changes nothing. -/
def advance (r : IntervalSummaryRegister V) (step : Step) (proposal : Proposal V) :
    IntervalSummaryRegister V :=
  if step = r.step then
    { r with
      first := some (r.first.getD proposal)
      currentAggregate := some (bestProposal r.currentAggregate proposal) }
  else if r.step < step then
    { step
      first := some proposal
      currentAggregate := some proposal
      priorAggregate := if Step.isNextAfter step r.step then r.currentAggregate else none }
  else r

def summary (r : IntervalSummaryRegister V) : RecordSummary V := ⟨r.step, r.first, r.priorAggregate⟩

def record (r : IntervalSummaryRegister V) (step : Step) (proposal : Proposal V) :
    RecordSummary V × IntervalSummaryRegister V :=
  let r := r.advance step proposal
  (r.summary, r)

@[simp] theorem restore_snapshot (r : IntervalSummaryRegister V) : restore r.snapshot = r := rfl
@[simp] theorem snapshot_restore (s : IntervalSummarySnapshot V) : (restore s).snapshot = s := rfl

theorem advance_step (r : IntervalSummaryRegister V) (step : Step) (proposal : Proposal V) :
    (r.advance step proposal).step = max r.step step := by
  unfold advance
  rcases lt_trichotomy step r.step with h | h | h
  · rw [if_neg (ne_of_lt h), if_neg (not_lt_of_gt h), max_eq_left (le_of_lt h)]
  · rw [if_pos h, h, max_self]
  · rw [if_neg (ne_of_gt h), if_pos h, max_eq_right (le_of_lt h)]

end IntervalSummaryRegister
end QuePaxa
