import Mathlib.Tactic.Common

/-! Runs of a labelled machine: an invariant rule, and runs whose every step
meets a condition on the state it starts from. -/
namespace Library
variable {σ ι : Type}

def run (step : σ → ι → σ) (s : σ) (ops : List ι) : σ := ops.foldl step s

/-- Each operation of the run is issued in a state where it meets the condition. -/
def Along (step : σ → ι → σ) (P : σ → ι → Prop) : σ → List ι → Prop
  | _, [] => True
  | s, op :: ops => P s op ∧ Along step P (step s op) ops

instance Along.decidable (step : σ → ι → σ) (P : σ → ι → Prop) [∀ s op, Decidable (P s op)] :
    (s : σ) → (ops : List ι) → Decidable (Along step P s ops)
  | _, [] => .isTrue trivial
  | s, op :: ops =>
    have := Along.decidable step P (step s op) ops
    inferInstanceAs (Decidable (P s op ∧ Along step P (step s op) ops))

def tally (step : σ → ι → σ) (counts : σ → ι → Bool) : σ → List ι → Nat
  | _, [] => 0
  | s, op :: ops => (counts s op).toNat + tally step counts (step s op) ops

variable {step : σ → ι → σ} {P : σ → ι → Prop} {I : σ → Prop}
variable {ops : List ι}

@[simp] theorem run_nil (s : σ) : run step s [] = s := rfl
@[simp] theorem run_cons (s : σ) (op : ι) (ops : List ι) :
    run step s (op :: ops) = run step (step s op) ops := rfl

theorem Along.and {Q : σ → ι → Prop} {s : σ} (hp : Along step P s ops) (hq : Along step Q s ops) :
    Along step (fun s op => P s op ∧ Q s op) s ops := by
  induction ops generalizing s with
  | nil => trivial
  | cons op ops ih => exact ⟨⟨hp.1, hq.1⟩, ih hp.2 hq.2⟩

theorem Along.mono {Q : σ → ι → Prop} (h : ∀ s op, P s op → Q s op) {s : σ} (hp : Along step P s ops) :
    Along step Q s ops := by
  induction ops generalizing s with
  | nil => trivial
  | cons op ops ih => exact ⟨h s op hp.1, ih hp.2⟩

theorem Along.of_forall (h : ∀ s op, P s op) (s : σ) (ops : List ι) : Along step P s ops := by
  induction ops generalizing s with
  | nil => trivial
  | cons op ops ih => exact ⟨h s op, ih (step s op)⟩

theorem Along.of_mem {Q : ι → Prop} (h : ∀ op ∈ ops, Q op) (s : σ) :
    Along step (fun _ op => Q op) s ops := by
  induction ops generalizing s with
  | nil => trivial
  | cons op ops ih => exact ⟨h op List.mem_cons_self, ih (fun o ho => h o (List.mem_cons_of_mem _ ho)) _⟩

theorem run_append (s : σ) (a b : List ι) : run step s (a ++ b) = run step (run step s a) b :=
  List.foldl_append

theorem Along.append {s : σ} {a b : List ι} (h : Along step P s (a ++ b)) :
    Along step P s a ∧ Along step P (run step s a) b := by
  induction a generalizing s with
  | nil => exact ⟨trivial, h⟩
  | cons op a ih =>
    obtain ⟨ha, hb⟩ := ih h.2
    exact ⟨⟨h.1, ha⟩, hb⟩

theorem tally_concat (counts : σ → ι → Bool) (s : σ) (ops : List ι) (op : ι) :
    tally step counts s (ops ++ [op]) = tally step counts s ops + (counts (run step s ops) op).toNat := by
  induction ops generalizing s with
  | nil => simp [tally]
  | cons first ops ih =>
    simp only [List.cons_append, tally, ih, run_cons]
    omega

/-- What every permitted step preserves holds after every permitted run. -/
theorem run_invariant (h : ∀ s op, I s → P s op → I (step s op)) {s : σ}
    (hs : I s) (hp : Along step P s ops) : I (run step s ops) := by
  induction ops generalizing s with
  | nil => exact hs
  | cons op ops ih => exact ih (h s op hs hp.1) hp.2

theorem run_invariant_all (h : ∀ s op, I s → I (step s op)) {s : σ} (hs : I s) (ops : List ι) :
    I (run step s ops) := by
  induction ops generalizing s with
  | nil => exact hs
  | cons op ops ih => exact ih (h s op hs)

end Library
