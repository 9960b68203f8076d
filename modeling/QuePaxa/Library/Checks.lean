import Mathlib.Tactic.Common

/-! Sequences of checks that stop at the first failure, and what passing them means. -/
namespace Library
variable {ε α β : Type}
variable {f : α → Except ε β}

def require (c : Prop) [Decidable c] (e : ε) : Except ε Unit := if c then .ok () else .error e

section
variable {c : Prop} [Decidable c] {e : ε}

@[simp] theorem require_eq_ok {u : Unit} : require c e = .ok u ↔ c := by
  unfold require
  split <;> simp_all

end

theorem except_bind_eq_ok {x : Except ε α} {b : β} :
    (x >>= f) = .ok b ↔ ∃ a, x = .ok a ∧ f a = .ok b := by
  cases x <;> simp [bind, Except.bind]

theorem unit_bind_eq_ok {x : Except ε Unit} {f : Unit → Except ε β} {b : β} :
    (x >>= f) = .ok b ↔ x = .ok () ∧ f () = .ok b := by
  cases x <;> simp [bind, Except.bind]

/-- A loop of checks passes exactly when each check does. -/
@[simp] theorem forM_eq_ok {f : α → Except ε Unit} {xs : List α} {u : Unit} :
    xs.forM f = .ok u ↔ ∀ x ∈ xs, f x = .ok () := by
  induction xs with
  | nil => simp [List.forM, pure, Except.pure]
  | cons x xs ih =>
    have hstep : (x :: xs).forM f = f x >>= fun _ => xs.forM f := rfl
    rw [hstep, unit_bind_eq_ok, ih, List.forall_mem_cons]

/-- The checks may fail, but not with the given error. -/
def Never (e : ε) (x : Except ε α) : Prop := x ≠ .error e

section Never
variable {e : ε}

theorem Never.ok (a : α) : Never e (.ok a) := fun h => nomatch h

theorem Never.error {e' : ε} (h : e' ≠ e) : Never e (.error e' : Except ε α) := fun heq => h (Except.error.inj heq)

theorem Never.require {c : Prop} [Decidable c] {e' : ε} (h : e' ≠ e) : Never e (Library.require c e') := by
  unfold Library.require
  split
  · exact Never.ok ()
  · exact Never.error h

theorem Never.require_of {c : Prop} [Decidable c] (h : c) (e' : ε) : Never e (Library.require c e') := by
  unfold Library.require
  rw [if_pos h]
  exact Never.ok ()

theorem Never.bind {x : Except ε α} (hx : Never e x) (hf : ∀ a, Never e (f a)) :
    Never e (x >>= f) := by
  cases x with
  | ok a => exact hf a
  | error e' => exact Never.error fun h => hx (congrArg _ h)

theorem Never.forM {f : α → Except ε Unit} (hf : ∀ a, Never e (f a)) (xs : List α) : Never e (xs.forM f) := by
  induction xs with
  | nil => exact Never.ok ()
  | cons x xs ih => exact Never.bind (hf x) fun _ => ih

end Never

theorem mem_of_mapM_eq_ok {xs : List α} {ys : List β} (h : xs.mapM f = .ok ys) {y : β}
    (hy : y ∈ ys) : ∃ x ∈ xs, f x = .ok y := by
  induction xs generalizing ys with
  | nil =>
    simp only [List.mapM_nil, pure, Except.pure, Except.ok.injEq] at h
    subst h
    cases hy
  | cons x xs ih =>
    simp only [List.mapM_cons, except_bind_eq_ok, pure, Except.pure, Except.ok.injEq] at h
    obtain ⟨z, hz, zs, hzs, rfl⟩ := h
    rcases List.mem_cons.mp hy with rfl | hy
    · exact ⟨x, List.mem_cons_self, hz⟩
    · obtain ⟨x', hx', hf⟩ := ih hzs hy
      exact ⟨x', List.mem_cons_of_mem _ hx', hf⟩

end Library
