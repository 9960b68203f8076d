import QuePaxa.Library.Checks

/-! Computations that change a state and may fail part-way. A failure keeps the
state reached so far: nothing is rolled back unless the program does so itself. -/
namespace Library
variable {ε σ τ α β : Type}

/-- The state a computation leaves behind, whether it returned or failed. -/
def after (x : EStateM ε σ α) (s : σ) : σ :=
  match x s with
  | .ok _ s' => s'
  | .error _ s' => s'

def result (x : EStateM ε σ α) (s : σ) : Except ε α :=
  match x s with
  | .ok a _ => .ok a
  | .error e _ => .error e

def check (x : Except ε α) : EStateM ε σ α := fun s =>
  match x with
  | .ok a => .ok a s
  | .error e => .error e s

def zoom (view : σ → τ) (put : σ → τ → σ) (x : EStateM ε τ α) : EStateM ε σ α := fun s =>
  match x (view s) with
  | .ok a t => .ok a (put s t)
  | .error e t => .error e (put s t)

def onlyIf (c : Prop) [Decidable c] (x : EStateM ε σ Unit) : EStateM ε σ Unit := if c then x else pure ()

/-- A Hoare triple with one postcondition for a return and one for a failure. -/
def Triple (P : σ → Prop) (x : EStateM ε σ α) (Q : α → σ → Prop) (E : ε → σ → Prop) : Prop :=
  ∀ s, P s → match x s with
    | .ok a s' => Q a s'
    | .error e s' => E e s'

/-- The invariant survives the computation on both of its ways out. -/
def Keeps (I : σ → Prop) (x : EStateM ε σ α) : Prop := Triple I x (fun _ => I) (fun _ => I)

variable {P R : σ → Prop} {Q : α → σ → Prop} {E : ε → σ → Prop} {I : σ → Prop}
variable {x : EStateM ε σ α} {f : α → EStateM ε σ β} {s : σ} {put : σ → τ → σ}

@[simp] theorem bind_apply (x : EStateM ε σ α) (f : α → EStateM ε σ β) (s : σ) :
    (x >>= f) s = match x s with
      | .ok a s' => f a s'
      | .error e s' => .error e s' := rfl

@[simp] theorem pure_apply (a : α) (s : σ) : (pure a : EStateM ε σ α) s = .ok a s := rfl
@[simp] theorem throw_apply (e : ε) (s : σ) : (throw e : EStateM ε σ α) s = .error e s := rfl
@[simp] theorem get_apply (s : σ) : (get : EStateM ε σ σ) s = .ok s s := rfl
@[simp] theorem set_apply (s t : σ) : (set t : EStateM ε σ PUnit) s = .ok ⟨⟩ t := rfl
@[simp] theorem modify_apply (f : σ → σ) (s : σ) :
    (modify f : EStateM ε σ PUnit) s = .ok ⟨⟩ (f s) := rfl
@[simp] theorem check_ok (a : α) (s : σ) : (check (.ok a) : EStateM ε σ α) s = .ok a s := rfl
@[simp] theorem check_error (e : ε) (s : σ) : (check (.error e) : EStateM ε σ α) s = .error e s := rfl

theorem bind_eq_ok {t : σ} {b : β} :
    (x >>= f) s = .ok b t ↔ ∃ a m, x s = .ok a m ∧ f a m = .ok b t := by
  rw [bind_apply]
  cases x s <;> simp

theorem bind_eq_error {t : σ} {e : ε} :
    (x >>= f) s = .error e t ↔ x s = .error e t ∨ ∃ a m, x s = .ok a m ∧ f a m = .error e t := by
  rw [bind_apply]
  cases x s <;> simp

theorem check_bind_eq_ok {x : Except ε α} {t : σ} {b : β} :
    (check x >>= f) s = .ok b t ↔ ∃ a, x = .ok a ∧ f a s = .ok b t := by
  rw [bind_apply]
  cases x <;> simp

theorem bind_pure_eq_ok {f : α → β} {t : σ} {b : β} :
    (x >>= fun a => pure (f a)) s = .ok b t ↔ ∃ a, x s = .ok a t ∧ b = f a := by
  rw [bind_apply]
  cases x s with
  | ok a m =>
    simp only [pure_apply, EStateM.Result.ok.injEq]
    constructor
    · rintro ⟨rfl, rfl⟩
      exact ⟨a, ⟨rfl, rfl⟩, rfl⟩
    · rintro ⟨a', ⟨rfl, rfl⟩, rfl⟩
      exact ⟨rfl, rfl⟩
  | error e m => simp

theorem after_ok {t : σ} {a : α} (h : x s = .ok a t) : after x s = t := by
  simp [after, h]

theorem after_error {t : σ} {e : ε} (h : x s = .error e t) : after x s = t := by
  simp [after, h]

theorem after_bind_pure (f : α → β) (x : EStateM ε σ α) (s : σ) :
    after (x >>= fun a => pure (f a)) s = after x s := by
  simp only [after, bind_apply, pure_apply]
  cases x s <;> rfl

theorem Triple.conseq {P' : σ → Prop} {Q' : α → σ → Prop} {E' : ε → σ → Prop}
    (h : Triple P x Q E) (hp : ∀ s, P' s → P s) (hq : ∀ a s, Q a s → Q' a s)
    (he : ∀ e s, E e s → E' e s) : Triple P' x Q' E' := by
  intro s hs
  have := h s (hp s hs)
  split <;> simp_all

theorem Triple.pure {a : α} (h : ∀ s, P s → Q a s) : Triple P (Pure.pure a) Q E := h

theorem Triple.bind {S : β → σ → Prop}
    (hx : Triple P x Q E) (hf : ∀ a, Triple (Q a) (f a) S E) : Triple P (x >>= f) S E := by
  intro s hs
  have := hx s hs
  rw [bind_apply]
  cases h : x s with
  | ok a m => rw [h] at this; exact hf a m this
  | error e m => rw [h] at this; exact this

theorem Triple.check {x : Except ε α} (hq : ∀ a s, x = .ok a → P s → Q a s) (he : ∀ e s, x = .error e → P s → E e s) :
    Triple P (Library.check x : EStateM ε σ α) Q E := by
  intro s hs
  cases x with
  | ok a => exact hq a s rfl hs
  | error e => exact he e s rfl hs

theorem Triple.ite {c : Prop} [Decidable c] {y : EStateM ε σ α}
    (hx : c → Triple P x Q E) (hy : ¬c → Triple P y Q E) : Triple P (if c then x else y) Q E := by
  split
  · exact hx ‹_›
  · exact hy ‹_›

theorem Keeps.pure (a : α) : Keeps I (Pure.pure a : EStateM ε σ α) := fun _ h => h
theorem Keeps.throw (e : ε) : Keeps I (MonadExcept.throw e : EStateM ε σ α) := fun _ h => h
theorem Keeps.get : Keeps I (MonadState.get : EStateM ε σ σ) := fun _ h => h

theorem Keeps.check (x : Except ε α) : Keeps I (Library.check x : EStateM ε σ α) := by
  intro s h
  cases x <;> exact h

theorem Keeps.modify {f : σ → σ} (h : ∀ s, I s → I (f s)) :
    Keeps I (modify f : EStateM ε σ PUnit) := h

theorem Keeps.bind (hx : Keeps I x) (hf : ∀ a, Keeps I (f a)) : Keeps I (x >>= f) := Triple.bind hx hf

theorem Keeps.and {J : σ → Prop} (hi : Keeps I x) (hj : Keeps J x) :
    Keeps (fun s => I s ∧ J s) x := by
  intro s hs
  have hfst := hi s hs.1
  have hsnd := hj s hs.2
  cases h : x s <;> rw [h] at hfst hsnd <;> exact ⟨hfst, hsnd⟩

theorem Keeps.ite {c : Prop} [Decidable c] {y : EStateM ε σ α}
    (hx : c → Keeps I x) (hy : ¬c → Keeps I y) : Keeps I (if c then x else y) := Triple.ite hx hy

theorem Keeps.onlyIf {c : Prop} [Decidable c] {x : EStateM ε σ Unit} (hx : c → Keeps I x) :
    Keeps I (onlyIf c x) := Keeps.ite hx fun _ => Keeps.pure _

/-- Loop rule: an invariant of the body is one of the loop, early failures included. -/
theorem Keeps.forM {f : β → EStateM ε σ PUnit} (xs : List β) (h : ∀ b ∈ xs, Keeps I (f b)) :
    Keeps I (xs.forM f) := by
  induction xs with
  | nil => exact Keeps.pure _
  | cons b bs ih =>
    exact Keeps.bind (h b List.mem_cons_self) (fun _ => ih (fun c hc => h c (List.mem_cons_of_mem _ hc)))

theorem Keeps.after (h : Keeps I x) (hs : I s) : I (Library.after x s) := by
  have := h s hs
  unfold Library.after
  cases hx : x s <;> rw [hx] at this <;> exact this

theorem Keeps.ok (h : Keeps I x) {t : σ} {a : α} (hs : I s) (hx : x s = .ok a t) : I t := by
  have := h s hs
  rwa [hx] at this

theorem Keeps.error (h : Keeps I x) {t : σ} {e : ε} (hs : I s) (hx : x s = .error e t) : I t := by
  have := h s hs
  rwa [hx] at this

theorem Keeps.of_after (h : ∀ s, I s → I (Library.after x s)) : Keeps I x := by
  intro s hs
  have := h s hs
  unfold Library.after at this
  cases hx : x s <;> rw [hx] at this <;> exact this

def Avoids (e : ε) (x : EStateM ε σ α) : Prop := ∀ s, Never e (result x s)

section Avoids
variable {e : ε}

theorem Avoids.pure (a : α) : Avoids e (Pure.pure a : EStateM ε σ α) := fun _ => Never.ok a

theorem Avoids.get : Avoids e (MonadState.get : EStateM ε σ σ) := fun s => Never.ok s

theorem Avoids.throw {e' : ε} (h : e' ≠ e) : Avoids e (MonadExcept.throw e' : EStateM ε σ α) := fun _ => Never.error h

theorem Avoids.set (t : σ) : Avoids e (MonadStateOf.set t : EStateM ε σ PUnit) := fun _ => Never.ok _

theorem Avoids.modify (f : σ → σ) : Avoids e (modify f : EStateM ε σ PUnit) := fun _ => Never.ok _

theorem Avoids.check {x : Except ε α} (h : Never e x) : Avoids e (Library.check x : EStateM ε σ α) := by
  intro s
  cases x with
  | ok a => exact Never.ok a
  | error e' => exact h

theorem Avoids.bind (hx : Avoids e x) (hf : ∀ a, Avoids e (f a)) :
    Avoids e (x >>= f) := by
  intro s
  have hfirst := hx s
  simp only [result, bind_apply] at hfirst ⊢
  cases h : x s with
  | ok a s' => exact hf a s'
  | error e' s' =>
    rw [h] at hfirst
    exact Never.error fun heq => hfirst (congrArg _ heq)

theorem Avoids.ite {c : Prop} [Decidable c] {y : EStateM ε σ α} (hx : Avoids e x) (hy : Avoids e y) :
    Avoids e (if c then x else y) := by
  split
  · exact hx
  · exact hy

theorem Avoids.onlyIf {c : Prop} [Decidable c] {x : EStateM ε σ Unit} (hx : Avoids e x) : Avoids e (onlyIf c x) :=
  .ite hx (.pure _)

theorem Avoids.zoom {view : σ → τ} {x : EStateM ε τ α} (hx : Avoids e x) :
    Avoids e (zoom view put x) := by
  intro s
  have hinner := hx (view s)
  simp only [result, Library.zoom] at hinner ⊢
  cases h : x (view s) with
  | ok a t => exact Never.ok a
  | error e' t => rwa [h] at hinner

theorem Avoids.get_bind {f : σ → EStateM ε σ α} (h : Avoids e (f s)) :
    Never e (result (MonadState.get >>= f) s) :=
  h s

/-- An invariant and an error that does not occur, in one triple. -/
theorem Keeps.avoiding (hk : Keeps I x) (ha : Avoids e x) :
    Triple I x (fun _ => I) fun e' _ => e' ≠ e := by
  intro s hs
  have hkept := hk s hs
  have hnever := ha s
  simp only [result] at hnever
  cases h : x s with
  | ok a t => rwa [h] at hkept
  | error e' t =>
    rw [h] at hnever
    exact fun heq => hnever (congrArg _ heq)

theorem Avoids.triple (h : Avoids e x) : Triple P x (fun _ _ => True) fun e' _ => e' ≠ e := by
  have htrue : Keeps (fun _ => True) x := Keeps.of_after fun _ _ => trivial
  exact (htrue.avoiding h).conseq (fun _ _ => trivial) (fun _ _ h => h) fun _ _ h => h

theorem Triple.never (h : Triple P x Q fun e' _ => e' ≠ e) (hs : P s) :
    Never e (result x s) := by
  have hcase := h s hs
  simp only [result]
  cases hx : x s with
  | ok a t => exact Never.ok a
  | error e' t =>
    rw [hx] at hcase
    exact Never.error hcase

end Avoids

/-- What holds of a component's computation holds of the larger one. -/
theorem Triple.zoom {view : σ → τ} (hput : ∀ s t, view (put s t) = t) {x : EStateM ε τ α} {P : τ → Prop}
    {Q : α → τ → Prop} {E : ε → τ → Prop} (h : Triple P x Q E) :
    Triple (fun s => P (view s)) (zoom view put x) (fun a s => Q a (view s)) fun e s => E e (view s) := by
  intro s hs
  have hinner := h (view s) hs
  simp only [Library.zoom]
  cases hx : x (view s) <;> rw [hx] at hinner <;> simpa only [hput] using hinner

/-- A component's invariant lifts along `zoom` when the rest of the state does not matter. -/
theorem Keeps.zoom {view : σ → τ} {x : EStateM ε τ α} {J : σ → τ → Prop}
    (hx : ∀ s, I s → J s (Library.after x (view s))) (hput : ∀ s t, I s → J s t → I (put s t)) :
    Keeps I (zoom view put x) := by
  intro s hs
  have := hx s hs
  unfold Library.after at this
  unfold Library.zoom
  cases h : x (view s) <;> rw [h] at this <;> exact hput _ _ hs this

end Library
