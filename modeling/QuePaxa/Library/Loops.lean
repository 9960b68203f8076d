import QuePaxa.Library.Mutation

/-! Loops that run until their body breaks out. A bound makes them total; where a measure
drops with every further turn, any bound above it gives the unbounded loop. -/
namespace Library
variable {ε σ α β : Type}
variable {body : α → EStateM ε σ (α ⊕ β)} {E : ε → σ → Prop} {f : β → EStateM ε σ (List α)} {out : α → β}
  {J : List β → σ → Prop}

/-- Repeat the body while it returns `inl`; `out` is the result when the bound is used up. -/
def loop {m : Type → Type} [Monad m] (body : α → m (α ⊕ β)) (out : α → β) : Nat → α → m β
  | 0, a => pure (out a)
  | n + 1, a => do
    match ← body a with
    | .inl a' => loop body out n a'
    | .inr b => pure b

/-- Loop rule: `J` holds at every turn. -/
theorem Triple.loop {J : α → σ → Prop} {Q : β → σ → Prop}
    (hbody : ∀ a, Triple (J a) (body a) (fun r s => r.elim (J · s) (Q · s)) E)
    (hout : ∀ a s, J a s → Q (out a) s) (n : Nat) (a : α) : Triple (J a) (loop body out n a) Q E := by
  induction n generalizing a with
  | zero => exact Triple.pure (hout a)
  | succ n ih =>
    apply Triple.bind (hbody a)
    intro r
    cases r with
    | inl a' => exact ih a'
    | inr b => exact Triple.pure fun _ h => h

/-- Loop rule with a variant that stays below the bound: the loop ends at a break. -/
theorem Triple.loop_variant {J : α → σ → Prop} {Q : β → σ → Prop} {μ : σ → Nat}
    (hbody : ∀ a m, Triple (fun s => J a s ∧ μ s ≤ m) (body a)
      (fun r s => r.elim (fun a' => J a' s ∧ μ s < m) (Q · s)) E)
    (n : Nat) (a : α) : Triple (fun s => J a s ∧ μ s < n) (Library.loop body out n a) Q E := by
  induction n generalizing a with
  | zero => exact fun s hs => absurd hs.2 (Nat.not_lt_zero _)
  | succ n ih =>
    have hpre : ∀ s, J a s ∧ μ s < n + 1 → J a s ∧ μ s ≤ n := fun s hs => ⟨hs.1, Nat.le_of_lt_succ hs.2⟩
    apply Triple.bind ((hbody a n).conseq hpre (fun _ _ h => h) fun _ _ h => h)
    intro r
    cases r with
    | inl a' => exact ih a'
    | inr b => exact Triple.pure fun _ h => h

theorem Keeps.loop {I : σ → Prop}
    (hbody : ∀ a, Keeps I (body a)) (n : Nat) (a : α) : Keeps I (Library.loop body out n a) := by
  apply Triple.loop (J := fun _ => I) ?_ fun _ _ h => h
  intro a'
  apply (hbody a').conseq (fun _ h => h) ?_ fun _ _ h => h
  intro r s h
  cases r <;> exact h

theorem Never.loop {e : ε} {body : α → Except ε (α ⊕ β)} (hbody : ∀ a, Never e (body a)) (n : Nat) (a : α) :
    Never e (Library.loop body out n a) := by
  induction n generalizing a with
  | zero => exact Never.ok _
  | succ n ih =>
    apply Never.bind (hbody a)
    intro r
    cases r with
    | inl a' => exact ih a'
    | inr b => exact Never.ok b

/-- Loop rule for a list: `J` speaks of the elements still to come. -/
theorem Triple.forM {f : β → EStateM ε σ PUnit}
    (h : ∀ b bs, Triple (J (b :: bs)) (f b) (fun _ => J bs) E) (bs : List β) : Triple (J bs) (bs.forM f)
    (fun _ => J []) E := by
  induction bs with
  | nil => exact Triple.pure fun _ h => h
  | cons b bs ih => exact Triple.bind (h b bs) fun _ => ih

def orEach (f : β → EStateM ε σ Bool) : List β → EStateM ε σ Bool
  | [] => pure false
  | b :: bs => do
    let here ← f b
    let later ← orEach f bs
    pure (here || later)

def gather (f : β → EStateM ε σ (List α)) : List β → EStateM ε σ (List α)
  | [] => pure []
  | b :: bs => do
    let here ← f b
    let later ← gather f bs
    pure (here ++ later)

/-- Loop rule for a list: `J` speaks of the elements still to come. -/
theorem Triple.orEach {f : β → EStateM ε σ Bool}
    (h : ∀ b bs, Triple (J (b :: bs)) (f b) (fun _ => J bs) E) (bs : List β) : Triple (J bs) (orEach f bs)
    (fun _ => J []) E := by
  induction bs with
  | nil => exact Triple.pure fun _ h => h
  | cons b bs ih => exact Triple.bind (h b bs) fun _ => Triple.bind ih fun _ => Triple.pure fun _ h => h

section Avoids
variable {e : ε}

theorem Avoids.orEach {f : β → EStateM ε σ Bool} (h : ∀ b, Avoids e (f b)) (bs : List β) : Avoids e (orEach f bs) := by
  induction bs with
  | nil => exact .pure _
  | cons b bs ih => exact .bind (h b) fun _ => .bind ih fun _ => .pure _

theorem Avoids.gather (h : ∀ b, Avoids e (f b)) (bs : List β) :
    Avoids e (gather f bs) := by
  induction bs with
  | nil => exact .pure _
  | cons b bs ih => exact .bind (h b) fun _ => .bind ih fun _ => .pure _

theorem Avoids.loop (h : ∀ a, Avoids e (body a)) (n : Nat) (a : α) :
    Avoids e (Library.loop body out n a) := by
  induction n generalizing a with
  | zero => exact .pure _
  | succ n ih =>
    refine .bind (h a) fun r => ?_
    cases r with
    | inl a' => exact ih a'
    | inr b => exact .pure _

end Avoids

theorem Keeps.orEach {I : σ → Prop} {f : β → EStateM ε σ Bool} {bs : List β} (h : ∀ b ∈ bs, Keeps I (f b)) :
    Keeps I (orEach f bs) := by
  induction bs with
  | nil => exact Keeps.pure _
  | cons b bs ih =>
    apply Keeps.bind (h b List.mem_cons_self)
    intro _
    exact Keeps.bind (ih fun c hc => h c (List.mem_cons_of_mem _ hc)) fun _ => Keeps.pure _

theorem Keeps.gather {I : σ → Prop} {bs : List β} (h : ∀ b ∈ bs, Keeps I (f b)) : Keeps I (gather f bs) := by
  induction bs with
  | nil => exact Keeps.pure _
  | cons b bs ih =>
    apply Keeps.bind (h b List.mem_cons_self)
    intro _
    exact Keeps.bind (ih fun c hc => h c (List.mem_cons_of_mem _ hc)) fun _ => Keeps.pure _

/-- Loop rule for gathering: `J` speaks of the elements done, which begin the list. -/
theorem Triple.gather {l : List β}
    (h : ∀ done b rest, done ++ b :: rest = l → Triple (J done) (f b) (fun _ => J (done ++ [b])) E) :
    Triple (J []) (gather f l) (fun _ => J l) E := by
  have hfrom : ∀ rest done, done ++ rest = l → Triple (J done) (Library.gather f rest) (fun _ => J l) E := by
    intro rest
    induction rest with
    | nil =>
      intro done hl
      rw [List.append_nil] at hl
      exact Triple.pure fun _ hs => hl ▸ hs
    | cons b rest ih =>
      intro done hl
      refine Triple.bind (h done b rest hl) fun _ => Triple.bind (ih (done ++ [b]) ?_) fun _ => Triple.pure
        fun _ hs => hs
      rw [List.append_assoc, ← hl]
      rfl
  exact hfrom l [] rfl

section Pure
variable {body : α → Except ε (α ⊕ β)} {out : α → β}

/-- Loop rule for a pure loop whose measure stays below the bound: it ends at a break. -/
theorem loop_ok {μ : α → Nat} {J : α → Prop} {b : β}
    (hturn : ∀ a a', J a → body a = .ok (.inl a') → J a' ∧ μ a' < μ a) {n : Nat} {a : α} (hj : J a)
    (hn : μ a < n) (h : loop body out n a = .ok b) : ∃ a', J a' ∧ body a' = .ok (.inr b) := by
  induction n generalizing a with
  | zero => exact absurd hn (Nat.not_lt_zero _)
  | succ n ih =>
    simp only [loop, bind, Except.bind] at h
    cases hb : body a with
    | error e => rw [hb] at h; cases h
    | ok r =>
      rw [hb] at h
      cases r with
      | inr b' => exact ⟨a, hj, by cases h; exact hb⟩
      | inl a' =>
        obtain ⟨hj', hlt⟩ := hturn a a' hj hb
        exact ih hj' (by omega) h

end Pure
end Library
