import Mathlib.Data.List.Induction
import Mathlib.Data.List.Infix

/-! Append-only journals: the latest entry of a kind, and facts that held at every point. -/
namespace Library
variable {ε σ : Type} {f : ε → Option σ} {P : List ε → Prop} {t p : List ε} {e : ε}

def latest (f : ε → Option σ) : List ε → Option σ
  | [] => none
  | e :: rest => (latest f rest).or (f e)

@[simp] theorem latest_nil : latest f [] = none := rfl

@[simp] theorem latest_concat : latest f (t ++ [e]) = (f e).or (latest f t) := by
  induction t with
  | nil => simp [latest]
  | cons d t ih => simp only [List.cons_append, latest, ih, Option.or_assoc]

theorem exists_of_latest {s : σ} (h : latest f t = some s) : ∃ e ∈ t, f e = some s := by
  induction t with
  | nil => cases h
  | cons d t ih =>
    rw [latest, Option.or_eq_some_iff] at h
    rcases h with h | ⟨_, h⟩
    · obtain ⟨e, he, hs⟩ := ih h
      exact ⟨e, List.mem_cons_of_mem _ he, hs⟩
    · exact ⟨d, List.mem_cons_self, h⟩

def Always (f : ε → Option σ) (Good : σ → Prop) (t : List ε) : Prop := ∀ e ∈ t, ∀ s, f e = some s → Good s

section Always
variable {Good : σ → Prop}

theorem Always.nil : Always f Good [] := fun _ he => absurd he List.not_mem_nil

theorem Always.earlier (h : Always f Good t) (hp : p <+: t) : Always f Good p := fun e he => h e (hp.subset he)

theorem Always.concat (h : Always f Good t) (he : ∀ s, f e = some s → Good s) : Always f Good (t ++ [e]) := by
  intro d hd
  rcases List.mem_append.mp hd with hd | hd
  · exact h d hd
  · exact List.mem_singleton.mp hd ▸ he

theorem Always.latest (h : Always f Good t) {s : σ} (hs : latest f t = some s) : Good s := by
  obtain ⟨e, he, hstored⟩ := exists_of_latest hs
  exact h e he s hstored

end Always

/-- The fact held at every earlier point of the journal, and holds now. -/
def Throughout (P : List ε → Prop) (t : List ε) : Prop := ∀ p, p <+: t → P p

theorem Throughout.now (h : Throughout P t) : P t := h t (List.prefix_refl t)

theorem Throughout.earlier (h : Throughout P t) (hp : p <+: t) : Throughout P p := fun q hq => h q (hq.trans hp)

theorem throughout_nil : Throughout P [] ↔ P [] := by
  constructor
  · exact Throughout.now
  · intro h p hp
    rw [List.prefix_nil.mp hp]
    exact h

theorem throughout_concat : Throughout P (t ++ [e]) ↔ Throughout P t ∧ P (t ++ [e]) := by
  constructor
  · intro h
    exact ⟨h.earlier (List.prefix_append t [e]), h.now⟩
  · intro h p hp
    rcases List.prefix_concat_iff.mp hp with rfl | hp
    · exact h.2
    · exact h.1 p hp

theorem concat_prefix_concat {d : ε} : p ++ [d] <+: t ++ [e] ↔ p = t ∧ d = e ∨ p ++ [d] <+: t := by
  rw [List.prefix_concat_iff]
  constructor
  · rintro (h | h)
    · exact .inl ⟨(List.append_inj' h rfl).1, List.singleton_inj.mp (List.append_inj' h rfl).2⟩
    · exact .inr h
  · rintro (⟨rfl, rfl⟩ | h)
    · exact .inl rfl
    · exact .inr h

def since (c : ε → Bool) (t : List ε) : List ε := (t.reverse.takeWhile fun e => !c e).reverse

def upToLast (c : ε → Bool) (t : List ε) : List ε := (t.reverse.dropWhile fun e => !c e).reverse

section
variable {c : ε → Bool}

theorem since_concat : since c (t ++ [e]) = if c e then [] else since c t ++ [e] := by
  simp only [since, List.reverse_append, List.reverse_singleton, List.singleton_append, List.takeWhile_cons]
  cases c e <;> simp

theorem upToLast_concat : upToLast c (t ++ [e]) = if c e then t ++ [e] else upToLast c t := by
  simp only [upToLast, List.reverse_append, List.reverse_singleton, List.singleton_append, List.dropWhile_cons]
  cases c e <;> simp

theorem mem_of_mem_since (h : e ∈ since c t) : e ∈ t :=
  List.mem_reverse.mp ((List.takeWhile_subset _) (List.mem_reverse.mp h))

theorem upToLast_prefix : upToLast c t <+: t := by
  have hsuffix : t.reverse.dropWhile (fun e => !c e) <:+ t.reverse := List.dropWhile_suffix _
  have hprefix := List.reverse_prefix.mpr hsuffix
  rwa [List.reverse_reverse] at hprefix

end

def Extends (Q : ε → Prop) (t₀ t : List ε) : Prop := ∃ new, t = t₀ ++ new ∧ ∀ e ∈ new, Q e

variable {Q : ε → Prop} {t₀ : List ε}

theorem Extends.refl (t : List ε) : Extends Q t t := ⟨[], (List.append_nil t).symm, fun _ h => nomatch h⟩

theorem Extends.concat (h : Extends Q t₀ t) (he : Q e) : Extends Q t₀ (t ++ [e]) := by
  obtain ⟨new, rfl, hnew⟩ := h
  refine ⟨new ++ [e], List.append_assoc .., ?_⟩
  intro d hd
  rcases List.mem_append.mp hd with hd | hd
  · exact hnew d hd
  · exact List.mem_singleton.mp hd ▸ he

theorem Extends.take (h : Extends Q t₀ t) (n : Nat) : Extends Q t₀ (t.take (t₀.length + n)) := by
  obtain ⟨new, rfl, hnew⟩ := h
  exact ⟨new.take n, List.take_length_add_append .., fun e he => hnew e (List.mem_of_mem_take he)⟩

theorem Extends.latest_none (h : Extends Q t₀ t) (hnone : latest f t = none) : latest f t₀ = none := by
  obtain ⟨new, rfl, hnew⟩ := h
  induction new using List.reverseRecOn with
  | nil => exact List.append_nil t₀ ▸ hnone
  | append_singleton new e ih =>
    rw [← List.append_assoc, latest_concat, Option.or_eq_none_iff] at hnone
    exact ih (fun d hd => hnew d (List.mem_append_left _ hd)) hnone.2

/-- The latest value was there before, or a new entry has it. -/
theorem Extends.latest (h : Extends Q t₀ t) {s : σ} (hs : latest f t = some s) :
    Library.latest f t₀ = some s ∨ ∃ e, Q e ∧ f e = some s := by
  obtain ⟨new, rfl, hnew⟩ := h
  induction new using List.reverseRecOn with
  | nil => exact .inl (List.append_nil t₀ ▸ hs)
  | append_singleton new e ih =>
    rw [← List.append_assoc, latest_concat] at hs
    cases he : f e with
    | some s' =>
      rw [he] at hs
      cases hs
      exact .inr ⟨e, hnew e (List.mem_append_right _ (List.mem_singleton_self e)), he⟩
    | none =>
      rw [he] at hs
      exact ih (fun d hd => hnew d (List.mem_append_left _ hd)) hs

/-- An entry that qualifies was written, and everything written since then leaves it standing. -/
inductive Standing (Q K : List ε → ε → Prop) : List ε → Prop
  | made {t : List ε} {e : ε} (h : Q t e) : Standing Q K (t ++ [e])
  | kept {t : List ε} {e : ε} (h : Standing Q K t) (leaves : K t e) : Standing Q K (t ++ [e])

end Library
