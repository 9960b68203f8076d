import QuePaxa.Library.Mutation

/-! Computations that wait for requests on their way. Whoever gives up on one of them while a
request is out leaves the state as it stands there. -/
namespace Library
variable {ε σ ρ α : Type}

/-- A computation, and from each state the points at which it waits: the state it has reached,
and the request that is out. -/
structure Interruptible (ε σ ρ α : Type) where
  run : EStateM ε σ α
  waits : σ → List (σ × ρ)

namespace Interruptible

instance : Monad (Interruptible ε σ ρ) where
  pure a := ⟨pure a, fun _ => []⟩
  bind x f := ⟨x.run >>= fun a => (f a).run, fun s => x.waits s ++
    match x.run s with
    | .ok a s' => (f a).waits s'
    | .error _ _ => []⟩

def atOnce (x : EStateM ε σ α) : Interruptible ε σ ρ α := ⟨x, fun _ => []⟩

def waiting (request : σ → ρ) (x : EStateM ε σ α) : Interruptible ε σ ρ α := ⟨x, fun s => [(s, request s)]⟩

def onlyIf (c : Prop) [Decidable c] (x : Interruptible ε σ ρ Unit) : Interruptible ε σ ρ Unit where
  run := Library.onlyIf c x.run
  waits s := if c then x.waits s else []

theorem run_forM (f : α → Interruptible ε σ ρ Unit) (l : List α) : (l.forM f).run = l.forM fun a => (f a).run := by
  induction l with
  | nil => rfl
  | cons a l ih => exact congrArg ((f a).run >>= ·) (funext fun _ => ih)

/-- The invariant holds wherever the computation waits, and when it returns. A part that fails
has nothing behind it. -/
structure Passes (I : σ → Prop) (x : Interruptible ε σ ρ α) : Prop where
  returns : ∀ {s a s'}, I s → x.run s = .ok a s' → I s'
  waits : ∀ {s w}, I s → w ∈ x.waits s → I w.1

namespace Passes
variable {β : Type} {I : σ → Prop}

theorem atOnce {x : EStateM ε σ α} (h : Keeps I x) : Passes I (atOnce x : Interruptible ε σ ρ α) where
  returns hs hx := h.ok hs hx
  waits _ hw := by cases hw

theorem pure (a : α) : Passes I (Pure.pure a : Interruptible ε σ ρ α) := atOnce (Keeps.pure a)

theorem waiting {request : σ → ρ} {x : EStateM ε σ α} (h : Keeps I x) : Passes I (waiting request x) where
  returns hs hx := h.ok hs hx
  waits hs hw := by
    cases List.mem_singleton.mp hw
    exact hs

theorem bind {x : Interruptible ε σ ρ α} {f : α → Interruptible ε σ ρ β} (hx : Passes I x) (hf : ∀ a, Passes I (f a)) :
    Passes I (x >>= f) where
  returns hs hbind := by
    obtain ⟨a, s', hfirst, hrest⟩ := bind_eq_ok.mp hbind
    exact (hf a).returns (hx.returns hs hfirst) hrest
  waits {s w} hs hw := by
    rcases List.mem_append.mp hw with hw | hw
    · exact hx.waits hs hw
    · cases hfirst : x.run s with
      | ok a s' =>
        rw [hfirst] at hw
        exact (hf a).waits (hx.returns hs hfirst) hw
      | error e s' =>
        rw [hfirst] at hw
        cases hw

theorem get_bind {f : σ → Interruptible ε σ ρ β} (hf : ∀ s, I s → Passes I (f s)) :
    Passes I (Interruptible.atOnce get >>= f) where
  returns {s _ _} hs hx := (hf s hs).returns hs hx
  waits {s _} hs hw := (hf s hs).waits hs hw

theorem check_bind {x : Except ε α} {f : α → Interruptible ε σ ρ β} (hf : ∀ a, x = .ok a → Passes I (f a)) :
    Passes I (Interruptible.atOnce (check x) >>= f) := by
  cases x with
  | ok a => exact hf a rfl
  | error e => exact ⟨fun _ hx => (by cases hx), fun _ hw => (by cases hw)⟩

theorem onlyIf {c : Prop} [Decidable c] {x : Interruptible ε σ ρ Unit} (hx : Passes I x) :
    Passes I (Interruptible.onlyIf c x) := by
  unfold Interruptible.onlyIf Library.onlyIf
  by_cases hc : c
  · simp only [if_pos hc]
    exact hx
  · simp only [if_neg hc]
    exact pure ()

theorem forM {f : α → Interruptible ε σ ρ Unit} (l : List α) (hf : ∀ a, Passes I (f a)) : Passes I (l.forM f) := by
  induction l with
  | nil => exact pure ()
  | cons a l ih => exact bind (hf a) fun _ => ih

end Passes
end Interruptible
end Library
