import QuePaxa.Library.FileSystem
import QuePaxa.Library.Runs

/-! A server that keeps its state in one file, replaced as a whole by every call that changes
it. The server may die at any moment and is then started from what the crash left. Each
lifetime is accounted for by the state it started in and the calls it served. -/
namespace Library
variable {ν α ω ι μ σ : Type}

/-- How a call ended: acknowledged after a save, acknowledged without one, or not acknowledged. -/
inductive Outcome where
  | saved
  | unchanged
  | failed
  deriving DecidableEq

structure Lifetime (σ ι : Type) where
  start : σ
  calls : List (ι × Outcome)

namespace Lifetime

def serve (l : Lifetime σ ι) (op : ι) (outcome : Outcome) : Lifetime σ ι :=
  { l with calls := l.calls ++ [(op, outcome)] }

def acknowledged (l : Lifetime σ ι) : List ι := (l.calls.filter fun c => c.2 ≠ .failed).map (·.1)

def attempted (l : Lifetime σ ι) : List ι :=
  l.calls.foldl (fun pending c => match c.2 with
    | .saved => []
    | .unchanged => pending
    | .failed => pending ++ [c.1]) []

def sinceAcknowledged (l : Lifetime σ ι) : List ι :=
  l.calls.foldl (fun pending c => if c.2 = .failed then pending ++ [c.1] else []) []

def state (apply : σ → ι → σ) (l : Lifetime σ ι) : σ := run apply l.start l.acknowledged

/-- The states the next lifetime may start in: the acknowledged calls, and at most one attempted one. -/
def MayLeave (apply : σ → ι → σ) (l : Lifetime σ ι) (s : σ) : Prop :=
  s = l.state apply ∨ ∃ op ∈ l.attempted, s = apply (l.state apply) op

variable {apply : σ → ι → σ} {l : Lifetime σ ι} {s : σ} {op : ι}

@[simp] theorem state_nil (s : σ) : state apply (⟨s, []⟩ : Lifetime σ ι) = s := rfl

theorem state_serve (l : Lifetime σ ι) (op : ι) (outcome : Outcome) :
    (l.serve op outcome).state apply = if outcome = .failed then l.state apply else apply (l.state apply) op := by
  cases outcome <;> simp [state, serve, acknowledged, List.filter_append, run_append]

theorem attempted_serve (l : Lifetime σ ι) (op : ι) (outcome : Outcome) :
    (l.serve op outcome).attempted = match outcome with
      | .saved => []
      | .unchanged => l.attempted
      | .failed => l.attempted ++ [op] := by
  cases outcome <;> simp [attempted, serve]

theorem attempted_eq_sinceAcknowledged (h : ∀ c ∈ l.calls, c.2 ≠ .unchanged) : l.attempted = l.sinceAcknowledged := by
  have hfold : ∀ calls : List (ι × Outcome), (∀ c ∈ calls, c.2 ≠ .unchanged) → ∀ pending : List ι,
      calls.foldl (fun pending c => match c.2 with
        | .saved => []
        | .unchanged => pending
        | .failed => pending ++ [c.1]) pending =
      calls.foldl (fun pending c => if c.2 = .failed then pending ++ [c.1] else []) pending := by
    intro calls
    induction calls with
    | nil => exact fun _ _ => rfl
    | cons c calls ih =>
      intro hcalls pending
      have hrest := ih fun x hx => hcalls x (List.mem_cons_of_mem _ hx)
      have hhere := hcalls c List.mem_cons_self
      obtain ⟨op, outcome⟩ := c
      cases outcome with
      | saved => exact hrest _
      | unchanged => exact absurd rfl hhere
      | failed => exact hrest _
  exact hfold l.calls h []

theorem MayLeave.failed (h : l.MayLeave apply s) (op : ι) : (l.serve op .failed).MayLeave apply s := by
  unfold MayLeave
  rw [state_serve, attempted_serve]
  rcases h with rfl | ⟨op', hop', rfl⟩
  · exact .inl rfl
  · exact .inr ⟨op', List.mem_append_left _ hop', rfl⟩

theorem mayLeave_failed (l : Lifetime σ ι) (op : ι) :
    (l.serve op .failed).MayLeave apply (apply (l.state apply) op) := by
  unfold MayLeave
  rw [state_serve, attempted_serve]
  exact .inr ⟨op, by simp, rfl⟩

theorem MayLeave.unchanged (h : l.MayLeave apply s) (hop : apply (l.state apply) op = l.state apply) :
    (l.serve op .unchanged).MayLeave apply s := by
  unfold MayLeave
  rw [state_serve, attempted_serve, if_neg (by decide), hop]
  exact h

end Lifetime

/-- What the server keeps in memory is `μ`, its disk included; `ω` is what its surroundings
do during a call or a start. A call that the server does not survive returns no outcome. -/
structure Server (ν α ω ι μ σ : Type) where
  name : ν
  spare : ν
  disk : μ → FileSystem ν α
  view : μ → σ
  start : ω → FileSystem ν α → Option μ
  call : ω → ι → μ → μ × Option Outcome

inductive Service (ν α ι μ σ : Type) where
  | up (memory : μ) (lifetime : Lifetime σ ι)
  | down (disk : FileSystem ν α) (lifetime : Option (Lifetime σ ι))

def Service.upWith (p : Service ν α ι μ σ) (test : μ → Bool) : Bool :=
  match p with
  | .up m _ => test m
  | .down _ _ => false

theorem Service.exists_up {p : Service ν α ι μ σ} {test : μ → Bool} (hp : p.upWith test = true) :
    ∃ m l, p = .up m l ∧ test m = true := by
  cases p with
  | up m l => exact ⟨m, l, rfl, hp⟩
  | down fs l => cases hp

def Service.downWith (p : Service ν α ι μ σ) (test : Lifetime σ ι → Bool) : Bool :=
  match p with
  | .up _ _ => false
  | .down _ l => l.any test

theorem Service.exists_down {p : Service ν α ι μ σ} {test : Lifetime σ ι → Bool} (hp : p.downWith test = true) :
    ∃ fs l, p = .down fs (some l) ∧ test l = true := by
  cases p with
  | up m l => cases hp
  | down fs l =>
    cases l with
    | none => cases hp
    | some l => exact ⟨fs, l, rfl, hp⟩

inductive ServiceAction (α ω ι : Type) where
  | call (surroundings : ω) (op : ι)
  | crash
  /-- What the crash left is decided when the server is started again. -/
  | restart (survivor : Nat) (lost : Nat → List α) (surroundings : ω)

namespace Server

def ended (S : Server ν α ω ι μ σ) (l : Lifetime σ ι) (op : ι) : μ × Option Outcome → Service ν α ι μ σ
  | (m, some outcome) => .up m (l.serve op outcome)
  | (m, none) => .down (S.disk m) (some (l.serve op .failed))

def booted (S : Server ν α ω ι μ σ) (fs : FileSystem ν α) (l : Option (Lifetime σ ι)) : Option μ → Service ν α ι μ σ
  | some m => .up m ⟨S.view m, []⟩
  | none => .down fs l

def step (S : Server ν α ω ι μ σ) : Service ν α ι μ σ → ServiceAction α ω ι → Service ν α ι μ σ
  | .up m l, .call w op => S.ended l op (S.call w op m)
  | .up m l, .crash => .down (S.disk m) (some l)
  | .down fs l, .restart survivor lost w =>
    S.booted (fs.crash survivor lost) l (S.start w (fs.crash survivor lost))
  | p, _ => p

def CallSpec (S : Server ν α ω ι μ σ) (apply : σ → ι → σ) (load : Option (List α) → Option σ) (op : ι) (m : μ)
    (P : Option (List α) → Prop) : μ × Option Outcome → Prop
  | (m', some .saved) => S.view m' = apply (S.view m) op ∧
      (S.disk m').Retains S.name S.spare fun c => load c = some (apply (S.view m) op)
  | (m', some .unchanged) =>
    S.view m' = S.view m ∧ apply (S.view m) op = S.view m ∧ (S.disk m').Retains S.name S.spare P
  | (m', some .failed) => S.view m' = S.view m ∧
      (S.disk m').Retains S.name S.spare fun c => P c ∨ load c = some (apply (S.view m) op)
  | (m', none) => (S.disk m').Retains S.name S.spare fun c => P c ∨ load c = some (apply (S.view m) op)

/-- The server starts from its file and replaces it before it acknowledges a change. -/
structure Journals (S : Server ν α ω ι μ σ) (apply : σ → ι → σ) (load : Option (List α) → Option σ)
    (Allowed : ι → Prop) (Good : μ → Prop) : Prop where
  started : ∀ w fs m, S.start w fs = some m → load (fs.read S.name) = some (S.view m) ∧ S.disk m = fs ∧ Good m
  call : ∀ w op m P, Allowed op → Good m → (S.disk m).Retains S.name S.spare P →
    S.CallSpec apply load op m P (S.call w op m)
  good : ∀ w op m P, Allowed op → Good m → (S.disk m).Retains S.name S.spare P → Good (S.call w op m).1

end Server

namespace Service
variable {S : Server ν α ω ι μ σ} {apply : σ → ι → σ} {load : Option (List α) → Option σ} {Allowed : ι → Prop}
  {Good : μ → Prop} {p : Service ν α ι μ σ}
variable {l : Lifetime σ ι}

def Leaves (S : Server ν α ω ι μ σ) (apply : σ → ι → σ) (load : Option (List α) → Option σ) (fs : FileSystem ν α)
    (l : Lifetime σ ι) : Prop :=
  fs.Retains S.name S.spare fun c => ∃ s, load c = some s ∧ l.MayLeave apply s

/-- The server holds the acknowledged state, and its disk at most one call more. -/
def Recoverable (S : Server ν α ω ι μ σ) (apply : σ → ι → σ) (load : Option (List α) → Option σ) (Good : μ → Prop) :
    Service ν α ι μ σ → Prop
  | .up m l => S.view m = l.state apply ∧ Good m ∧ Leaves S apply load (S.disk m) l
  | .down fs none => fs.Retains S.name S.spare fun _ => True
  | .down fs (some l) => Leaves S apply load fs l

def allows (Allowed : ι → Prop) : ServiceAction α ω ι → Prop
  | .call _ op => Allowed op
  | _ => True

theorem Leaves.failed {fs : FileSystem ν α} {op : ι} {s : σ} (hs : s = l.state apply)
    (h : fs.Retains S.name S.spare fun c =>
      (∃ s, load c = some s ∧ l.MayLeave apply s) ∨ load c = some (apply s op)) :
    Leaves S apply load fs (l.serve op .failed) := by
  refine h.mono fun c hc => ?_
  rcases hc with ⟨s', hload, hleave⟩ | hload
  · exact ⟨s', hload, hleave.failed op⟩
  · exact ⟨_, hload, hs ▸ l.mayLeave_failed op⟩

theorem recoverable_call (hS : S.Journals apply load Allowed Good) {m : μ}
    (h : Recoverable S apply load Good (.up m l)) (w : ω) {op : ι} (hop : Allowed op) :
    Recoverable S apply load Good (S.step (.up m l) (.call w op)) := by
  obtain ⟨hview, hgood, hleaves⟩ := h
  have hspec := hS.call w op m _ hop hgood hleaves
  have hgood' := hS.good w op m _ hop hgood hleaves
  show Recoverable S apply load Good (S.ended l op (S.call w op m))
  generalize S.call w op m = ending at hspec hgood' ⊢
  obtain ⟨m', outcome⟩ := ending
  cases outcome with
  | none => exact Leaves.failed hview hspec
  | some outcome =>
    cases outcome with
    | saved =>
      have hstate : (l.serve op .saved).state apply = apply (S.view m) op := by
        rw [Lifetime.state_serve, hview]
        rfl
      refine ⟨hspec.1.trans hstate.symm, hgood', hspec.2.mono fun c hc => ⟨_, hc, ?_⟩⟩
      exact .inl hstate.symm
    | unchanged =>
      obtain ⟨hsame, hidle, hdisk⟩ := hspec
      rw [hview] at hidle
      refine ⟨?_, hgood', hdisk.mono fun c hc => ?_⟩
      · rw [hsame, hview, Lifetime.state_serve, if_neg (by decide), hidle]
      · obtain ⟨s, hload, hleave⟩ := hc
        exact ⟨s, hload, hleave.unchanged hidle⟩
    | failed =>
      refine ⟨?_, hgood', Leaves.failed hview hspec.2⟩
      rw [hspec.1, hview, Lifetime.state_serve, if_pos rfl]

/-- A start finds the one state that the crash left, and nothing else can be left by another one. -/
theorem recoverable_restart (hS : S.Journals apply load Allowed Good) {fs : FileSystem ν α} {l : Option (Lifetime σ ι)}
    (h : Recoverable S apply load Good (.down fs l)) (survivor : Nat) (lost : Nat → List α) (w : ω) :
    Recoverable S apply load Good (S.step (.down fs l) (.restart survivor lost w)) := by
  have hcrash : Recoverable S apply load Good (.down (fs.crash survivor lost) l) := by
    cases l with
    | none => exact FileSystem.Retains.crash h survivor lost
    | some l => exact FileSystem.Retains.crash h survivor lost
  show Recoverable S apply load Good (S.booted _ l (S.start w (fs.crash survivor lost)))
  cases hstart : S.start w (fs.crash survivor lost) with
  | none => exact hcrash
  | some m =>
    obtain ⟨hload, hdisk, hgood⟩ := hS.started w _ m hstart
    have hfound : (fs.crash survivor lost).Retains S.name S.spare
      fun c => c = (fs.crash survivor lost).read S.name := by
      cases l with
      | none => exact (FileSystem.Retains.crash h survivor lost).settled rfl
      | some l => exact (FileSystem.Retains.crash h survivor lost).settled rfl
    rw [← hdisk] at hfound
    refine ⟨rfl, hgood, hfound.mono fun c hc => ⟨_, ?_, .inl rfl⟩⟩
    rw [hc, hdisk]
    exact hload

theorem recoverable_step (hS : S.Journals apply load Allowed Good) (p : Service ν α ι μ σ) (a : ServiceAction α ω ι)
    (h : Recoverable S apply load Good p) (ha : allows Allowed a) : Recoverable S apply load Good (S.step p a) := by
  cases p with
  | up m l =>
    cases a with
    | call w op => exact recoverable_call hS h w ha
    | crash => exact h.2.2
    | restart => exact h
  | down fs l =>
    cases a with
    | call | crash => exact h
    | restart survivor lost w => exact recoverable_restart hS h survivor lost w

variable {fs : FileSystem ν α} {actions : List (ServiceAction α ω ι)}

/-- Rule of the library: along every run memory holds the acknowledged state, and the disk
that state or the one after a single attempted call. -/
theorem recoverable_run (hS : S.Journals apply load Allowed Good) (hfs : fs.Retains S.name S.spare fun _ => True)
    (hall : ∀ a ∈ actions, allows Allowed a) : Recoverable S apply load Good (run S.step (.down fs none) actions) := by
  have hfresh : Recoverable S apply load Good (.down fs none : Service ν α ι μ σ) := hfs
  exact run_invariant (recoverable_step hS) hfresh (Along.of_mem hall _)

/-- A server that comes up again does so in a state that its last lifetime may leave. -/
theorem recovered (hS : S.Journals apply load Allowed Good) {l' : Lifetime σ ι} {m : μ} {survivor : Nat}
    {lost : Nat → List α} {w : ω} (h : Recoverable S apply load Good (.down fs (some l)))
    (hup : S.step (.down fs (some l)) (.restart survivor lost w) = .up m l') :
    l' = ⟨S.view m, []⟩ ∧ l.MayLeave apply (S.view m) := by
  have hboot : S.booted (fs.crash survivor lost) (some l) (S.start w (fs.crash survivor lost)) = .up m l' := hup
  cases hstart : S.start w (fs.crash survivor lost) with
  | none =>
    rw [hstart] at hboot
    cases hboot
  | some m' =>
    rw [hstart] at hboot
    cases hboot
    obtain ⟨hload, _⟩ := hS.started w _ m hstart
    obtain ⟨s, hs, hleave⟩ := (FileSystem.Retains.crash h survivor lost).read
    rw [hload] at hs
    cases hs
    exact ⟨rfl, hleave⟩

def SavesAll : Service ν α ι μ σ → Prop
  | .up _ l => ∀ c ∈ l.calls, c.2 ≠ .unchanged
  | .down _ l => ∀ l' ∈ l, ∀ c ∈ l'.calls, c.2 ≠ .unchanged

theorem savesAll_step (hcall : ∀ w op m, (S.call w op m).2 ≠ some .unchanged) (p : Service ν α ι μ σ)
    (a : ServiceAction α ω ι) (h : p.SavesAll) : (S.step p a).SavesAll := by
  have hserve : ∀ (l : Lifetime σ ι) (op : ι) (outcome : Outcome), (∀ c ∈ l.calls, c.2 ≠ .unchanged) →
    outcome ≠ .unchanged →
      ∀ c ∈ (l.serve op outcome).calls, c.2 ≠ .unchanged := by
    intro l op outcome hl hne c hc
    rcases List.mem_append.mp hc with hc | hc
    · exact hl c hc
    · rw [List.mem_singleton.mp hc]
      exact hne
  cases p with
  | up m l =>
    cases a with
    | restart => exact h
    | crash =>
      intro l' hl'
      cases hl'
      exact h
    | call w op =>
      have hne := hcall w op m
      show (S.ended l op (S.call w op m)).SavesAll
      generalize S.call w op m = ending at hne ⊢
      obtain ⟨m', outcome⟩ := ending
      cases outcome with
      | none =>
        intro l' hl'
        cases hl'
        exact hserve l op .failed h (by decide)
      | some outcome => exact hserve l op outcome h fun heq => hne (congrArg some heq)
  | down fs l =>
    cases a with
    | call | crash => exact h
    | restart survivor lost w =>
      show (S.booted _ l (S.start w (fs.crash survivor lost))).SavesAll
      cases S.start w (fs.crash survivor lost) with
      | none => exact h
      | some m => exact fun c hc => absurd hc List.not_mem_nil

theorem savesAll_run (hcall : ∀ w op m, (S.call w op m).2 ≠ some .unchanged) (fs : FileSystem ν α)
    (actions : List (ServiceAction α ω ι)) : (run S.step (.down fs none) actions).SavesAll := by
  have hfresh : (.down fs none : Service ν α ι μ σ).SavesAll := fun _ hl => nomatch hl
  exact run_invariant_all (savesAll_step hcall) hfresh actions

/-- A server that starts whenever its file loads comes up again after every crash. -/
theorem comes_up (survivor : Nat) (lost : Nat → List α) {w : ω}
    (hstarts : ∀ fs s, load (fs.read S.name) = some s → (S.start w fs).isSome)
    (h : Recoverable S apply load Good (.down fs (some l))) :
    ∃ m l', S.step (.down fs (some l)) (.restart survivor lost w) = .up m l' := by
  obtain ⟨s, hload, _⟩ := (FileSystem.Retains.crash h survivor lost).read
  obtain ⟨m, hm⟩ := Option.isSome_iff_exists.mp (hstarts _ s hload)
  refine ⟨m, ⟨S.view m, []⟩, ?_⟩
  show S.booted _ _ (S.start w (fs.crash survivor lost)) = _
  rw [hm]
  rfl

section
variable {R : σ → σ → Prop} {s₀ : σ}

def Reaches (S : Server ν α ω ι μ σ) (apply : σ → ι → σ) (R : σ → σ → Prop) (s₀ : σ) : Service ν α ι μ σ → Prop
  | .up m _ => R s₀ (S.view m)
  | .down _ (some l) => R s₀ (l.state apply)
  | .down _ none => False

theorem reaches_step (hS : S.Journals apply load Allowed Good) (htrans : ∀ a b c, R a b → R b c → R a c)
    (happly : ∀ s op, R s (apply s op)) (p : Service ν α ι μ σ) (a : ServiceAction α ω ι)
    (h : Recoverable S apply load Good p ∧ Reaches S apply R s₀ p) (ha : allows Allowed a) :
    Recoverable S apply load Good (S.step p a) ∧ Reaches S apply R s₀ (S.step p a) := by
  have hnext := recoverable_step hS p a h.1 ha
  refine ⟨hnext, ?_⟩
  obtain ⟨hp, hr⟩ := h
  cases p with
  | up m l =>
    have hview : S.view m = l.state apply := hp.1
    have hr : R s₀ (S.view m) := hr
    cases a with
    | crash =>
      show R s₀ (l.state apply)
      exact hview ▸ hr
    | restart => exact hr
    | call w op =>
      have hspec := hS.call w op m _ ha hp.2.1 hp.2.2
      show Reaches S apply R s₀ (S.ended l op (S.call w op m))
      generalize S.call w op m = ending at hspec ⊢
      obtain ⟨m', outcome⟩ := ending
      cases outcome with
      | none =>
        show R s₀ ((l.serve op .failed).state apply)
        rw [Lifetime.state_serve, if_pos rfl, ← hview]
        exact hr
      | some outcome =>
        show R s₀ (S.view m')
        cases outcome with
        | saved =>
          rw [hspec.1]
          exact htrans _ _ _ hr (happly _ op)
        | unchanged | failed =>
          rw [hspec.1]
          exact hr
  | down fs l =>
    cases a with
    | call | crash => exact hr
    | restart survivor lost w =>
      cases l with
      | none => exact hr.elim
      | some l =>
        cases hstep : S.step (.down fs (some l)) (.restart survivor lost w) with
        | up m l' =>
          have hr : R s₀ (l.state apply) := hr
          show R s₀ (S.view m)
          rcases (recovered hS hp hstep).2 with heq | ⟨op, _, heq⟩
          · rw [heq]
            exact hr
          · rw [heq]
            exact htrans _ _ _ hr (happly _ op)
        | down fs' l' =>
          have hboot : S.booted (fs.crash survivor lost) (some l) (S.start w (fs.crash survivor lost)) = .down fs' l' :=
            hstep
          cases hstart : S.start w (fs.crash survivor lost) with
          | some m =>
            rw [hstart] at hboot
            cases hboot
          | none =>
            rw [hstart] at hboot
            cases hboot
            exact hr

/-- What no call takes back, no crash and no restart takes back. -/
theorem reaches_run (hS : S.Journals apply load Allowed Good) (hrefl : ∀ s, R s s)
    (htrans : ∀ a b c, R a b → R b c → R a c)
    (happly : ∀ s op, R s (apply s op)) {m m' : μ} {l' : Lifetime σ ι} (h : Recoverable S apply load Good (.up m l))
    (hall : ∀ a ∈ actions, allows Allowed a) (hrun : run S.step (.up m l) actions = .up m' l') : R (S.view m)
    (S.view m') := by
  have hstart : Recoverable S apply load Good (.up m l) ∧ Reaches S apply R (S.view m) (.up m l) := ⟨h, hrefl _⟩
  have hend := run_invariant (reaches_step hS htrans happly) hstart (Along.of_mem hall _)
  rw [hrun] at hend
  exact hend.2

end
end Service
end Library
