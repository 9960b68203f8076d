import QuePaxa.Library.Journal
import QuePaxa.Library.KeyedLocks
import QuePaxa.Library.Runs
import QuePaxa.Network.FileMaps

/-! The handler that recognises repeated submissions. Calls with the same client and request
number take turns behind a lock that is made on demand and removed by the last one. Each call
first looks for a journaled outcome, and journals the outcome it gets itself. -/
namespace QuePaxa
open Library
variable {V : Type}

structure Submission (V : Type) where
  clientId : Nat
  requestId : Nat
  valueIds : List V
  deriving DecidableEq

def Submission.key (s : Submission V) : SubmissionKey := toLex (s.clientId, s.requestId)

def SubmissionOutcome.decision : SubmissionOutcome V → Option (Decision V)
  | .committed decision => some decision
  | .duplicate decision => decision
  | .accepted => none

abbrev InMemorySubmissionJournal (V : Type) := OrderedMap SubmissionKey (SubmissionOutcome V)

def InMemorySubmissionJournal.put [DecidableEq V] (journal : InMemorySubmissionJournal V) (key : SubmissionKey)
    (outcome : SubmissionOutcome V) : Result (InMemorySubmissionJournal V) := do
  require ((journal.get key).all (· = outcome) = true)
    (.invalidProposal "submission request ID already has a different outcome")
  pure (journal.insert key outcome)

/-- Where a call of `submit` stands; a lock is an address. -/
inductive SubmitStage (V : Type) where
  /-- Before the table of locks is locked for the first time. -/
  | entering
  | waiting (lock : Nat)
  /-- With the guard, before the journal is read, in `inner.submit`, and before the outcome is
  journaled. -/
  | locked (lock : Nat)
  | calling (lock : Nat)
  | recording (lock : Nat) (outcome : SubmissionOutcome V)
  /-- The result is there, and the guard is to be dropped. -/
  | unlocking (lock : Nat) (result : Result (SubmissionOutcome V))
  /-- Before the table of locks is locked again. -/
  | leaving (lock : Nat) (result : Result (SubmissionOutcome V))
  /-- The local variables are to be dropped. -/
  | returning (lock : Nat) (result : Result (SubmissionOutcome V))
  | cancelled (lock : Nat)
  | gone
  deriving DecidableEq

namespace SubmitStage

def isUnsettled : SubmitStage V → Bool
  | .calling _ | .recording _ _ => true
  | _ => false

def result : SubmitStage V → Option (Result (SubmissionOutcome V))
  | .unlocking _ result | .leaving _ result | .returning _ result => some result
  | _ => none

end SubmitStage

structure SubmitTask (V : Type) where
  submission : Submission V
  stage : SubmitStage V
  deriving DecidableEq

inductive SubmitEvent (V : Type) where
  /-- `inner.submit` is called. -/
  | started (task : Nat) (submission : Submission V)
  | journaled (task : Nat) (key : SubmissionKey) (outcome : SubmissionOutcome V)
  | returned (task : Nat) (key : SubmissionKey) (result : Result (SubmissionOutcome V))
  deriving DecidableEq

namespace SubmitTask

def key (t : SubmitTask V) : SubmissionKey := t.submission.key

def seat (t : SubmitTask V) : Seat SubmissionKey Nat :=
  match t.stage with
  | .entering | .gone => .out
  | .waiting lock => .waiting t.key lock
  | .locked lock | .calling lock | .recording lock _ | .unlocking lock _ => .holding t.key lock
  | .leaving lock _ => .leaving t.key lock
  | .returning lock _ | .cancelled lock => .spent lock

def isCalling (t : SubmitTask V) : Bool :=
  match t.stage with
  | .calling _ => true
  | _ => false

end SubmitTask

structure DeduplicatingSubmissionHandler (V : Type) where
  journal : InMemorySubmissionJournal V
  requestLocks : OrderedMap SubmissionKey Nat
  /-- Addresses from here on are not in use. -/
  nextLock : Nat
  tasks : List (SubmitTask V)
  trace : List (SubmitEvent V)

inductive SubmitAction (V : Type) where
  | submit (submission : Submission V)
  /-- The task goes on, as far as it can; a fault is the journal's. -/
  | run (task : Nat) (fault : Option QuePaxaError)
  /-- The inner handler answers the task. -/
  | answer (task : Nat) (result : Result (SubmissionOutcome V))
  | cancel (task : Nat)

namespace DeduplicatingSubmissionHandler

def new (journal : InMemorySubmissionJournal V) : DeduplicatingSubmissionHandler V := ⟨journal, ∅, 0, [], []⟩

def moveTo (h : DeduplicatingSubmissionHandler V) (i : Nat) (t : SubmitTask V) (stage : SubmitStage V) :
    DeduplicatingSubmissionHandler V :=
  { h with tasks := h.tasks.set i { t with stage } }

def log (h : DeduplicatingSubmissionHandler V) (event : SubmitEvent V) : DeduplicatingSubmissionHandler V :=
  { h with trace := h.trace ++ [event] }

def isLocked (h : DeduplicatingSubmissionHandler V) (lock : Nat) : Bool :=
  h.tasks.any fun t => t.seat.guard.any (·.2 = lock)

def strongCount (h : DeduplicatingSubmissionHandler V) (lock : Nat) : Nat :=
  h.requestLocks.values.count lock + h.tasks.countP (·.seat.ref = some lock)

section
variable [DecidableEq V]

def advance (h : DeduplicatingSubmissionHandler V) (i : Nat) (t : SubmitTask V) (fault : Option QuePaxaError) :
    DeduplicatingSubmissionHandler V :=
  match t.stage with
  | .entering =>
    match h.requestLocks.get t.key with
    | some lock => h.moveTo i t (.waiting lock)
    | none =>
      { h with requestLocks := h.requestLocks.insert t.key h.nextLock, nextLock := h.nextLock + 1 }.moveTo i t
        (.waiting h.nextLock)
  | .waiting lock => if h.isLocked lock then h else h.moveTo i t (.locked lock)
  | .locked lock =>
    match fault with
    | some e => h.moveTo i t (.unlocking lock (.error e))
    | none =>
      match h.journal.get t.key with
      | some outcome => h.moveTo i t (.unlocking lock (.ok (.duplicate outcome.decision)))
      | none => (h.moveTo i t (.calling lock)).log (.started i t.submission)
  | .calling _ => h
  | .recording lock outcome =>
    match fault.elim (InMemorySubmissionJournal.put h.journal t.key outcome) .error with
    | .error e => h.moveTo i t (.unlocking lock (.error e))
    | .ok journal => ({ h with journal }.moveTo i t (.unlocking lock (.ok outcome))).log (.journaled i t.key outcome)
  | .unlocking lock result => h.moveTo i t (.leaving lock result)
  | .leaving lock result =>
    if h.strongCount lock = 2 ∧ h.requestLocks.get t.key = some lock then
      { h with requestLocks := h.requestLocks.erase t.key }.moveTo i t (.returning lock result)
    else h.moveTo i t (.returning lock result)
  | .returning _ result => (h.moveTo i t .gone).log (.returned i t.key result)
  | .cancelled _ => h.moveTo i t .gone
  | .gone => h

def drop (h : DeduplicatingSubmissionHandler V) (i : Nat) (t : SubmitTask V) : DeduplicatingSubmissionHandler V :=
  match t.stage with
  | .entering => h.moveTo i t .gone
  | .waiting lock | .locked lock | .calling lock | .recording lock _ | .leaving lock _ => h.moveTo i t (.cancelled lock)
  | .unlocking _ _ | .returning _ _ | .cancelled _ | .gone => h

def answered (h : DeduplicatingSubmissionHandler V) (i : Nat) (t : SubmitTask V)
    (result : Result (SubmissionOutcome V)) :
    DeduplicatingSubmissionHandler V :=
  match t.stage, result with
  | .calling lock, .ok outcome => h.moveTo i t (.recording lock outcome)
  | .calling lock, .error e => h.moveTo i t (.unlocking lock (.error e))
  | _, _ => h

def step (h : DeduplicatingSubmissionHandler V) : SubmitAction V → DeduplicatingSubmissionHandler V
  | .submit submission => { h with tasks := h.tasks ++ [⟨submission, .entering⟩] }
  | .run i fault => (h.tasks[i]?).elim h fun t => h.advance i t fault
  | .answer i result => (h.tasks[i]?).elim h fun t => h.answered i t result
  | .cancel i => (h.tasks[i]?).elim h fun t => h.drop i t

end

def view (h : DeduplicatingSubmissionHandler V) : LockTable SubmissionKey Nat :=
  ⟨h.requestLocks.get, h.tasks.map (·.seat)⟩

variable {h : DeduplicatingSubmissionHandler V} {i : Nat} {t : SubmitTask V}
variable {outcome : SubmissionOutcome V} {stage : SubmitStage V}

theorem view_moveTo (stage : SubmitStage V) : (h.moveTo i t stage).view = h.view.moves i { t with stage }.seat := by
  simp only [view, moveTo, LockTable.moves, List.map_set]

theorem seat_view (here : h.tasks[i]? = some t) : h.view.seats[i]? = some t.seat := by
  simp only [view, List.getElem?_map, here, Option.map_some]

private theorem alone_of_strongCount {lock : Nat} (here : h.tasks[i]? = some t) (hseat : t.seat.ref = some lock)
    (hcount : h.strongCount lock = 2) (hentry : h.requestLocks.get t.key = some lock) :
    ∀ j seat, h.view.seats[j]? = some seat → seat.ref = some lock → j = i := by
  intro j seat hj href
  have hlisted : 0 < h.requestLocks.values.count lock :=
    List.count_pos_iff.mpr ((OrderedMap.mem_values ..).mpr ⟨t.key, hentry⟩)
  have hone : h.tasks.countP (·.seat.ref = some lock) ≤ 1 := by
    rw [strongCount] at hcount
    omega
  simp only [view, List.getElem?_map, Option.map_eq_some_iff] at hj
  obtain ⟨t', hj, rfl⟩ := hj
  exact eq_of_countP_le_one hone hj (decide_eq_true href) here (decide_eq_true hseat)

private theorem view_entries (entries : OrderedMap SubmissionKey Nat) (next : Nat) (stage : SubmitStage V) :
    ({ h with requestLocks := entries, nextLock := next }.moveTo i t stage).view =
      ⟨entries.get, h.view.seats.set i { t with stage }.seat⟩ := by
  simp only [view, moveTo, List.map_set]

inductive Turn [DecidableEq V] (h : DeduplicatingSubmissionHandler V) : DeduplicatingSubmissionHandler V → Prop
  | idle : Turn h h
  | joined (submission : Submission V) : Turn h { h with tasks := h.tasks ++ [⟨submission, .entering⟩] }
  /-- Only the lock is dealt with, or a result is found. -/
  | moved {h' : DeduplicatingSubmissionHandler V} {i : Nat} {t : SubmitTask V} {stage : SubmitStage V}
      (here : h.tasks[i]? = some t) (tasks : h'.tasks = h.tasks.set i { t with stage })
        (journal : h'.journal = h.journal)
      (trace : h'.trace = h.trace) (locks : h.view.Step h'.view) (unsettled : stage.isUnsettled = true →
        t.stage.isUnsettled = true)
      (result : ∀ outcome, stage.result = some (.ok outcome) → t.stage.result = some (.ok outcome) ∨
        ∃ known, h.journal.get t.key = some known ∧ outcome = .duplicate known.decision) : Turn h h'
  | started {i : Nat} {t : SubmitTask V} {lock : Nat} (here : h.tasks[i]? = some t) (stage : t.stage = .locked lock)
      (missing : h.journal.get t.key = none) : Turn h ((h.moveTo i t (.calling lock)).log (.started i t.submission))
  | journaled {i : Nat} {t : SubmitTask V} {lock : Nat} {outcome : SubmissionOutcome V}
    {journal : InMemorySubmissionJournal V}
      (here : h.tasks[i]? = some t) (stage : t.stage = .recording lock outcome)
      (put : InMemorySubmissionJournal.put h.journal t.key outcome = .ok journal) :
      Turn h (({ h with journal }.moveTo i t (.unlocking lock (.ok outcome))).log (.journaled i t.key outcome))
  | returned {i : Nat} {t : SubmitTask V} {lock : Nat} {result : Result (SubmissionOutcome V)}
    (here : h.tasks[i]? = some t)
      (stage : t.stage = .returning lock result) : Turn h ((h.moveTo i t .gone).log (.returned i t.key result))

section
variable [DecidableEq V]

private theorem Turn.quiet (here : h.tasks[i]? = some t)
    (hunsettled : stage.isUnsettled = true → t.stage.isUnsettled = true)
    (hresult : ∀ outcome, stage.result = some (.ok outcome) → t.stage.result = some (.ok outcome) ∨
      ∃ known, h.journal.get t.key = some known ∧ outcome = .duplicate known.decision)
    (hlocks : h.view.Step (h.view.moves i { t with stage }.seat)) : Turn h (h.moveTo i t stage) :=
  .moved here rfl rfl rfl (view_moveTo stage ▸ hlocks) hunsettled hresult

private theorem turn_advance (here : h.tasks[i]? = some t) (fault : Option QuePaxaError) :
    Turn h (h.advance i t fault) := by
  have hseat := seat_view here
  obtain ⟨submission, stage⟩ := t
  cases stage with
  | entering =>
    simp only [advance]
    cases hentry : h.requestLocks.get (SubmitTask.key ⟨submission, .entering⟩) with
    | some lock => exact .quiet here (fun h => nomatch h) (fun _ h => nomatch h) (.take hseat hentry)
    | none =>
      have hupdate : (h.requestLocks.insert submission.key h.nextLock).get =
          Function.update h.requestLocks.get submission.key (some h.nextLock) := by
        funext k
        rw [OrderedMap.get_insert, Function.update_apply]
      refine .moved here rfl rfl rfl ?_ (fun h => nomatch h) (fun _ h => nomatch h)
      rw [view_entries]
      exact hupdate ▸ .create h.nextLock hseat hentry
  | waiting lock =>
    simp only [advance]
    split_ifs with hlocked
    · exact .idle
    · refine .quiet here (fun h => nomatch h) (fun _ h => nomatch h)
        (.acquire hseat fun seat hmem key hguard => hlocked ?_)
      simp only [view, List.mem_map] at hmem
      obtain ⟨t', ht', rfl⟩ := hmem
      exact List.any_eq_true.mpr ⟨t', ht', by simp [hguard]⟩
  | locked lock =>
    simp only [advance]
    cases fault with
    | some e => exact .quiet here (fun h => nomatch h) (fun _ h => nomatch h) (.stay hseat)
    | none =>
      cases hget : h.journal.get (SubmitTask.key ⟨submission, .locked lock⟩) with
      | none => exact .started here rfl hget
      | some outcome =>
        refine .quiet here (fun h => nomatch h) (fun o ho => .inr ⟨outcome, hget, ?_⟩) (.stay hseat)
        cases ho
        rfl
  | calling lock => exact .idle
  | recording lock outcome =>
    simp only [advance]
    cases fault with
    | some e => exact .quiet here (fun h => nomatch h) (fun _ h => nomatch h) (.stay hseat)
    | none =>
      simp only [Option.elim]
      cases hput : InMemorySubmissionJournal.put h.journal (SubmitTask.key ⟨submission, .recording lock outcome⟩)
        outcome with
      | error e => exact .quiet here (fun h => nomatch h) (fun _ h => nomatch h) (.stay hseat)
      | ok journal => exact .journaled here rfl hput
  | unlocking lock result => exact .quiet here (fun h => nomatch h) (fun _ h => .inl h) (.release hseat)
  | leaving lock result =>
    simp only [advance]
    split_ifs with hlast
    · have hupdate : (h.requestLocks.erase submission.key).get =
        Function.update h.requestLocks.get submission.key none := by
        funext k
        rw [OrderedMap.get_erase, Function.update_apply]
      refine .moved here rfl rfl rfl ?_ (fun h => nomatch h) (fun _ h => .inl h)
      rw [view_entries]
      exact hupdate ▸ .remove hseat (alone_of_strongCount here rfl hlast.1 hlast.2)
    · exact .quiet here (fun h => nomatch h) (fun _ h => .inl h) (.leave hseat rfl)
  | returning lock result => exact .returned here rfl
  | cancelled lock => exact .quiet here (fun h => nomatch h) (fun _ h => nomatch h) (.drop hseat)
  | gone => exact .idle

private theorem turn_drop (here : h.tasks[i]? = some t) : Turn h (h.drop i t) := by
  have hseat := seat_view here
  obtain ⟨submission, stage⟩ := t
  cases stage with
  | entering => exact .quiet here (fun h => nomatch h) (fun _ h => nomatch h) (.stay hseat)
  | waiting lock | locked lock | calling lock | recording lock _ | leaving lock _ =>
    exact .quiet here (fun h => nomatch h) (fun _ h => nomatch h) (.leave hseat rfl)
  | unlocking _ _ | returning _ _ | cancelled _ | gone => exact .idle

private theorem turn_answered (here : h.tasks[i]? = some t) (result : Result (SubmissionOutcome V)) :
    Turn h (h.answered i t result) := by
  have hseat := seat_view here
  obtain ⟨submission, stage⟩ := t
  cases stage with
  | calling lock =>
    cases result with
    | ok outcome => exact .quiet here (fun _ => rfl) (fun _ h => nomatch h) (.stay hseat)
    | error e => exact .quiet here (fun h => nomatch h) (fun _ h => nomatch h) (.stay hseat)
  | _ => exact .idle

private theorem turn_step (h : DeduplicatingSubmissionHandler V) (a : SubmitAction V) : Turn h (h.step a) := by
  have htask : ∀ (i : Nat) (f : SubmitTask V → DeduplicatingSubmissionHandler V),
      (∀ t, h.tasks[i]? = some t → Turn h (f t)) → Turn h ((h.tasks[i]?).elim h f) := by
    intro i f hf
    cases here : h.tasks[i]? with
    | none => exact .idle
    | some t => exact hf t here
  cases a with
  | submit submission => exact .joined submission
  | run i fault => exact htask i _ fun t here => turn_advance here fault
  | answer i result => exact htask i _ fun t here => turn_answered here result
  | cancel i => exact htask i _ fun t here => turn_drop here

/-- Every step is one on the table of locks. -/
theorem Turn.locks {h' : DeduplicatingSubmissionHandler V} (hturn : Turn h h') : h.view.Step h'.view := by
  cases hturn with
  | idle => exact .idle
  | joined submission =>
    have hview : ({ h with tasks := h.tasks ++ [⟨submission, .entering⟩] } : DeduplicatingSubmissionHandler V).view =
        { h.view with seats := h.view.seats ++ [.out] } := by
      simp only [view, List.map_append, List.map_singleton]
      rfl
    rw [hview]
    exact .join
  | moved _ _ _ _ locks => exact locks
  | @started i t lock here stage _ =>
    have hseat := seat_view here
    obtain ⟨submission, _⟩ := t
    subst stage
    exact view_moveTo (h := h) _ ▸ .stay hseat
  | @journaled i t lock outcome journal here stage _ =>
    have hseat := seat_view here
    obtain ⟨submission, _⟩ := t
    subst stage
    exact view_moveTo (h := h) _ ▸ .stay hseat
  | @returned i t lock result here stage =>
    have hseat := seat_view here
    obtain ⟨submission, _⟩ := t
    subst stage
    exact view_moveTo (h := h) _ ▸ .drop hseat

end

def Known (before : InMemorySubmissionJournal V) (trace : List (SubmitEvent V)) (key : SubmissionKey)
    (outcome : SubmissionOutcome V) : Prop :=
  before.get key = some outcome ∨ ∃ i, .journaled i key outcome ∈ trace

def Grounded (h : DeduplicatingSubmissionHandler V) (i : Nat) (key : SubmissionKey)
    (outcome : SubmissionOutcome V) : Prop :=
  .journaled i key outcome ∈ h.trace ∨ ∃ known, h.journal.get key = some known ∧ outcome = .duplicate known.decision

/-- Calls for one key take turns between reading the journal and writing it. -/
structure Serial (before : InMemorySubmissionJournal V) (h : DeduplicatingSubmissionHandler V) : Prop where
  locks : h.view.Consistent
  unsettled : ∀ (i : Nat) t, h.tasks[i]? = some t → t.stage.isUnsettled = true → h.journal.get t.key = none
  known : ∀ key outcome, Known before h.trace key outcome → h.journal.get key = some outcome
  results : ∀ (i : Nat) t outcome, h.tasks[i]? = some t → t.stage.result = some (.ok outcome) →
    h.Grounded i t.key outcome
  starts : ∀ past i submission, past ++ [.started i submission] <+: h.trace →
    ∀ outcome, ¬Known before past submission.key outcome
  returns : ∀ past i key outcome, past ++ [.returned i key (.ok outcome)] <+: h.trace →
    ∀ known, Known before past key known →
    .journaled i key known ∉ past → outcome = .duplicate known.decision

private theorem serial_new (before : InMemorySubmissionJournal V) : Serial before (new before) where
  locks := LockTable.consistent_empty
  unsettled := fun i t ht => by simp [new] at ht
  known := by
    rintro key outcome (hbefore | ⟨i, hi⟩)
    · exact hbefore
    · cases hi
  results := fun i t outcome ht => by simp [new] at ht
  starts := fun past i submission hp => by simp [new] at hp
  returns := fun past i key outcome hp => by simp [new] at hp

private theorem get_moved {tasks : List (SubmitTask V)} {j : Nat} {t' : SubmitTask V}
    (h : (tasks.set i { t with stage })[j]? = some t') :
    j = i ∧ t' = { t with stage } ∨ j ≠ i ∧ tasks[j]? = some t' := by
  rw [List.getElem?_set] at h
  split_ifs at h with hij
  · exact .inl ⟨hij.symm, (Option.some.inj h).symm⟩
  · exact .inr ⟨fun hji => hij hji.symm, h⟩

private theorem Known.concat {before : InMemorySubmissionJournal V} {trace : List (SubmitEvent V)} {e : SubmitEvent V}
    {key : SubmissionKey} (hk : Known before (trace ++ [e]) key outcome) :
    Known before trace key outcome ∨ ∃ i, e = .journaled i key outcome := by
  rcases hk with hbefore | ⟨i, hi⟩
  · exact .inl (.inl hbefore)
  · rcases List.mem_append.mp hi with hi | hi
    · exact .inl (.inr ⟨i, hi⟩)
    · exact .inr ⟨i, (List.mem_singleton.mp hi).symm⟩

section
variable {before : InMemorySubmissionJournal V} {h' : DeduplicatingSubmissionHandler V}

/-- A step that journals nothing, and lets nobody in before it has read the journal. -/
theorem Serial.moved (hs : Serial before h) (hlocks : h'.view.Consistent) (here : h.tasks[i]? = some t)
    (htasks : h'.tasks = h.tasks.set i { t with stage }) (hjournal : h'.journal = h.journal)
    (htrace : h'.trace = h.trace) (hunsettled : stage.isUnsettled = true → h.journal.get t.key = none)
    (hresult : ∀ outcome, stage.result = some (.ok outcome) → h.Grounded i t.key outcome) : Serial before h' := by
  have hgrounded : ∀ j key outcome, h.Grounded j key outcome → h'.Grounded j key outcome := by
    intro j key outcome hg
    rw [Grounded, hjournal, htrace]
    exact hg
  refine ⟨hlocks, ?_, ?_, ?_, ?_, ?_⟩
  · intro j t' hj hopen
    rw [htasks] at hj
    rw [hjournal]
    rcases get_moved hj with ⟨rfl, rfl⟩ | ⟨_, hold⟩
    · exact hunsettled hopen
    · exact hs.unsettled j t' hold hopen
  · rw [htrace, hjournal]
    exact hs.known
  · intro j t' outcome hj hr
    rw [htasks] at hj
    rcases get_moved hj with ⟨rfl, rfl⟩ | ⟨_, hold⟩
    · exact hgrounded _ _ _ (hresult outcome hr)
    · exact hgrounded _ _ _ (hs.results j t' outcome hold hr)
  · rw [htrace]
    exact hs.starts
  · rw [htrace]
    exact hs.returns

private theorem Serial.logged (hs : Serial before h) {e : SubmitEvent V}
    (hjournaled : ∀ i key outcome, e ≠ .journaled i key outcome)
    (hstarts : ∀ i submission, e = .started i submission → h.journal.get submission.key = none)
    (hreturns : ∀ i key outcome, e = .returned i key (.ok outcome) → h.Grounded i key outcome) :
      Serial before (h.log e) := by
  have hold : ∀ {j key outcome}, .journaled j key outcome ∈ h.trace ++ [e] → .journaled j key outcome ∈ h.trace := by
    intro j key outcome hmem
    rcases List.mem_append.mp hmem with hmem | hmem
    · exact hmem
    · exact absurd (List.mem_singleton.mp hmem).symm (hjournaled j key outcome)
  refine ⟨hs.locks, hs.unsettled, ?_, ?_, ?_, ?_⟩
  · rintro key outcome (hbefore | ⟨j, hj⟩)
    · exact hs.known key outcome (.inl hbefore)
    · exact hs.known key outcome (.inr ⟨j, hold hj⟩)
  · intro j t' outcome hj hr
    exact (hs.results j t' outcome hj hr).imp_left (List.mem_append_left _)
  · intro past j submission hp outcome hknown
    rcases concat_prefix_concat.mp hp with ⟨rfl, heq⟩ | hp
    · have hnone := hstarts j submission heq.symm
      rw [hs.known _ outcome hknown] at hnone
      cases hnone
    · exact hs.starts past j submission hp outcome hknown
  · intro past j key outcome hp known hknown hother
    rcases concat_prefix_concat.mp hp with ⟨rfl, heq⟩ | hp
    · rcases hreturns j key outcome heq.symm with hown | ⟨found, hfound, rfl⟩
      · -- the call's own entry is the only one for its key
        have hget := hs.known key known hknown
        rw [hs.known key outcome (.inr ⟨j, hown⟩)] at hget
        cases hget
        exact absurd hown hother
      · rw [hs.known key known hknown] at hfound
        cases hfound
        rfl
    · exact hs.returns past j key outcome hp known hknown hother

/-- Calls that have read the journal and not written it are for different keys. -/
theorem Serial.apart (hs : Serial before h) {j : Nat} {t' : SubmitTask V} (here : h.tasks[i]? = some t)
    (there : h.tasks[j]? = some t')
    (hopen : t.stage.isUnsettled = true) (hopen' : t'.stage.isUnsettled = true) (hkey : t.key = t'.key) : i = j := by
  have hguard : ∀ {t : SubmitTask V}, t.stage.isUnsettled = true → ∃ lock, t.seat.guard = some (t.key, lock) := by
    rintro ⟨submission, stage⟩ hstage
    cases stage <;> first | exact ⟨_, rfl⟩ | cases hstage
  obtain ⟨lock, hg⟩ := hguard hopen
  obtain ⟨lock', hg'⟩ := hguard hopen'
  rw [← hkey] at hg'
  exact hs.locks.exclusive (seat_view here) (seat_view there) hg hg'

variable [DecidableEq V]

private theorem put_ok {journal journal' : InMemorySubmissionJournal V} {key : SubmissionKey}
    (hput : journal.put key outcome = .ok journal') : journal' = journal.insert key outcome := by
  rw [InMemorySubmissionJournal.put] at hput
  obtain ⟨_, heq⟩ := unit_bind_eq_ok.mp hput
  exact (Except.ok.inj heq).symm

/-- The one entry for the key of the call goes into the journal. -/
theorem Serial.journaled (hs : Serial before h) {lock : Nat}
    {journal : InMemorySubmissionJournal V} (here : h.tasks[i]? = some t) (hstage : t.stage = .recording lock outcome)
    (hput : InMemorySubmissionJournal.put h.journal t.key outcome = .ok journal) :
    Serial before (({ h with journal }.moveTo i t (.unlocking lock (.ok outcome))).log
      (.journaled i t.key outcome)) := by
  have hopen : t.stage.isUnsettled = true := by rw [hstage]; rfl
  have hnone := hs.unsettled i t here hopen
  have hget : ∀ key, OrderedMap.get journal key = if key = t.key then some outcome else h.journal.get key := by
    intro key
    rw [put_ok hput, OrderedMap.get_insert]
  have hgrows : ∀ key known, h.journal.get key = some known → OrderedMap.get journal key = some known := by
    intro key known hknown
    rw [hget, if_neg]
    · exact hknown
    · rintro rfl
      rw [hnone] at hknown
      cases hknown
  refine ⟨hs.locks.step (Turn.journaled here hstage hput).locks, ?_, ?_, ?_, ?_, ?_⟩
  · intro j t' hj hopen'
    rcases get_moved hj with ⟨_, rfl⟩ | ⟨hji, hold⟩
    · cases hopen'
    · have hkey : t'.key ≠ t.key := fun heq => hji (hs.apart hold here hopen' hopen heq)
      show OrderedMap.get journal t'.key = none
      rw [hget, if_neg hkey]
      exact hs.unsettled j t' hold hopen'
  · intro key known hknown
    show OrderedMap.get journal key = some known
    rcases hknown.concat with hold | ⟨_, heq⟩
    · exact hgrows key known (hs.known key known hold)
    · cases heq
      rw [hget, if_pos rfl]
  · intro j t' o hj hr
    rcases get_moved hj with ⟨rfl, rfl⟩ | ⟨_, hold⟩
    · cases hr
      exact .inl (List.mem_append_right _ List.mem_cons_self)
    · rcases hs.results j t' o hold hr with hown | ⟨known, hknown, rfl⟩
      · exact .inl (List.mem_append_left _ hown)
      · exact .inr ⟨known, hgrows _ known hknown, rfl⟩
  · intro past j submission hp
    rcases concat_prefix_concat.mp hp with ⟨_, heq⟩ | hp
    · cases heq
    · exact hs.starts past j submission hp
  · intro past j key o hp
    rcases concat_prefix_concat.mp hp with ⟨_, heq⟩ | hp
    · cases heq
    · exact hs.returns past j key o hp

private theorem serial_step (hs : Serial before h) (a : SubmitAction V) : Serial before (h.step a) := by
  have hturn := turn_step h a
  generalize h.step a = h' at hturn
  have hlocks := hs.locks.step hturn.locks
  cases hturn with
  | idle => exact hs
  | joined submission =>
    have hold : ∀ {j : Nat} {t' : SubmitTask V}, (h.tasks ++ [⟨submission, .entering⟩])[j]? = some t' →
        h.tasks[j]? = some t' ∨ t' = ⟨submission, .entering⟩ := by
      intro j t' hj
      rw [List.getElem?_append] at hj
      split_ifs at hj
      · exact .inl hj
      · exact .inr (List.mem_singleton.mp (List.mem_of_getElem? hj))
    refine ⟨hlocks, fun j t' hj hopen => ?_, hs.known, fun j t' outcome hj hr => ?_, hs.starts, hs.returns⟩
    · rcases hold hj with hj | rfl
      · exact hs.unsettled j t' hj hopen
      · cases hopen
    · rcases hold hj with hj | rfl
      · exact hs.results j t' outcome hj hr
      · cases hr
  | @moved _ i t stage here tasks journal trace _ unsettled result =>
    refine hs.moved hlocks here tasks journal trace (fun hopen => hs.unsettled i t here (unsettled hopen))
      fun outcome hr => ?_
    rcases result outcome hr with hold | hfound
    · exact hs.results i t outcome here hold
    · exact .inr hfound
  | @started i t lock here stage missing =>
    have hmoved : Serial before (h.moveTo i t (.calling lock)) :=
      hs.moved hlocks here rfl rfl rfl (fun _ => missing) (fun _ hr => nomatch hr)
    refine hmoved.logged (fun _ _ _ heq => nomatch heq) (fun j submission heq => ?_) (fun _ _ _ heq => nomatch heq)
    cases heq
    exact missing
  | journaled here stage put => exact hs.journaled here stage put
  | @returned i t lock result here stage =>
    have hmoved : Serial before (h.moveTo i t .gone) :=
      hs.moved hlocks here rfl rfl rfl (fun hopen => nomatch hopen) (fun _ hr => nomatch hr)
    refine hmoved.logged (fun _ _ _ heq => nomatch heq) (fun _ _ heq => nomatch heq) (fun j key outcome heq => ?_)
    cases heq
    exact hs.results i t outcome here (by rw [stage]; rfl)

private theorem serial_run (before : InMemorySubmissionJournal V) (actions : List (SubmitAction V)) :
    Serial before (run step (new before) actions) :=
  run_invariant_all (I := Serial before) (fun _ a hs => serial_step hs a) (serial_new before) actions

/-- Calls of `inner.submit` for one key do not overlap, none starts once an outcome is known, and
whoever returns then without having journaled it returns a duplicate of it. Calls that wait for
a key, or are let in, have one lock. -/
theorem submissions_take_turns (before : InMemorySubmissionJournal V) (actions : List (SubmitAction V)) :
    let h := run step (new before) actions
    (∀ (i j : Nat) t t', h.tasks[i]? = some t → h.tasks[j]? = some t' → t.isCalling = true → t'.isCalling = true →
      t.key = t'.key → i = j) ∧
    (∀ past i submission, past ++ [.started i submission] <+: h.trace →
      ∀ outcome, ¬Known before past submission.key outcome) ∧
    (∀ past i key outcome, past ++ [.returned i key (.ok outcome)] <+: h.trace → ∀ known, Known before past key known →
      .journaled i key known ∉ past → outcome = .duplicate known.decision) ∧
    ∀ (i j : Nat) t t' key lock lock', h.tasks[i]? = some t → h.tasks[j]? = some t' →
      t.seat.engaged = some (key, lock) →
      t'.seat.engaged = some (key, lock') → lock = lock' := by
  intro h
  have hs := serial_run before actions
  have hcalling : ∀ {t : SubmitTask V}, t.isCalling = true → t.stage.isUnsettled = true := by
    rintro ⟨submission, stage⟩ hstage
    cases stage <;> first | rfl | cases hstage
  refine ⟨?_, hs.starts, hs.returns, ?_⟩
  · exact fun i j t t' here there hcall hcall' hkey => hs.apart here there (hcalling hcall) (hcalling hcall') hkey
  · exact fun i j t t' key lock lock' here there he he' => hs.locks.one_lock (seat_view here) (seat_view there) he he'

end

def twoCalls : List (SubmitAction Nat) :=
  [.submit ⟨7, 1, [5]⟩, .submit ⟨7, 1, [5]⟩, .run 0 none, .run 0 none, .run 0 none, .run 1 none, .run 1 none,
    .answer 0 (.ok (.committed ⟨1, [5], 2, 4⟩)), .run 0 none, .run 0 none, .run 1 none, .run 1 none, .run 0 none,
      .run 0 none,
    .run 1 none, .run 1 none, .run 1 none]

/-- The call that has journaled the outcome returns that outcome and no duplicate. -/
theorem author_returns_its_outcome :
    let h := run step (new ∅) twoCalls
    let key := Submission.key (⟨7, 1, [5]⟩ : Submission Nat)
    h.requestLocks.keys = [] ∧ h.trace =
      [.started 0 ⟨7, 1, [5]⟩, .journaled 0 key (.committed ⟨1, [5], 2, 4⟩),
        .returned 0 key (.ok (.committed ⟨1, [5], 2, 4⟩)),
        .returned 1 key (.ok (.duplicate (some ⟨1, [5], 2, 4⟩)))] := by
  decide +kernel

end DeduplicatingSubmissionHandler
end QuePaxa
