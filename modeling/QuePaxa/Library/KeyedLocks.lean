import Mathlib.Data.List.Count
import Mathlib.Logic.Function.Basic

/-! Locks that are made on demand, one for each key. A user takes a reference to the lock of
its key from a table, waits for the lock, holds it and lets go of it. A user who then finds
itself alone with the lock takes it out of the table. Users may go away at any time. Everybody
who waits for a lock or holds one has the lock that is in the table, so at most one user at a
time is let in for a key. -/
namespace Library
variable {K L : Type}

inductive Seat (K L : Type) where
  | out
  | waiting (key : K) (lock : L)
  | holding (key : K) (lock : L)
  | leaving (key : K) (lock : L)
  /-- Done with the table; the reference is still there. -/
  | spent (lock : L)

namespace Seat

def ref : Seat K L → Option L
  | .out => none
  | .waiting _ lock | .holding _ lock | .leaving _ lock | .spent lock => some lock

def engaged : Seat K L → Option (K × L)
  | .waiting key lock | .holding key lock | .leaving key lock => some (key, lock)
  | .out | .spent _ => none

def guard : Seat K L → Option (K × L)
  | .holding key lock => some (key, lock)
  | _ => none

theorem engaged_of_guard {seat : Seat K L} {x : K × L} (h : seat.guard = some x) : seat.engaged = some x := by
  cases seat <;> first | exact h | cases h

theorem ref_of_engaged {seat : Seat K L} {key : K} {lock : L} (h : seat.engaged = some (key, lock)) :
    seat.ref = some lock := by
  cases seat <;> cases h <;> rfl

end Seat

structure LockTable (K L : Type) where
  entry : K → Option L
  seats : List (Seat K L)

namespace LockTable

def moves (s : LockTable K L) (i : Nat) (seat : Seat K L) : LockTable K L := { s with seats := s.seats.set i seat }

theorem moves_self {s : LockTable K L} {i : Nat} {seat : Seat K L} (here : s.seats[i]? = some seat) :
    s.moves i seat = s := by
  obtain ⟨_, rfl⟩ := List.getElem?_eq_some_iff.mp here
  rw [moves, List.set_getElem_self]

section
variable [DecidableEq K]

inductive Step (s : LockTable K L) : LockTable K L → Prop
  | idle : Step s s
  | join : Step s { s with seats := s.seats ++ [.out] }
  | take {i : Nat} {key : K} {lock : L} (here : s.seats[i]? = some .out) (entry : s.entry key = some lock) :
      Step s (s.moves i (.waiting key lock))
  | create {i : Nat} {key : K} (lock : L) (here : s.seats[i]? = some .out) (missing : s.entry key = none) :
      Step s ⟨Function.update s.entry key (some lock), s.seats.set i (.waiting key lock)⟩
  | acquire {i : Nat} {key : K} {lock : L} (here : s.seats[i]? = some (.waiting key lock))
      (free : ∀ seat ∈ s.seats, ∀ key, seat.guard ≠ some (key, lock)) : Step s (s.moves i (.holding key lock))
  | release {i : Nat} {key : K} {lock : L} (here : s.seats[i]? = some (.holding key lock)) :
      Step s (s.moves i (.leaving key lock))
  | remove {i : Nat} {key : K} {lock : L} (here : s.seats[i]? = some (.leaving key lock))
      (alone : ∀ j seat, s.seats[j]? = some seat → seat.ref = some lock → j = i) :
      Step s ⟨Function.update s.entry key none, s.seats.set i (.spent lock)⟩
  /-- The user goes away, or leaves the entry to others. -/
  | leave {i : Nat} {seat : Seat K L} {lock : L} (here : s.seats[i]? = some seat) (ref : seat.ref = some lock) :
      Step s (s.moves i (.spent lock))
  | drop {i : Nat} {lock : L} (here : s.seats[i]? = some (.spent lock)) : Step s (s.moves i .out)

end

theorem Step.stay [DecidableEq K] {s : LockTable K L} {i : Nat} {seat : Seat K L} (here : s.seats[i]? = some seat) :
    s.Step (s.moves i seat) := by
  rw [moves_self here]
  exact .idle

/-- Everybody has the lock from the table, and locks have one holder. -/
structure Consistent (s : LockTable K L) : Prop where
  listed : ∀ (i : Nat) (seat : Seat K L) key lock, s.seats[i]? = some seat → seat.engaged = some (key, lock) →
    s.entry key = some lock
  single : ∀ (i j : Nat) (seat seat' : Seat K L) key key' lock, s.seats[i]? = some seat → s.seats[j]? = some seat' →
    seat.guard = some (key, lock) → seat'.guard = some (key', lock) → i = j

variable {s s' : LockTable K L}

theorem Consistent.one_lock (h : s.Consistent) {i j : Nat} {seat seat' : Seat K L} {key : K} {lock lock' : L}
    (hi : s.seats[i]? = some seat) (hj : s.seats[j]? = some seat') (he : seat.engaged = some (key, lock))
    (he' : seat'.engaged = some (key, lock')) : lock = lock' := by
  have hentry := h.listed i seat key lock hi he
  rw [h.listed j seat' key lock' hj he'] at hentry
  exact (Option.some.inj hentry).symm

theorem Consistent.exclusive (h : s.Consistent) {i j : Nat} {seat seat' : Seat K L} {key : K} {lock lock' : L}
    (hi : s.seats[i]? = some seat) (hj : s.seats[j]? = some seat') (hg : seat.guard = some (key, lock))
    (hg' : seat'.guard = some (key, lock')) : i = j := by
  obtain rfl := h.one_lock hi hj (Seat.engaged_of_guard hg) (Seat.engaged_of_guard hg')
  exact h.single i j seat seat' key key lock hi hj hg hg'

private theorem get_set {seats : List (Seat K L)} {i j : Nat} {seat seat' : Seat K L}
    (h : (seats.set i seat)[j]? = some seat') :
    j = i ∧ seat' = seat ∨ j ≠ i ∧ seats[j]? = some seat' := by
  rw [List.getElem?_set] at h
  split_ifs at h with hij hlt
  · exact .inl ⟨hij.symm, (Option.some.inj h).symm⟩
  · exact .inr ⟨fun hji => hij hji.symm, h⟩

/-- One user moves: the others keep their entries, and a lock it gets is free. -/
theorem Consistent.moved (h : s.Consistent) {entry : K → Option L} {i : Nat} {seat : Seat K L}
    (hkept : ∀ (j : Nat) (seat' : Seat K L) key lock, j ≠ i → s.seats[j]? = some seat' →
      seat'.engaged = some (key, lock) →
      entry key = some lock)
    (hlisted : ∀ key lock, seat.engaged = some (key, lock) → entry key = some lock)
    (hfree : ∀ key key' lock, seat.guard = some (key, lock) → ∀ seat' ∈ s.seats, seat'.guard ≠ some (key', lock)) :
    Consistent ⟨entry, s.seats.set i seat⟩ := by
  constructor
  · intro j seat' key lock hj he
    rcases get_set hj with ⟨_, rfl⟩ | ⟨hji, hold⟩
    · exact hlisted key lock he
    · exact hkept j seat' key lock hji hold he
  · intro j k seat₁ seat₂ key key' lock hj hk hg hg'
    rcases get_set hj with ⟨rfl, rfl⟩ | ⟨_, hold⟩
    · rcases get_set hk with ⟨rfl, rfl⟩ | ⟨_, hold'⟩
      · rfl
      · exact absurd hg' (hfree key key' lock hg seat₂ (List.mem_of_getElem? hold'))
    · rcases get_set hk with ⟨rfl, rfl⟩ | ⟨_, hold'⟩
      · exact absurd hg (hfree key' key lock hg' seat₁ (List.mem_of_getElem? hold))
      · exact h.single j k seat₁ seat₂ key key' lock hold hold' hg hg'

theorem consistent_empty : (⟨fun _ => none, []⟩ : LockTable K L).Consistent := by
  constructor
  · intro i seat key lock hi
    simp at hi
  · intro i j seat seat' key key' lock hi
    simp at hi

private theorem Consistent.join (h : s.Consistent) : Consistent { s with seats := s.seats ++ [.out] } := by
  have hold : ∀ {j : Nat} {seat : Seat K L} {x : K × L}, (s.seats ++ [.out])[j]? = some seat → seat.engaged = some x →
      s.seats[j]? = some seat := by
    intro j seat x hj he
    rw [List.getElem?_append] at hj
    split_ifs at hj
    · exact hj
    · have hout := List.mem_singleton.mp (List.mem_of_getElem? hj)
      rw [hout] at he
      cases he
  constructor
  · exact fun j seat key lock hj he => h.listed j seat key lock (hold hj he) he
  · exact fun j k seat seat' key key' lock hj hk hg hg' => h.single j k seat seat' key key' lock
      (hold hj (Seat.engaged_of_guard hg)) (hold hk (Seat.engaged_of_guard hg')) hg hg'

theorem Consistent.step [DecidableEq K] (h : s.Consistent) (hstep : s.Step s') : s'.Consistent := by
  have hstays : ∀ (i j : Nat) (seat : Seat K L) key lock, j ≠ i → s.seats[j]? = some seat →
    seat.engaged = some (key, lock) →
      s.entry key = some lock := fun _ j seat key lock _ => h.listed j seat key lock
  cases hstep with
  | idle => exact h
  | join => exact h.join
  | @take i key lock here entry =>
    refine h.moved (hstays i) (fun key lock he => ?_) (fun _ _ _ hg => nomatch hg)
    cases he
    exact entry
  | @create i key lock here missing =>
    refine h.moved (fun j seat k l hji hj he => ?_) (fun k l he => ?_) (fun _ _ _ hg => nomatch hg)
    · -- nobody is there for a key without an entry
      have hne : k ≠ key := by
        rintro rfl
        rw [h.listed j seat k l hj he] at missing
        cases missing
      rw [Function.update_of_ne hne]
      exact h.listed j seat k l hj he
    · cases he
      exact Function.update_self ..
  | @acquire i key lock here free =>
    refine h.moved (hstays i) (fun k l he => ?_) (fun k k' l hg seat hseat => ?_)
    · cases he
      exact h.listed i _ key lock here rfl
    · cases hg
      exact free seat hseat k'
  | @release i key lock here =>
    refine h.moved (hstays i) (fun k l he => ?_) (fun _ _ _ hg => nomatch hg)
    cases he
    exact h.listed i _ key lock here rfl
  | @remove i key lock here alone =>
    refine h.moved (fun j seat k l hji hj he => ?_) (fun _ _ he => nomatch he) (fun _ _ _ hg => nomatch hg)
    have hentry := h.listed j seat k l hj he
    have hne : k ≠ key := by
      rintro rfl
      rw [h.listed i _ k lock here rfl] at hentry
      obtain rfl := Option.some.inj hentry
      exact hji (alone j seat hj (Seat.ref_of_engaged he))
    rw [Function.update_of_ne hne]
    exact hentry
  | leave | drop => exact h.moved (hstays _) (fun _ _ he => nomatch he) (fun _ _ _ hg => nomatch hg)

end LockTable

theorem eq_of_countP_le_one {α : Type} {p : α → Bool} {l : List α} {i j : Nat} {a b : α} (h : l.countP p ≤ 1)
    (hi : l[i]? = some a) (ha : p a = true) (hj : l[j]? = some b) (hb : p b = true) : i = j := by
  induction l generalizing i j with
  | nil => simp at hi
  | cons c l ih =>
    have hsome : ∀ {k : Nat} {d : α}, l[k]? = some d → p d = true → 0 < l.countP p :=
      fun hk hd => List.countP_pos_iff.mpr ⟨_, List.mem_of_getElem? hk, hd⟩
    rw [List.countP_cons] at h
    cases i with
    | zero =>
      obtain rfl : c = a := by simpa using hi
      cases j with
      | zero => rfl
      | succ j =>
        have hpos := hsome (by simpa using hj) hb
        rw [if_pos ha] at h
        omega
    | succ i =>
      have hpos := hsome (by simpa using hi) ha
      cases j with
      | zero =>
        obtain rfl : c = b := by simpa using hj
        rw [if_pos hb] at h
        omega
      | succ j =>
        have hi : l[i]? = some a := by simpa using hi
        have hj : l[j]? = some b := by simpa using hj
        rw [ih (Nat.le_of_add_right_le h) hi hj]

end Library
