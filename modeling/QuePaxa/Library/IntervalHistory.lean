import Mathlib.Data.List.Induction
import Mathlib.Order.Lattice
import Mathlib.Tactic.Common

/-! Histories of stepped records, and the summaries a register may keep of them: the
first record of a step and the best record of the step before. A history only grows
at its latest step, so what a summary has reported stays true. -/
namespace Library
variable {P K : Type} [LinearOrder K]
variable {ps : List P} {s : Nat} {p : P}

section
variable (key : P → K)

def better (held : Option P) (p : P) : P :=
  match held with
  | some q => if key p ≤ key q then q else p
  | none => p

def bestOf (ps : List P) : Option P := ps.foldl (fun held p => some (better key held p)) none

theorem bestOf_concat (ps : List P) (p : P) :
    bestOf key (ps ++ [p]) = some (better key (bestOf key ps) p) := by
  simp [bestOf, List.foldl_append]

variable {key}

/-- The element with the greatest key, the earliest of them on a tie; none of an empty list. -/
def IsAggregate (key : P → K) (ps : List P) : Option P → Prop
  | none => ps = []
  | some b => ∃ before after, ps = before ++ b :: after ∧ (∀ p ∈ before, key p < key b) ∧ ∀ p ∈ after, key p ≤ key b

theorem bestOf_isAggregate (ps : List P) : IsAggregate key ps (bestOf key ps) := by
  induction ps using List.reverseRecOn with
  | nil => rfl
  | append_singleton ps p ih =>
    rw [bestOf_concat]
    cases hb : bestOf key ps with
    | none =>
      rw [hb] at ih
      obtain rfl : ps = [] := ih
      exact ⟨[], [], rfl, by simp, by simp⟩
    | some b =>
      rw [hb] at ih
      obtain ⟨before, after, rfl, hbefore, hafter⟩ := ih
      by_cases h : key p ≤ key b
      · -- a tie keeps the held element
        have hheld : better key (some b) p = b := by simp only [better, h, if_true]
        rw [hheld]
        refine ⟨before, after ++ [p], by simp, hbefore, fun q hq => ?_⟩
        rcases List.mem_append.mp hq with hq | hq
        · exact hafter q hq
        · rwa [List.mem_singleton.mp hq]
      · have hnew : better key (some b) p = p := by simp only [better, h, if_false]
        rw [hnew]
        refine ⟨before ++ b :: after, [], rfl, fun q hq => ?_, by simp⟩
        have hlt : key b < key p := not_le.mp h
        rcases List.mem_append.mp hq with hq | hq
        · exact (hbefore q hq).trans hlt
        rcases List.mem_cons.mp hq with rfl | hq
        · exact hlt
        · exact (hafter q hq).trans_lt hlt

theorem IsAggregate.eq_none {best : Option P} (h : IsAggregate key ps best) : best = none ↔ ps = [] := by
  cases best with
  | none => exact ⟨fun _ => h, fun _ => rfl⟩
  | some b =>
    obtain ⟨before, after, rfl, _⟩ := h
    simp

theorem IsAggregate.mem {b : P} (h : IsAggregate key ps (some b)) : b ∈ ps := by
  obtain ⟨before, after, rfl, _⟩ := h
  simp

theorem IsAggregate.le {b : P} (h : IsAggregate key ps (some b)) (hp : p ∈ ps) : key p ≤ key b := by
  obtain ⟨before, after, rfl, hbefore, hafter⟩ := h
  rcases List.mem_append.mp hp with hp | hp
  · exact (hbefore p hp).le
  rcases List.mem_cons.mp hp with rfl | hp
  · exact le_rfl
  · exact hafter p hp

private theorem IsAggregate.not_behind {before after after' : List P} {b c : P} (hc : ∀ p ∈ before, key p < key c)
    (hle : key c ≤ key b) {between before' : List P} (hbefore : before = before' ++ between)
    (hafter : b :: after = between ++ c :: after') : b = c := by
  cases between with
  | nil => exact (List.cons.inj hafter).1
  | cons x between =>
    obtain ⟨rfl, _⟩ := List.cons.inj hafter
    have hmem : b ∈ before := hbefore ▸ List.mem_append_right _ List.mem_cons_self
    exact absurd hle (not_le.mpr (hc b hmem))

theorem IsAggregate.unique {best best' : Option P} (h : IsAggregate key ps best)
    (h' : IsAggregate key ps best') : best = best' := by
  cases best with
  | none => exact (h'.eq_none.mpr h).symm
  | some b =>
    cases best' with
    | none => exact h.eq_none.mpr h'
    | some c =>
      have hle : key b ≤ key c := h'.le h.mem
      have hge : key c ≤ key b := h.le h'.mem
      obtain ⟨before, after, hps, hbefore, _⟩ := h
      obtain ⟨before', after', hps', hbefore', _⟩ := h'
      rcases List.append_eq_append_iff.mp (hps.symm.trans hps') with ⟨between, hb, ha⟩ | ⟨between, hb, ha⟩
      · rw [IsAggregate.not_behind hbefore' hge hb ha]
      · rw [IsAggregate.not_behind hbefore hle hb ha]

theorem bestOf_eq_none : bestOf key ps = none ↔ ps = [] := (bestOf_isAggregate ps).eq_none

theorem mem_of_bestOf {b : P} (h : bestOf key ps = some b) : b ∈ ps :=
  IsAggregate.mem (h ▸ bestOf_isAggregate ps)

theorem le_bestOf {b : P} (h : bestOf key ps = some b) (hp : p ∈ ps) : key p ≤ key b :=
  IsAggregate.le (h ▸ bestOf_isAggregate ps) hp

theorem exists_bestOf (key : P → K) (hp : p ∈ ps) :
    ∃ b, bestOf key ps = some b ∧ key p ≤ key b := by
  cases hb : bestOf key ps with
  | none =>
    rw [bestOf_eq_none.mp hb] at hp
    cases hp
  | some b => exact ⟨b, rfl, le_bestOf hb hp⟩
end

abbrev History (P : Type) := List (Nat × P)

namespace History

def recorded (h : History P) (s : Nat) : List P := (h.filter (·.1 = s)).map (·.2)
def firstAt (h : History P) (s : Nat) : Option P := (h.recorded s).head?
def bestAt (key : P → K) (h : History P) (s : Nat) : Option P := bestOf key (h.recorded s)

def latest (h : History P) : Nat := h.foldl (fun latest x => max latest x.1) 0

/-- The records at a step no earlier record is beyond. -/
def effective (h : History P) : History P :=
  (h.zipIdx.filter fun x => (h.take x.2).all fun y => y.1 ≤ x.1.1).map Prod.fst

def Extends (h h' : History P) : Prop :=
  ∃ tail, h' = h ++ tail ∧ ∀ x ∈ h, ∀ y ∈ tail, x.1 ≤ y.1

theorem mem_recorded {h : History P} : p ∈ h.recorded s ↔ (s, p) ∈ h := by
  simp only [recorded, List.mem_map, List.mem_filter, decide_eq_true_eq]
  constructor
  · rintro ⟨⟨_, _⟩, ⟨hmem, rfl⟩, rfl⟩
    exact hmem
  · intro hmem
    exact ⟨(s, p), ⟨hmem, rfl⟩, rfl⟩

theorem recorded_append (h tail : History P) (s : Nat) :
    recorded (h ++ tail) s = h.recorded s ++ recorded tail s := by
  simp [recorded]

theorem recorded_concat_same (h : History P) (s : Nat) (p : P) :
    recorded (h ++ [(s, p)]) s = h.recorded s ++ [p] := by
  simp [recorded]

theorem recorded_concat_ne (h : History P) {t : Nat} (p : P) (hne : s ≠ t) :
    recorded (h ++ [(s, p)]) t = h.recorded t := by
  simp [recorded, hne]

theorem latest_concat (h : History P) (x : Nat × P) : latest (h ++ [x]) = max h.latest x.1 := by
  simp only [latest, List.foldl_append, List.foldl_cons, List.foldl_nil]

theorem latest_le {h : History P} : h.latest ≤ s ↔ ∀ x ∈ h, x.1 ≤ s := by
  induction h using List.reverseRecOn with
  | nil => simp [latest]
  | append_singleton h x ih =>
    rw [latest_concat, Nat.max_le, ih]
    simp only [List.forall_mem_append, List.forall_mem_singleton]

theorem effective_concat (h : History P) (x : Nat × P) :
    effective (h ++ [x]) = if ∀ y ∈ h, y.1 ≤ x.1 then h.effective ++ [x] else h.effective := by
  have hearlier : h.zipIdx.filter (fun z => ((h ++ [x]).take z.2).all fun y => y.1 ≤ z.1.1) =
      h.zipIdx.filter fun z => (h.take z.2).all fun y => y.1 ≤ z.1.1 := by
    apply List.filter_congr
    rintro ⟨z, i⟩ hz
    have hindex : i < h.length := List.snd_lt_of_mem_zipIdx hz
    simp only [List.take_append_of_le_length (Nat.le_of_lt hindex)]
  have hlast : [(x, h.length)].filter (fun z => ((h ++ [x]).take z.2).all fun y => y.1 ≤ z.1.1) =
      if ∀ y ∈ h, y.1 ≤ x.1 then [(x, h.length)] else [] := by
    simp only [List.filter_cons, List.filter_nil, List.take_left, List.all_eq_true, decide_eq_true_eq]
  rw [effective, List.zipIdx_append, List.filter_append, hearlier, List.zipIdx_singleton, Nat.zero_add, hlast,
    List.map_append, effective]
  by_cases hx : ∀ y ∈ h, y.1 ≤ x.1
  · rw [if_pos hx, if_pos hx, List.map_singleton]
  · rw [if_neg hx, if_neg hx, List.map_nil, List.append_nil]

theorem mem_of_firstAt {h : History P} (hf : h.firstAt s = some p) : p ∈ h.recorded s :=
  List.mem_of_mem_head? hf

theorem exists_firstAt {h : History P} (hp : p ∈ h.recorded s) :
    ∃ f, h.firstAt s = some f := by
  unfold firstAt
  cases hr : h.recorded s with
  | nil => rw [hr] at hp; cases hp
  | cons f rest => exact ⟨f, rfl⟩

theorem Extends.refl (h : History P) : h.Extends h := ⟨[], by simp, by simp⟩

theorem Extends.concat {h : History P} (hle : ∀ x ∈ h, x.1 ≤ s) :
    h.Extends (h ++ [(s, p)]) := ⟨[(s, p)], rfl, by simpa using hle⟩

theorem Extends.recorded {h h' : History P} (he : h.Extends h')
    (hp : p ∈ h.recorded s) : p ∈ h'.recorded s := by
  obtain ⟨tail, rfl, _⟩ := he
  rw [recorded_append]
  exact List.mem_append_left _ hp

theorem Extends.firstAt {h h' : History P} (he : h.Extends h')
    (hp : h.firstAt s = some p) : h'.firstAt s = some p := by
  obtain ⟨tail, rfl, _⟩ := he
  unfold History.firstAt at hp ⊢
  rw [recorded_append, List.head?_append, hp]
  rfl

/-- Once a later step has a record, an earlier step is closed. -/
theorem Extends.bestAt {key : P → K} {h h' : History P} (he : h.Extends h') {t : Nat}
    (hp : p ∈ h.recorded t) (hst : s < t) : h'.bestAt key s = h.bestAt key s := by
  obtain ⟨tail, rfl, hlater⟩ := he
  have hnil : History.recorded tail s = [] := by
    rw [List.eq_nil_iff_forall_not_mem]
    intro q hq
    have := hlater _ (mem_recorded.mp hp) _ (mem_recorded.mp hq)
    exact absurd this (Nat.not_le.mpr hst)
  rw [History.bestAt, History.bestAt, recorded_append, hnil, List.append_nil]

end History
end Library
