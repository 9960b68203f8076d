import Mathlib.Data.List.Range

/-! Arrivals with keys, delivered in the order of their keys: the first arrival of each key from 1
on, up to the first key that has none. The order of arrival matters only between arrivals of one
key. -/
namespace Library
variable {α β : Type*} {key : α → Nat} {arrivals arrivals' out out' : List α}

structure Deliverable (key : α → Nat) (arrivals out : List α) : Prop where
  keys : out.map key = List.range' 1 out.length
  first : ∀ a ∈ out, arrivals.find? (fun b => key b = key a) = some a
  stop : ∀ a ∈ arrivals, key a ≠ out.length + 1

namespace Deliverable

theorem mem (h : Deliverable key arrivals out) {a : α} (ha : a ∈ out) : a ∈ arrivals :=
  List.mem_of_find?_eq_some (h.first a ha)

theorem key_getElem (h : Deliverable key arrivals out) {i : Nat} (hi : i < out.length) : key out[i] = i + 1 := by
  have hget : (out.map key)[i]? = (List.range' 1 out.length)[i]? := by rw [h.keys]
  rw [List.getElem?_map, List.getElem?_eq_getElem hi, List.getElem?_range' hi, Option.map_some, Option.some.injEq]
    at hget
  omega

/-- More arrivals deliver at least as far. -/
theorem length_le (h : Deliverable key arrivals out) (h' : Deliverable key arrivals' out')
    (hsub : ∀ a ∈ arrivals, a ∈ arrivals') : out.length ≤ out'.length := by
  by_contra hlt
  have hi : out'.length < out.length := not_le.mp hlt
  exact h'.stop _ (hsub _ (h.mem (List.getElem_mem hi))) (h.key_getElem hi)

/-- Whatever the arrivals of one key agree on is delivered alike in any order of arrival. -/
theorem map_eq {f : α → β} (h : Deliverable key arrivals out) (h' : Deliverable key arrivals' out')
    (hsame : ∀ a, a ∈ arrivals ↔ a ∈ arrivals')
    (hagree : ∀ a ∈ arrivals, ∀ b ∈ arrivals, key a = key b → f a = f b) : out.map f = out'.map f := by
  have hlength : out.length = out'.length :=
    le_antisymm (h.length_le h' fun a => (hsame a).mp) (h'.length_le h fun a => (hsame a).mpr)
  apply List.ext_getElem
  · rw [List.length_map, List.length_map, hlength]
  · intro i hi hi'
    rw [List.length_map] at hi hi'
    rw [List.getElem_map, List.getElem_map]
    refine hagree _ (h.mem (List.getElem_mem hi)) _ ((hsame _).mpr (h'.mem (List.getElem_mem hi'))) ?_
    rw [h.key_getElem hi, h'.key_getElem hi']

/-- Where the arrivals agree key by key, what delivers less far is a prefix of the other. -/
theorem map_prefix {f : α → β} (h : Deliverable key arrivals out) (h' : Deliverable key arrivals' out')
    (hagree : ∀ a ∈ arrivals, ∀ b ∈ arrivals', key a = key b → f a = f b) (hle : out.length ≤ out'.length) :
    out.map f <+: out'.map f := by
  rw [List.prefix_iff_eq_take]
  apply List.ext_getElem
  · simp [hle]
  · intro i hi hi'
    rw [List.length_map] at hi
    have hi'' : i < out'.length := hi.trans_le hle
    rw [List.getElem_take, List.getElem_map, List.getElem_map]
    refine hagree _ (h.mem (List.getElem_mem hi)) _ (h'.mem (List.getElem_mem hi'')) ?_
    rw [h.key_getElem hi, h'.key_getElem hi'']

theorem map_prefix_or {f : α → β} (h : Deliverable key arrivals out) (h' : Deliverable key arrivals' out')
    (hagree : ∀ a ∈ arrivals, ∀ b ∈ arrivals', key a = key b → f a = f b) :
    out.map f <+: out'.map f ∨ out'.map f <+: out.map f := by
  rcases Nat.le_total out.length out'.length with hle | hle
  · exact .inl (h.map_prefix h' hagree hle)
  · exact .inr (h'.map_prefix h (fun b hb a ha hkey => (hagree a ha b hb hkey.symm).symm) hle)

end Deliverable
end Library
