import Mathlib.Data.Finset.Card
import Mathlib.Data.List.Sort
import Mathlib.Tactic.Common

/-! Finite maps as strictly sorted association lists, iterated in key order.
Sortedness is part of the value, so two maps with equal lookups are equal. -/
namespace Library

structure OrderedMap (κ α : Type) [LinearOrder κ] where
  entries : List (κ × α)
  sorted : entries.Pairwise (fun a b => a.1 < b.1)

namespace OrderedMap
variable {κ α β : Type} [LinearOrder κ]
variable {m : OrderedMap κ α} {l : List (κ × α)}

def lookup (k : κ) : List (κ × α) → Option α
  | [] => none
  | (k', v) :: rest => if k = k' then some v else lookup k rest

def place (k : κ) (v : α) : List (κ × α) → List (κ × α)
  | [] => [(k, v)]
  | (k', v') :: rest =>
    if k < k' then (k, v) :: (k', v') :: rest
    else if k = k' then (k, v) :: rest
    else (k', v') :: place k v rest

private theorem mem_place {k : κ} {v : α} {e : κ × α} (h : e ∈ place k v l) : e = (k, v) ∨ e ∈ l := by
  induction l with
  | nil => simpa [place] using h
  | cons head rest ih =>
    obtain ⟨k', v'⟩ := head
    unfold place at h
    split_ifs at h with hlt heq
    · simpa using h
    · rcases List.mem_cons.mp h with h | h
      · exact .inl h
      · exact .inr (List.mem_cons_of_mem _ h)
    · rcases List.mem_cons.mp h with h | h
      · exact .inr (h ▸ List.mem_cons_self)
      · exact (ih h).imp id (List.mem_cons_of_mem _)

private theorem place_sorted (k : κ) (v : α)
    (h : l.Pairwise (fun a b => a.1 < b.1)) : (place k v l).Pairwise (fun a b => a.1 < b.1) := by
  induction l with
  | nil => simp [place]
  | cons head rest ih =>
    obtain ⟨k', v'⟩ := head
    obtain ⟨hhead, hrest⟩ := List.pairwise_cons.mp h
    unfold place
    split_ifs with hlt heq
    · refine List.pairwise_cons.mpr ⟨?_, h⟩
      intro e he
      rcases List.mem_cons.mp he with rfl | he
      · exact hlt
      · exact lt_trans hlt (hhead e he)
    · exact List.pairwise_cons.mpr ⟨fun e he => heq ▸ hhead e he, hrest⟩
    · refine List.pairwise_cons.mpr ⟨?_, ih hrest⟩
      intro e he
      rcases mem_place he with rfl | he
      · exact lt_of_le_of_ne (not_lt.mp hlt) (Ne.symm heq)
      · exact hhead e he

def empty : OrderedMap κ α := ⟨[], List.Pairwise.nil⟩

instance : EmptyCollection (OrderedMap κ α) := ⟨empty⟩
instance : Inhabited (OrderedMap κ α) := ⟨empty⟩

def get (m : OrderedMap κ α) (k : κ) : Option α := lookup k m.entries
def insert (m : OrderedMap κ α) (k : κ) (v : α) : OrderedMap κ α :=
  ⟨place k v m.entries, place_sorted k v m.sorted⟩
def retain (m : OrderedMap κ α) (keep : κ → α → Bool) : OrderedMap κ α :=
  ⟨m.entries.filter (fun e => keep e.1 e.2), m.sorted.sublist List.filter_sublist⟩
def upTo (m : OrderedMap κ α) (bound : κ) : OrderedMap κ α := m.retain (fun k _ => k ≤ bound)
def erase (m : OrderedMap κ α) (k : κ) : OrderedMap κ α := m.retain (fun k' _ => k' ≠ k)
def mapValues (m : OrderedMap κ α) (f : α → β) : OrderedMap κ β :=
  ⟨m.entries.map (fun e => (e.1, f e.2)), by
    rw [List.pairwise_map]
    exact m.sorted⟩
def keys (m : OrderedMap κ α) : List κ := m.entries.map Prod.fst
def values (m : OrderedMap κ α) : List α := m.entries.map Prod.snd
def size (m : OrderedMap κ α) : Nat := m.entries.length
def contains (m : OrderedMap κ α) (k : κ) : Bool := (m.get k).isSome
def orInsert (m : OrderedMap κ α) (k : κ) (v : α) : OrderedMap κ α :=
  if m.contains k then m else m.insert k v

instance [DecidableEq α] : DecidableEq (OrderedMap κ α) := fun a b =>
  decidable_of_iff (a.entries = b.entries)
    ⟨fun h => by cases a; cases b; cases h; rfl, fun h => h ▸ rfl⟩

private theorem lookup_eq_some {k : κ} {v : α}
    (h : l.Pairwise (fun a b => a.1 < b.1)) : lookup k l = some v ↔ (k, v) ∈ l := by
  induction l with
  | nil => simp [lookup]
  | cons head rest ih =>
    obtain ⟨k', v'⟩ := head
    obtain ⟨hhead, hrest⟩ := List.pairwise_cons.mp h
    unfold lookup
    split_ifs with heq
    · subst heq
      constructor
      · intro hv; cases hv; exact List.mem_cons_self
      · intro hm
        rcases List.mem_cons.mp hm with hm | hm
        · cases hm; rfl
        · exact absurd (hhead _ hm) (lt_irrefl _)
    · rw [ih hrest, List.mem_cons]
      constructor
      · exact .inr
      · rintro (hm | hm)
        · cases hm; exact absurd rfl heq
        · exact hm

theorem get_eq_some (m : OrderedMap κ α) (k : κ) (v : α) :
    m.get k = some v ↔ (k, v) ∈ m.entries := lookup_eq_some m.sorted

theorem get_eq_none (m : OrderedMap κ α) (k : κ) : m.get k = none ↔ k ∉ m.keys := by
  constructor
  · intro h hk
    obtain ⟨e, he, rfl⟩ := List.mem_map.mp hk
    rw [(m.get_eq_some e.1 e.2).mpr he] at h
    cases h
  · intro h
    cases hg : m.get k with
    | none => rfl
    | some v => exact absurd (List.mem_map.mpr ⟨_, (m.get_eq_some k v).mp hg, rfl⟩) h

theorem mem_keys (m : OrderedMap κ α) (k : κ) : k ∈ m.keys ↔ ∃ v, m.get k = some v := by
  rw [← not_iff_not, ← get_eq_none]
  simp [Option.eq_none_iff_forall_not_mem]

theorem mem_values (m : OrderedMap κ α) (v : α) : v ∈ m.values ↔ ∃ k, m.get k = some v := by
  constructor
  · intro h
    obtain ⟨e, he, rfl⟩ := List.mem_map.mp h
    exact ⟨e.1, (m.get_eq_some e.1 e.2).mpr he⟩
  · rintro ⟨k, hk⟩
    exact List.mem_map.mpr ⟨_, (m.get_eq_some k v).mp hk, rfl⟩

theorem contains_iff (m : OrderedMap κ α) (k : κ) : m.contains k = true ↔ ∃ v, m.get k = some v :=
  Option.isSome_iff_exists

@[simp] theorem get_empty (k : κ) : (empty : OrderedMap κ α).get k = none := rfl
@[simp] theorem get_emptyCollection (k : κ) : (∅ : OrderedMap κ α).get k = none := rfl

private theorem lookup_place (k k' : κ) (v : α) (h : l.Pairwise (fun a b => a.1 < b.1)) :
    lookup k' (place k v l) = if k' = k then some v else lookup k' l := by
  induction l with
  | nil => rfl
  | cons head rest ih =>
    obtain ⟨c, w⟩ := head
    obtain ⟨hhead, hrest⟩ := List.pairwise_cons.mp h
    unfold place
    by_cases hk : k' = k
    · subst hk
      rw [if_pos rfl]
      split_ifs with hlt heq
      · simp [lookup]
      · simp [lookup]
      · simp [lookup, heq, ih hrest]
    · split_ifs with hlt heq
      · simp [lookup, hk]
      · subst heq; simp [lookup, hk]
      · simp [lookup, hk, ih hrest]

@[simp] theorem get_insert (m : OrderedMap κ α) (k k' : κ) (v : α) :
    (m.insert k v).get k' = if k' = k then some v else m.get k' := lookup_place k k' v m.sorted

theorem get_insert_self (m : OrderedMap κ α) (k : κ) (v : α) : (m.insert k v).get k = some v := by simp

theorem get_retain (m : OrderedMap κ α) (keep : κ → α → Bool) (k : κ) (v : α) :
    (m.retain keep).get k = some v ↔ m.get k = some v ∧ keep k v = true := by
  rw [get_eq_some, get_eq_some]
  simp [retain]

theorem get_retain_key (m : OrderedMap κ α) (keep : κ → Bool) (k : κ) :
    (m.retain (fun k' _ => keep k')).get k = if keep k then m.get k else none := by
  ext v
  rw [get_retain]
  split_ifs with h <;> simp [h]

theorem get_upTo (m : OrderedMap κ α) (bound k : κ) (v : α) :
    (m.upTo bound).get k = some v ↔ m.get k = some v ∧ k ≤ bound := by
  rw [upTo, get_retain, decide_eq_true_eq]

@[simp] theorem get_erase (m : OrderedMap κ α) (k k' : κ) :
    (m.erase k).get k' = if k' = k then none else m.get k' := by
  rw [erase, get_retain_key]
  by_cases h : k' = k <;> simp [h]

theorem get_of_get_erase {k k' : κ} {v : α} (h : (m.erase k).get k' = some v) :
    m.get k' = some v := by
  rw [get_erase] at h
  split_ifs at h
  exact h

@[simp] theorem get_mapValues (m : OrderedMap κ α) (f : α → β) (k : κ) :
    (m.mapValues f).get k = (m.get k).map f := by
  ext v
  simp only [get_eq_some, Option.map_eq_some_iff, mapValues, List.mem_map, Prod.mk.injEq, Prod.exists]
  constructor
  · rintro ⟨_, b, hm, rfl, rfl⟩
    exact ⟨b, hm, rfl⟩
  · rintro ⟨b, hm, rfl⟩
    exact ⟨k, b, hm, rfl, rfl⟩

@[simp] theorem get_orInsert (m : OrderedMap κ α) (k k' : κ) (v : α) :
    (m.orInsert k v).get k' = if k' = k then some ((m.get k).getD v) else m.get k' := by
  unfold orInsert contains
  cases hg : m.get k with
  | none => simp
  | some w =>
    by_cases hk : k' = k
    · subst hk; simp [hg]
    · simp [hk]

@[simp] theorem keys_mapValues (m : OrderedMap κ α) (f : α → β) : (m.mapValues f).keys = m.keys := by
  simp [mapValues, keys]

theorem values_mapValues (m : OrderedMap κ α) (f : α → β) : (m.mapValues f).values = m.values.map f := by
  simp [values, mapValues]

@[simp] theorem size_mapValues (m : OrderedMap κ α) (f : α → β) : (m.mapValues f).size = m.size := by
  simp [mapValues, size]

theorem mapValues_mapValues {γ : Type} (m : OrderedMap κ α) (f : α → β) (g : β → γ) :
    (m.mapValues f).mapValues g = m.mapValues (g ∘ f) := by
  simp [mapValues]

theorem mapValues_id (m : OrderedMap κ α) (f : α → α) (h : ∀ v, f v = v) : m.mapValues f = m := by
  cases m
  simp [mapValues, h]

theorem keys_nodup (m : OrderedMap κ α) : m.keys.Nodup := by
  unfold keys
  rw [List.Nodup, List.pairwise_map]
  exact m.sorted.imp (fun h => ne_of_lt h)

theorem keys_sorted (m : OrderedMap κ α) : m.keys.Pairwise (· < ·) := by
  unfold keys
  rw [List.pairwise_map]
  exact m.sorted

private theorem entries_nodup (m : OrderedMap κ α) : m.entries.Nodup :=
  m.sorted.imp (fun h he => absurd (he ▸ h) (lt_irrefl _))

/-- The values in order: those before a given one are those of the smaller keys. -/
theorem values_split {before after : List α} {v : α} (h : before ++ v :: after = m.values) :
    ∃ k, m.get k = some v ∧ ∀ k' v', m.get k' = some v' → k' < k → v' ∈ before := by
  obtain ⟨front, back, hentries, hfront, hback⟩ := List.map_eq_append_iff.mp h.symm
  obtain ⟨e, rest, rfl, hv, _⟩ := List.map_eq_cons_iff.mp hback
  have hsorted := m.sorted
  rw [hentries] at hsorted
  refine ⟨e.1, (get_eq_some ..).mpr ?_, ?_⟩
  · rw [hentries, ← hv]
    exact List.mem_append_right _ List.mem_cons_self
  · intro k' v' hget hlt
    have hmem := (get_eq_some ..).mp hget
    rw [hentries] at hmem
    rcases List.mem_append.mp hmem with hin | hin
    · rw [← hfront]
      exact List.mem_map.mpr ⟨(k', v'), hin, rfl⟩
    · have hle : e.1 ≤ k' := by
        rcases List.mem_cons.mp hin with heq | hin
        · rw [← heq]
        · exact ((List.pairwise_cons.mp (List.pairwise_append.mp hsorted).2.1).1 _ hin).le
      exact absurd hlt (not_lt.mpr hle)

/-- Lookups determine the whole map, entry order included. -/
theorem ext_get {a b : OrderedMap κ α} (h : ∀ k, a.get k = b.get k) : a = b := by
  have hp : a.entries.Perm b.entries := by
    rw [List.perm_ext_iff_of_nodup a.entries_nodup b.entries_nodup]
    rintro ⟨k, v⟩
    rw [← get_eq_some, ← get_eq_some, h]
  have he : a.entries = b.entries := by
    refine hp.eq_of_pairwise (fun x y _ _ hxy hyx => ?_) a.sorted b.sorted
    exact absurd (lt_trans hxy hyx) (lt_irrefl _)
  cases a
  cases b
  cases he
  rfl

theorem keys_eq_of_get {a : OrderedMap κ α} {b : OrderedMap κ β}
    (h : ∀ k, (a.get k).isSome = (b.get k).isSome) : a.keys = b.keys := by
  have hp : a.keys.Perm b.keys := by
    rw [List.perm_ext_iff_of_nodup a.keys_nodup b.keys_nodup]
    intro k
    rw [mem_keys, mem_keys, ← Option.isSome_iff_exists, ← Option.isSome_iff_exists, h]
  refine hp.eq_of_pairwise (fun x y _ _ hxy hyx => ?_) a.keys_sorted b.keys_sorted
  exact absurd (lt_trans hxy hyx) (lt_irrefl _)

private theorem length_place (k : κ) (v : α) (l : List (κ × α)) :
    (place k v l).length ≤ l.length + 1 := by
  induction l with
  | nil => simp [place]
  | cons head rest ih =>
    unfold place
    split_ifs
    · simp
    · simp
    · simpa using ih

theorem size_insert_le (m : OrderedMap κ α) (k : κ) (v : α) : (m.insert k v).size ≤ m.size + 1 :=
  length_place k v m.entries

theorem size_retain_le (m : OrderedMap κ α) (keep : κ → α → Bool) : (m.retain keep).size ≤ m.size :=
  List.length_filter_le _ _

theorem retain_eq_self {keep : κ → α → Bool} (h : m.size ≤ (m.retain keep).size) :
    m.retain keep = m := by
  have hall : m.entries.filter (fun e => keep e.1 e.2) = m.entries := List.filter_sublist.eq_of_length_le h
  obtain ⟨entries, sorted⟩ := m
  simp only [retain, mk.injEq]
  exact hall

theorem size_eq_card (m : OrderedMap κ α) : m.size = m.keys.toFinset.card := by
  rw [List.toFinset_card_of_nodup m.keys_nodup]
  simp [keys, size]

theorem mem_keys_of_get {k : κ} {v : α} (h : m.get k = some v) : k ∈ m.keys :=
  (m.mem_keys k).mpr ⟨v, h⟩

theorem toFinset_keys_insert (m : OrderedMap κ α) (k : κ) (v : α) :
    (m.insert k v).keys.toFinset = Insert.insert k m.keys.toFinset := by
  ext k'
  simp only [List.mem_toFinset, mem_keys, get_insert, Finset.mem_insert]
  by_cases hk : k' = k <;> simp [hk]

theorem size_le_insert (m : OrderedMap κ α) (k : κ) (v : α) : m.size ≤ (m.insert k v).size := by
  rw [size_eq_card, size_eq_card, toFinset_keys_insert]
  exact Finset.card_le_card (Finset.subset_insert ..)

def keysFrom (m : OrderedMap κ α) (k : κ) : Nat := (m.keys.toFinset.filter (k ≤ ·)).card

theorem keysFrom_lt_size (m : OrderedMap κ α) (k : κ) : m.keysFrom k < m.size + 1 := by
  rw [size_eq_card]
  exact Nat.lt_succ_of_le (Finset.card_filter_le _ _)

theorem keysFrom_lt {k k' : κ} {v : α} (hget : m.get k = some v) (hlt : k < k') :
    m.keysFrom k' < m.keysFrom k := by
  apply Finset.card_lt_card
  rw [Finset.ssubset_iff_of_subset]
  · refine ⟨k, Finset.mem_filter.mpr ⟨List.mem_toFinset.mpr (mem_keys_of_get hget), le_refl k⟩, ?_⟩
    rw [Finset.mem_filter]
    exact fun h => absurd hlt (not_lt.mpr h.2)
  · intro x hx
    rw [Finset.mem_filter] at hx ⊢
    exact ⟨hx.1, hlt.le.trans hx.2⟩

theorem size_insert_of_contains (m : OrderedMap κ α) (k : κ) (v : α) (h : m.contains k = true) :
    (m.insert k v).size = m.size := by
  rw [size_eq_card, size_eq_card]
  congr 1
  ext k'
  simp only [List.mem_toFinset, mem_keys, get_insert]
  split_ifs with hk
  · subst hk
    exact ⟨fun _ => (m.contains_iff k').mp h, fun _ => ⟨v, rfl⟩⟩
  · rfl

end OrderedMap
end Library
