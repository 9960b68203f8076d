import QuePaxa.Core.ReplicaSpec
import QuePaxa.Runtime.Runtime

/-! Writing proposals ahead: what a snapshot has to say about the proposals handed out so
far, for any journal in which saves and proposals can be told. -/
namespace QuePaxa
open Library
variable {V E : Type}
variable {replica : ReplicaSnapshot V}

abbrev Offer (V : Type) := SlotIndex × List V

def RuntimeSnapshot.armed (s : RuntimeSnapshot V) : OrderedMap SlotIndex (List V) := s.pending.mapValues (·.valueIds)

private theorem RuntimeSnapshot.get_armed {s : RuntimeSnapshot V} {slot : SlotIndex} {values : List V} :
    s.armed.get slot = some values ↔ s.pending.get slot = some ⟨values⟩ := by
  simp only [RuntimeSnapshot.armed, OrderedMap.get_mapValues]
  cases s.pending.get slot with
  | none => simp
  | some p =>
    obtain ⟨ids⟩ := p
    simp

/-- A pipeline that can go on without contradicting any of the offers: their slots are
closed for new claims, and an armed proposal repeats what was offered for its slot. -/
structure Covers (replica : ReplicaSnapshot V) (armed : OrderedMap SlotIndex (List V)) (offers : List (Offer V)) :
    Prop where
  frontier : replica.checkpointedThrough < replica.nextCommit
  claimed : ∀ slot values, armed.get slot = some values → replica.Claimed slot
  offered : ∀ o ∈ offers, replica.Claimed o.1
  same : ∀ o ∈ offers, ∀ values, armed.get o.1 = some values → values = o.2

namespace Covers
variable {r r' : ReplicaCore V} {armed : OrderedMap SlotIndex (List V)} {offers : List (Offer V)}
  {slot : SlotIndex} {values : List V}

theorem new (config : ReplicaConfig) : Covers (ReplicaCore.new config : ReplicaCore V).snapshot ∅ [] where
  frontier := Nat.one_pos
  claimed := by simp
  offered := by simp
  same := by simp

theorem sub {armed' : OrderedMap SlotIndex (List V)} (h : Covers replica armed offers)
    (hsub : ∀ slot values, armed'.get slot = some values → armed.get slot = some values) :
    Covers replica armed' offers :=
  ⟨h.frontier, fun slot values hget => h.claimed slot values (hsub slot values hget), h.offered,
    fun o ho values hget => h.same o ho values (hsub _ _ hget)⟩

/-- Offers that repeat an armed proposal or an earlier offer. -/
theorem repeated {new : List (Offer V)} (h : Covers replica armed offers)
    (hnew : ∀ o ∈ new, armed.get o.1 = some o.2 ∨ o ∈ offers) : Covers replica armed (offers ++ new) := by
  refine ⟨h.frontier, h.claimed, ?_, ?_⟩
  · intro o ho
    rcases List.mem_append.mp ho with ho | ho
    · exact h.offered o ho
    · rcases hnew o ho with harmed | ho
      · exact h.claimed o.1 o.2 harmed
      · exact h.offered o ho
  · intro o ho values hget
    rcases List.mem_append.mp ho with ho | ho
    · exact h.same o ho values hget
    · rcases hnew o ho with harmed | ho
      · exact Option.some.inj (hget.symm.trans harmed)
      · exact h.same o ho values hget

theorem offer (h : Covers replica armed offers) (harmed : armed.get slot = some values) :
    Covers replica armed (offers ++ [(slot, values)]) := by
  apply h.repeated
  intro o ho
  cases List.mem_singleton.mp ho
  exact .inl harmed

theorem fewer {offers' : List (Offer V)} (h : Covers replica armed offers)
    (hsub : ∀ o ∈ offers', o ∈ offers) : Covers replica armed offers' :=
  ⟨h.frontier, h.claimed, fun o ho => h.offered o (hsub o ho), fun o ho => h.same o (hsub o ho)⟩

variable [DecidableEq V]

theorem change (h : Covers r.snapshot armed offers) (hc : ReplicaCore.Change r r') : Covers r'.snapshot armed offers :=
  ⟨ReplicaCore.checkpoint_lt_change h.frontier hc, fun k values hget => (h.claimed k values hget).change h.frontier hc,
    fun o ho => (h.offered o ho).change h.frontier hc, h.same⟩

theorem arm (h : Covers r.snapshot armed offers) (hc : ReplicaCore.Change r r') (hopen : ¬r.Claimed slot)
    (hclaimed : r'.Claimed slot) : Covers r'.snapshot (armed.insert slot values) offers := by
  have hc' := h.change hc
  refine ⟨hc'.frontier, ?_, hc'.offered, ?_⟩
  · intro k values' hget
    rw [OrderedMap.get_insert] at hget
    split_ifs at hget with hk
    · rw [hk]
      exact hclaimed
    · exact hc'.claimed k values' hget
  · intro o ho values' hget
    have hne : o.1 ≠ slot := fun heq => hopen (heq ▸ h.offered o ho)
    rw [OrderedMap.get_insert, if_neg hne] at hget
    exact h.same o ho values' hget

end Covers

structure Reading (E V : Type) where
  stored : E → Option (RuntimeSnapshot V)
  offered : E → Option (Offer V)

namespace Reading
variable (R : Reading E V)

def lastSaved (t : List E) : Option (RuntimeSnapshot V) := latest R.stored t
def offers (t : List E) : List (Offer V) := t.filterMap R.offered

def Resumable (t : List E) : Prop :=
  match R.lastSaved t with
  | none => R.offers t = []
  | some s => Covers s.replica s.armed (R.offers t)

def Written (armed : OrderedMap SlotIndex (List V)) (t : List E) : Prop :=
  ∀ slot values, armed.get slot = some values → ∃ s, R.lastSaved t = some s ∧ s.armed.get slot = some values

/-- Each offer is the pending entry of its slot in the snapshot saved last before it. -/
def WrittenAhead (t : List E) : Prop :=
  ∀ before e, before ++ [e] <+: t → ∀ o, R.offered e = some o →
    ∃ s, R.lastSaved before = some s ∧ s.pending.get o.1 = some ⟨o.2⟩

def OneOfferPerSlot (t : List E) : Prop := ∀ o ∈ R.offers t, ∀ o' ∈ R.offers t, o.1 = o'.1 → o.2 = o'.2

structure Orderly (t : List E) : Prop where
  resumable : Throughout R.Resumable t
  writtenAhead : R.WrittenAhead t
  oneOfferPerSlot : R.OneOfferPerSlot t

variable {R} {t p : List E} {e : E} {s : RuntimeSnapshot V} {slot : SlotIndex} {values : List V}
  {armed : OrderedMap SlotIndex (List V)} {replica : ReplicaSnapshot V}

theorem orderly_nil : R.Orderly [] := by
  refine ⟨throughout_nil.mpr rfl, ?_, ?_⟩
  · intro before e h
    cases List.append_ne_nil_of_right_ne_nil before (List.cons_ne_nil e []) (List.prefix_nil.mp h)
  · intro o ho
    cases ho

/-- An orderly past stays orderly when the journal is cut short. -/
theorem Orderly.earlier (h : R.Orderly t) (hp : p <+: t) : R.Orderly p := by
  have hsub : ∀ o ∈ R.offers p, o ∈ R.offers t := fun o ho => (hp.filterMap R.offered).subset ho
  exact ⟨h.resumable.earlier hp, fun before e hb => h.writtenAhead before e (hb.trans hp),
    fun o ho o' ho' => h.oneOfferPerSlot o (hsub o ho) o' (hsub o' ho')⟩

theorem offers_concat : R.offers (t ++ [e]) = R.offers t ++ (R.offered e).toList := by
  simp only [offers, List.filterMap_append]
  cases h : R.offered e <;> simp [h]

theorem lastSaved_concat : R.lastSaved (t ++ [e]) = (R.stored e).or (R.lastSaved t) := latest_concat

theorem offers_of_none (hoffered : R.offered e = none) : R.offers (t ++ [e]) = R.offers t := by
  rw [offers_concat, hoffered]
  exact List.append_nil _

theorem lastSaved_of_none (hstored : R.stored e = none) : R.lastSaved (t ++ [e]) = R.lastSaved t := by
  rw [lastSaved_concat, hstored]
  rfl

/-- An entry that offers nothing adds nothing to account for. -/
private theorem Orderly.concat (h : R.Orderly t) (hoffered : R.offered e = none) (hres : R.Resumable (t ++ [e])) :
    R.Orderly (t ++ [e]) := by
  refine ⟨throughout_concat.mpr ⟨h.resumable, hres⟩, ?_, ?_⟩
  · intro before d hb o ho
    rcases concat_prefix_concat.mp hb with ⟨rfl, rfl⟩ | hb
    · rw [hoffered] at ho
      cases ho
    · exact h.writtenAhead before d hb o ho
  · intro o ho o' ho'
    rw [offers_of_none hoffered] at ho ho'
    exact h.oneOfferPerSlot o ho o' ho'

theorem Orderly.neutral (h : R.Orderly t) (hoffered : R.offered e = none) (hstored : R.stored e = none) :
    R.Orderly (t ++ [e]) := by
  apply h.concat hoffered
  simp only [Resumable, offers_of_none hoffered, lastSaved_of_none hstored]
  exact h.resumable.now

theorem Written.concat (h : R.Written armed t) (hstored : R.stored e = none) : R.Written armed (t ++ [e]) := by
  simp only [Written, lastSaved_of_none hstored]
  exact h

theorem Orderly.saved (h : R.Orderly t) (hoffered : R.offered e = none) (hstored : R.stored e = some s)
    (hcovers : Covers s.replica s.armed (R.offers t)) : R.Orderly (t ++ [e]) := by
  apply h.concat hoffered
  simp only [Resumable, lastSaved_concat, hstored, Option.some_or, offers_of_none hoffered]
  exact hcovers

theorem written_saved (hstored : R.stored e = some s) : R.Written s.armed (t ++ [e]) := by
  intro slot values hget
  exact ⟨s, by rw [lastSaved_concat, hstored]; rfl, hget⟩

theorem Orderly.offer (h : R.Orderly t) (hcovers : Covers replica armed (R.offers t))
    (hwritten : R.Written armed t) (harmed : armed.get slot = some values)
    (hoffered : R.offered e = some (slot, values)) (hstored : R.stored e = none) : R.Orderly (t ++ [e]) := by
  obtain ⟨s, hs, hget⟩ := hwritten slot values harmed
  have hoffers : R.offers (t ++ [e]) = R.offers t ++ [(slot, values)] := by
    rw [offers_concat, hoffered]
    rfl
  have hres := h.resumable.now
  refine ⟨throughout_concat.mpr ⟨h.resumable, ?_⟩, ?_, ?_⟩
  · simp only [Resumable, hs] at hres
    simp only [Resumable, hoffers, lastSaved_of_none hstored, hs]
    exact hres.offer hget
  · intro before d hb o ho
    rcases concat_prefix_concat.mp hb with ⟨rfl, rfl⟩ | hb
    · rw [hoffered] at ho
      cases ho
      exact ⟨s, hs, RuntimeSnapshot.get_armed.mp hget⟩
    · exact h.writtenAhead before d hb o ho
  · -- an earlier offer for the slot has the armed values
    have hold : ∀ o ∈ R.offers t, o.1 = slot → values = o.2 := fun o ho heq =>
      hcovers.same o ho values (heq ▸ harmed)
    intro o ho o' ho' heq
    rw [hoffers, List.mem_append, List.mem_singleton] at ho ho'
    rcases ho with ho | rfl <;> rcases ho' with ho' | rfl
    · exact h.oneOfferPerSlot o ho o' ho' heq
    · exact (hold o ho heq).symm
    · exact hold o' ho' heq.symm
    · rfl

theorem Written.sub {armed' : OrderedMap SlotIndex (List V)} (h : R.Written armed t)
    (hsub : ∀ slot values, armed'.get slot = some values → armed.get slot = some values) : R.Written armed' t :=
  fun slot values hget => h slot values (hsub slot values hget)

/-- What a restart finds: the stored pipeline covers the offers and is written. -/
theorem Orderly.resume (h : R.Orderly t) (hs : R.lastSaved t = some s) :
    Covers s.replica s.armed (R.offers t) ∧ R.Written s.armed t := by
  refine ⟨?_, fun slot values hget => ⟨s, hs, hget⟩⟩
  have hres := h.resumable.now
  simp only [Resumable, hs] at hres
  exact hres

end Reading
end QuePaxa
