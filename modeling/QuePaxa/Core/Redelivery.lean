import QuePaxa.Core.RecorderMonotone

/-! A request that a recorder has accepted may reach it again at any later time. By then its
known decisions are retained or pruned, its leader is bound, and its proposal is part of what
the register has summarised, so the second delivery finds nothing to change. -/
namespace QuePaxa
open Library
variable {V : Type}

namespace IntervalSummaryRegister

def Absorbed (g : IntervalSummaryRegister V) (step : Step) (p : Proposal V) : Prop :=
  step < g.step ∨ step = g.step ∧ (∃ first, g.first = some first) ∧
    ∃ best, g.currentAggregate = some best ∧ p.key ≤ best.key

variable {g g' : IntervalSummaryRegister V} {step : Step} {p : Proposal V}

private theorem Absorbed.advance_eq (h : g.Absorbed step p) : g.advance step p = g := by
  rcases h with hlt | ⟨rfl, ⟨first, hfirst⟩, best, hbest, hle⟩
  · rw [advance, if_neg (ne_of_lt hlt), if_neg (not_lt_of_gt hlt)]
  · have hkeep : bestProposal (some best) p = best := if_pos hle
    rw [advance, if_pos rfl, hfirst, hbest, hkeep, Option.getD_some, ← hfirst, ← hbest]

private theorem le_bestProposal (held : Option (Proposal V)) (p : Proposal V) : p.key ≤ (bestProposal held p).key := by
  cases held with
  | none => exact le_refl _
  | some q =>
    by_cases hle : p.key ≤ q.key
    · rwa [bestProposal, if_pos hle]
    · rw [bestProposal, if_neg hle]

private theorem held_le_bestProposal (held p : Proposal V) : held.key ≤ (bestProposal (some held) p).key := by
  by_cases hle : p.key ≤ held.key
  · rw [bestProposal, if_pos hle]
  · rw [bestProposal, if_neg hle]
    exact le_of_lt (not_le.mp hle)

private theorem absorbed_advance (g : IntervalSummaryRegister V) (step : Step) (p : Proposal V) :
    (g.advance step p).Absorbed step p := by
  rcases lt_trichotomy step g.step with hlt | rfl | hlt
  · rw [advance, if_neg (ne_of_lt hlt), if_neg (not_lt_of_gt hlt)]
    exact .inl hlt
  · rw [advance, if_pos rfl]
    exact .inr ⟨rfl, ⟨_, rfl⟩, _, rfl, le_bestProposal _ _⟩
  · rw [advance, if_neg (ne_of_gt hlt), if_pos hlt]
    exact .inr ⟨rfl, ⟨_, rfl⟩, _, rfl, le_refl _⟩

/-- What is taken in stays taken in when others record. -/
theorem Absorbed.advance (h : g.Absorbed step p) (step' : Step) (q : Proposal V) :
    (g.advance step' q).Absorbed step p := by
  rcases h with hlt | ⟨rfl, ⟨first, hfirst⟩, best, hbest, hle⟩
  · left
    rw [advance_step]
    exact lt_max_of_lt_left hlt
  · rcases lt_trichotomy step' g.step with hlt | rfl | hlt
    · rw [IntervalSummaryRegister.advance, if_neg (ne_of_lt hlt), if_neg (not_lt_of_gt hlt)]
      exact .inr ⟨rfl, ⟨first, hfirst⟩, best, hbest, hle⟩
    · rw [IntervalSummaryRegister.advance, if_pos rfl, hbest]
      exact .inr ⟨rfl, ⟨_, rfl⟩, _, rfl, hle.trans (held_le_bestProposal best q)⟩
    · left
      rw [advance_step]
      exact lt_max_of_lt_right hlt

private theorem Absorbed.continued (h : g.Absorbed step p) (hcont : g.ContinuedBy g') : g'.Absorbed step p := by
  obtain ⟨records, rfl⟩ := hcont
  exact run_invariant_all (I := fun g : IntervalSummaryRegister V => g.Absorbed step p)
    (fun _ x hg => Absorbed.advance hg x.1 x.2) h records

end IntervalSummaryRegister

namespace RecorderCore
variable {r r' : RecorderCore V} {q : RecordRequest V} {d : Decision V}

def Knows (r : RecorderCore V) (d : Decision V) : Prop :=
  d.slot ≤ r.prunedThrough ∨ ∃ e, r.decisions.get d.slot = some e ∧ e.valueIds = d.valueIds

theorem Knows.later (h : r.Knows d) (hr : r.ReflectedIn r') : r'.Knows d := by
  by_cases hlive : r'.prunedThrough < d.slot
  · rcases h with hfloor | ⟨e, he, hvalues⟩
    · exact absurd (hfloor.trans hr.floor) (not_le.mpr hlive)
    · exact .inr ⟨e, hr.decision d.slot e he hlive, hvalues⟩
  · exact .inl (not_lt.mp hlive)

private theorem Knows.not_learns (h : r.Knows d) : ¬r.Learns d := by
  intro hl
  rcases h with hfloor | ⟨e, he, _⟩
  · exact absurd hfloor (not_le.mpr hl.live)
  · rw [hl.fresh] at he
    cases he

structure Absorbed (r : RecorderCore V) (q : RecordRequest V) : Prop where
  known : ∀ d ∈ q.knownDecisions, r.Knows d
  leader : r.prunedThrough < q.slot → ∃ l, r.roundOneLeaders.get q.slot = some l
  register : r.prunedThrough < q.slot → ∃ g, r.slots.get q.slot = some g ∧ g.Absorbed q.step q.proposal

private theorem Absorbed.later (h : r.Absorbed q) (hr : r.ReflectedIn r') : r'.Absorbed q where
  known d hd := (h.known d hd).later hr
  leader hlive := by
    obtain ⟨l, hl⟩ := h.leader (lt_of_le_of_lt hr.floor hlive)
    exact ⟨l, hr.leader q.slot l hl hlive⟩
  register hlive := by
    obtain ⟨g, hg, habsorbed⟩ := h.register (lt_of_le_of_lt hr.floor hlive)
    obtain ⟨g', hg', hcont⟩ := hr.summary q.slot g hg hlive
    exact ⟨g', hg', habsorbed.continued hcont⟩

/-- Storing an absorbed request writes back what is there. -/
theorem Absorbed.recorded_eq (h : r.Absorbed q) (hlive : r.prunedThrough < q.slot) : r.recorded q = r := by
  obtain ⟨l, hl⟩ := h.leader hlive
  obtain ⟨g, hg, habsorbed⟩ := h.register hlive
  have hregister : r.register q.slot = g := by rw [RecorderCore.register, hg, Option.getD_some]
  have hleaders : r.roundOneLeaders.orInsert q.slot q.roundOneLeader = r.roundOneLeaders := by
    apply OrderedMap.ext_get
    intro k
    rw [OrderedMap.get_orInsert]
    split_ifs with hk
    · rw [hk, hl, Option.getD_some]
    · rfl
  have hslots : r.slots.insert q.slot g = r.slots := by
    apply OrderedMap.ext_get
    intro k
    rw [OrderedMap.get_insert]
    split_ifs with hk
    · rw [hk, hg]
    · rfl
  rw [recorded, hregister, habsorbed.advance_eq, hleaders, hslots]

section
variable [DecidableEq V]

private theorem informDecision_knows {m : RecorderCore V} (h : informDecision d r = .ok () m) : m.Knows d := by
  unfold informDecision at h
  cases hv : r.validateDecision d with
  | error e =>
    rw [hv] at h
    cases h
  | ok u =>
    by_cases hfloor : d.slot ≤ r.prunedThrough
    · simp only [hv, hfloor, if_true] at h
      cases h
      exact .inl hfloor
    simp only [hv, hfloor, if_false] at h
    cases hget : r.decisions.get d.slot with
    | some existing =>
      simp only [hget] at h
      split_ifs at h with hvalues
      cases h
      exact .inr ⟨existing, hget, not_not.mp hvalues⟩
    | none =>
      simp only [hget] at h
      split_ifs at h
      cases h
      exact .inr ⟨d, OrderedMap.get_insert_self .., rfl⟩

private theorem informDecisions_knows {ds : List (Decision V)} {m : RecorderCore V}
    (h : informDecisions ds r = .ok () m) :
    ∀ d ∈ ds, m.Knows d := by
  induction ds generalizing r with
  | nil => exact fun d hd => (nomatch hd)
  | cons d ds ih =>
    obtain ⟨_, s, hd, hrest⟩ := bind_eq_ok.mp h
    have hinformed : informDecisions ds s = .ok () m := hrest
    have hlater : s.ReflectedIn m := by
      have hrun := reflectedIn_apply s (.informDecisions ds)
      rwa [RecorderOp.apply, RecorderOp.exec, after_bind_pure, after_ok hinformed] at hrun
    intro e he
    rcases List.mem_cons.mp he with rfl | he
    · exact (informDecision_knows hd).later hlater
    · exact ih hrest e he

private theorem record_absorbed {available : Availability V} {reply : RecordReply V}
    (h : record available q r = .ok reply r') : r'.Absorbed q := by
  obtain ⟨_, m, hinform, _, _, _, rfl⟩ := record_ok h
  have hstored : m.ReflectedIn (m.recorded q) := (ReflectedIn.refl m).store
  constructor
  · exact fun d hd => (informDecisions_knows hinform d hd).later hstored
  · intro _
    exact ⟨_, (OrderedMap.get_orInsert ..).trans (if_pos rfl)⟩
  · intro _
    exact ⟨_, OrderedMap.get_insert_self .., IntervalSummaryRegister.absorbed_advance _ _ _⟩

/-- Known decisions change nothing, even where informing fails at one of them. -/
theorem keeps_informDecisions_known {ds : List (Decision V)} (h : ∀ d ∈ ds, r.Knows d) :
    Keeps (· = r) (informDecisions ds) := by
  refine keeps_informDecisions fun d hd s hs hl => ?_
  subst hs
  exact absurd hl (h d hd).not_learns

private theorem Absorbed.after_record (h : r.Absorbed q) (available : Availability V) :
    after (record available q) r = r := by
  have hinform := keeps_informDecisions_known h.known
  cases hx : record available q r with
  | ok reply r' =>
    obtain ⟨hadmitted, m, hm, _, _, _, rfl⟩ := record_ok hx
    obtain rfl : m = r := hinform.ok rfl hm
    rw [after_ok hx, h.recorded_eq hadmitted.live]
  | error e r' =>
    rw [after_error hx]
    rcases record_error hx with rfl | rfl
    · rfl
    · exact hinform.after rfl

/-- A request that was once accepted leaves the recorder as it is whenever it comes again,
whether the second call replies or fails. -/
theorem redelivery_is_harmless (r : RecorderCore V) (q : RecordRequest V) (available available' : Availability V)
    (reply : RecordReply V) (r' : RecorderCore V) (haccepted : record available q r = .ok reply r')
    (later : List (RecorderOp V)) :
    (after (record available' q) (run RecorderOp.apply r' later)).snapshot =
      (run RecorderOp.apply r' later).snapshot := by
  have habsorbed := (record_absorbed haccepted).later (reflectedIn_run r' later)
  rw [habsorbed.after_record available']

/-- Accepted at its step, then outrun by another proposer, then pruned away. -/
theorem redelivery_is_harmless_behind :
    let config : RecorderConfig := ⟨1, ⟨[1, 2, 3], 1, 0, none⟩, .default⟩
    let q : RecordRequest Nat := ⟨2, 3, some 2, 4, ⟨⟨7, 2, 0⟩, [5]⟩, [⟨1, [4], 3, 4⟩]⟩
    let other : RecordRequest Nat := ⟨3, 3, some 2, 5, ⟨⟨8, 3, 0⟩, [6]⟩, []⟩
    let available : Availability Nat := fun _ => .ok ()
    let accepted := after (record available q) (new config)
    let outrun := run RecorderOp.apply accepted [.record available other]
    let pruned := run RecorderOp.apply accepted [.record available other, .pruneThrough 3]
    (after (record available q) outrun).snapshot = outrun.snapshot ∧
    (after (record available q) pruned).snapshot = pruned.snapshot ∧
    outrun.status 3 = some 5 ∧ result (record available q) pruned = .error (.slotPruned 3) := by
  intro config q other available accepted outrun pruned
  have haccepted : record available q (new config) =
      .ok ⟨1, config.cluster, ⟨4, some q.proposal, none⟩, none⟩ accepted := rfl
  refine ⟨?_, ?_, by decide +kernel, by decide +kernel⟩
  · exact redelivery_is_harmless _ q available available _ accepted haccepted _
  · exact redelivery_is_harmless _ q available available _ accepted haccepted _

end
end RecorderCore
end QuePaxa
