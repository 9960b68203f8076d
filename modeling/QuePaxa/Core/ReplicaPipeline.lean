import QuePaxa.Core.ReplicaCommit

/-! The way of a value through the pipeline of one replica. An accepted value waits in the
queue, is offered in an open slot or is decided, and it goes back to the queue when its slot
is lost. One limit stands in the way: a full log drops what the queue has given up. -/
namespace QuePaxa
open Library
variable {V : Type}
variable {d : Decision V} {values : List V} {r : ReplicaCore V}

inductive ReplicaOp (V : Type) where
  | enqueue (valueIds : List V)
  | nextProposal
  | applyDecision (decision : Decision V)
  | pruneThrough (slot : SlotIndex)

namespace ReplicaSnapshot

def Offers (s : ReplicaSnapshot V) (slot : SlotIndex) (v : V) : Prop :=
  ∃ e, s.log.get slot = some e ∧ e.decision = none ∧ v ∈ e.proposed

/-- Each waiting value has one place, and only slots with a decision are committed. -/
structure Placed (s : ReplicaSnapshot V) : Prop where
  queue : s.pending.Nodup
  batch : ∀ slot e, s.log.get slot = some e → e.proposed.Nodup
  apart : ∀ slot v, s.Offers slot v → v ∉ s.pending
  once : ∀ slot slot' v, s.Offers slot v → s.Offers slot' v → slot = slot'
  backed : ∀ slot e, s.log.get slot = some e → e.committed = true → slot ≠ SlotIndex.genesis → e.decision.isSome = true

theorem offers_insert {s : ReplicaSnapshot V} {k slot : SlotIndex} {entry : LogSlot V} {v : V} :
    Offers { s with log := s.log.insert k entry } slot v ↔
      if slot = k then entry.decision = none ∧ v ∈ entry.proposed else s.Offers slot v := by
  simp only [Offers, OrderedMap.get_insert]
  split_ifs
  · constructor
    · rintro ⟨e, he, hd, hv⟩
      cases he
      exact ⟨hd, hv⟩
    · exact fun h => ⟨entry, rfl, h⟩
  · rfl

end ReplicaSnapshot

namespace ReplicaCore
open ReplicaSnapshot
variable {r r' : ReplicaCore V} {slot : SlotIndex} {v : V}

theorem offers_entry : r.Offers slot v ↔ (r.entry slot).decision = none ∧ v ∈ (r.entry slot).proposed := by
  rw [Offers, entry]
  cases r.log.get slot with
  | none => simp [LogSlot.default]
  | some e => simp

private theorem not_offers_of_open (hopen : (r.log.get slot).any (·.taken) = false) (v : V) : ¬r.Offers slot v := by
  rintro ⟨e, he, _, hv⟩
  rw [he] at hopen
  simp only [Option.any_some, LogSlot.taken, Bool.or_eq_false_iff, Bool.not_eq_false', List.isEmpty_iff] at hopen
  rw [hopen.2] at hv
  cases hv

theorem placed_new (config : ReplicaConfig) : (new config : ReplicaCore V).Placed := by
  have hget : ∀ slot e, (new config : ReplicaCore V).log.get slot = some e →
      slot = SlotIndex.genesis ∧ e = ⟨[], none, true⟩ := by
    intro slot e h
    simp only [new, OrderedMap.get_insert, OrderedMap.get_emptyCollection] at h
    split_ifs at h with hslot
    cases h
    exact ⟨hslot, rfl⟩
  have hnone : ∀ slot v, ¬(new config : ReplicaCore V).Offers slot v := by
    rintro slot v ⟨e, he, _, hv⟩
    rw [(hget slot e he).2] at hv
    cases hv
  refine ⟨List.nodup_nil, fun slot e he => ?_, fun slot v h => absurd h (hnone slot v),
    fun slot _ v h => absurd h (hnone slot v), fun slot e he _ hne => absurd (hget slot e he).1 hne⟩
  rw [(hget slot e he).2]
  exact List.nodup_nil

theorem offers_marked {e : LogSlot V} (here : r.log.get r.nextCommit = some e)
    (decision : e.decision = some d) :
    (r.marked e).Offers = r.Offers := by
  funext slot v
  apply propext
  refine offers_insert.trans ?_
  split_ifs with hslot
  · subst hslot
    simp [Offers, here, decision]
  · rfl

private theorem placed_marked {e : LogSlot V} (h : r.Placed) (here : r.log.get r.nextCommit = some e)
    (decision : e.decision = some d) : (r.marked e).Placed := by
  have hoffers := offers_marked here decision
  refine ⟨h.queue, fun slot e' he => ?_, hoffers ▸ h.apart, hoffers ▸ h.once, fun slot e' he => ?_⟩
  · simp only [marked, OrderedMap.get_insert] at he
    split_ifs at he with hslot
    · cases he
      exact List.nodup_nil
    · exact h.batch slot e' he
  · simp only [marked, OrderedMap.get_insert] at he
    split_ifs at he with hslot
    · cases he
      exact fun _ _ => by simp [decision]
    · exact h.backed slot e' he

theorem offers_prune (h : r.Placed) (through : SlotIndex) : (r.pruneThrough through).Offers = r.Offers := by
  funext slot v
  apply propext
  constructor
  · rintro ⟨e, he, hopen⟩
    exact ⟨e, ((OrderedMap.get_retain ..).mp he).1, hopen⟩
  · rintro ⟨e, he, hd, hv⟩
    refine ⟨e, (OrderedMap.get_retain ..).mpr ⟨he, ?_⟩, hd, hv⟩
    -- a slot is dropped only when it is committed, and then it is decided
    by_cases hgenesis : slot = SlotIndex.genesis
    · simp [hgenesis]
    cases hcommitted : e.committed with
    | false => simp
    | true =>
      have hsome := h.backed slot e he hcommitted hgenesis
      rw [hd] at hsome
      cases hsome

theorem placed_prune (h : r.Placed) (through : SlotIndex) : (r.pruneThrough through).Placed := by
  have hoffers := offers_prune h through
  exact ⟨h.queue, fun slot e he => h.batch slot e ((OrderedMap.get_retain ..).mp he).1, hoffers ▸ h.apart,
    hoffers ▸ h.once,
    fun slot e he => h.backed slot e ((OrderedMap.get_retain ..).mp he).1⟩

theorem placed_drain (h : r.Placed) (n : Nat) : ReplicaSnapshot.Placed
    { r.toReplicaSnapshot with pending := r.pending.drop n } :=
  ⟨h.queue.sublist (List.drop_sublist ..), h.batch, fun slot v hv hmem => h.apart slot v hv (List.mem_of_mem_drop hmem),
    h.once, h.backed⟩

structure SameWaiting (r s : ReplicaCore V) : Prop where
  placed : s.Placed
  pending : s.pending = r.pending
  seen : s.seenValueIds = r.seenValueIds
  offers : s.Offers = r.Offers

theorem keeps_sameWaiting (r : ReplicaCore V) : Keeps (SameWaiting r) (commitReady (V := V)) := by
  apply keeps_commitReady
  · intro s ds s' hs hc
    cases hc with
    | commit here _ decision _ =>
      have hmarked := placed_marked hs.placed here decision
      exact ⟨⟨hmarked.queue, hmarked.batch, hmarked.apart, hmarked.once, hmarked.backed⟩, hs.pending, hs.seen,
        (offers_marked here decision).trans hs.offers⟩
    | advance =>
      exact ⟨⟨hs.placed.queue, hs.placed.batch, hs.placed.apart, hs.placed.once, hs.placed.backed⟩, hs.pending, hs.seen,
        hs.offers⟩
  · intro s s' hs hj
    cases hj with
    | first here _ decision _ =>
      exact ⟨placed_marked hs.placed here decision, hs.pending, hs.seen, (offers_marked here decision).trans hs.offers⟩
    | again => exact hs

def roomForNext (r : ReplicaCore V) : Bool :=
  match r.nextOpenSlot with
  | .ok slot => (r.ensureLogCapacity slot).isOk
  | .error _ => true

section
variable [DecidableEq V]

def perform (r : ReplicaCore V) : ReplicaOp V → ReplicaCore V
  | .enqueue valueIds => after (enqueue valueIds) r
  | .nextProposal => after nextProposal r
  | .applyDecision decision => after (applyDecision decision) r
  | .pruneThrough slot => r.pruneThrough slot

theorem placed_enqueue {fresh : List V} (h : r.Placed) (hs : r.Sound) (hnodup : fresh.Nodup)
    (hnew : ∀ v ∈ fresh, v ∉ r.seenValueIds) :
    ReplicaSnapshot.Placed
      { r.toReplicaSnapshot with seenValueIds := r.seenValueIds ∪ fresh.toFinset, pending := r.pending ++ fresh } := by
  refine ⟨?_, h.batch, fun slot v hv hmem => ?_, h.once, h.backed⟩
  · refine List.nodup_append.mpr ⟨h.queue, hnodup, ?_⟩
    rintro v hold w hfresh rfl
    exact hnew v hfresh (hs.queued v hold)
  · rcases List.mem_append.mp hmem with hold | hfresh
    · exact h.apart slot v hv hold
    · obtain ⟨e, he, _, hprop⟩ := hv
      exact hnew v hfresh (hs.logged slot e he v (.inl hprop))

theorem offers_proposed (hfree : (r.log.get slot).any (·.taken) = false) (k : SlotIndex) (v : V) :
    (r.proposed slot values).Offers k v ↔ if k = slot then v ∈ values else r.Offers k v := by
  refine offers_insert.trans ?_
  split_ifs with hk
  · have hnone : (r.entry slot).decision = none := by
      rw [entry]
      cases hget : r.log.get slot with
      | none => rfl
      | some e =>
        rw [hget] at hfree
        simp only [Option.any_some, LogSlot.taken, Bool.or_eq_false_iff, Option.isSome_eq_false_iff,
          Option.isNone_iff_eq_none] at hfree
        exact hfree.1
    exact ⟨fun h => h.2, fun h => ⟨hnone, h⟩⟩
  · rfl

theorem placed_proposed (h : r.Placed) (hfree : (r.log.get slot).any (·.taken) = false) (hnodup : values.Nodup)
    (hqueue : ∀ v ∈ values, v ∉ r.pending) (hoffered : ∀ v ∈ values, ∀ k, ¬r.Offers k v) :
      (r.proposed slot values).Placed := by
  have hoffers : ∀ k v, (r.proposed slot values).Offers k v ↔ if k = slot then v ∈ values else r.Offers k v :=
    offers_proposed hfree
  have hentry : ∀ k e, (r.proposed slot values).log.get k = some e →
      (k = slot ∧ e = { r.entry slot with proposed := values }) ∨ r.log.get k = some e := by
    intro k e he
    simp only [proposed, OrderedMap.get_insert] at he
    split_ifs at he with hk
    · exact .inl ⟨hk, (Option.some.inj he).symm⟩
    · exact .inr he
  refine ⟨h.queue, fun k e he => ?_, fun k v hv hmem => ?_, fun k k' v hv hv' => ?_, fun k e he hcommitted hne => ?_⟩
  · rcases hentry k e he with ⟨_, rfl⟩ | hold
    · exact hnodup
    · exact h.batch k e hold
  · rw [hoffers] at hv
    split_ifs at hv with hk
    · exact hqueue v hv hmem
    · exact h.apart k v hv hmem
  · rw [hoffers] at hv hv'
    split_ifs at hv hv' with hk hk' hk'
    · exact hk.trans hk'.symm
    · exact absurd hv' (hoffered v hv k')
    · exact absurd hv (hoffered v hv' k)
    · exact h.once k k' v hv hv'
  · rcases hentry k e he with ⟨rfl, rfl⟩ | hold
    · rw [entry] at hcommitted ⊢
      cases hget : r.log.get k with
      | none =>
        rw [hget] at hcommitted
        cases hcommitted
      | some e =>
        rw [hget] at hcommitted
        exact h.backed k e hget hcommitted hne
    · exact h.backed k e hold hcommitted hne

theorem offers_armed (harm : r.Armed slot values r') (k : SlotIndex) (v : V) :
    r'.Offers k v ↔ if k = slot then v ∈ values else r.Offers k v := by
  obtain ⟨n, _, _, _, rfl⟩ := harm.taken
  exact offers_proposed (r := { r with pending := r.pending.drop n }) harm.isOpen k v

theorem placed_armed (h : r.Placed) (harm : r.Armed slot values r') : r'.Placed := by
  obtain ⟨n, _, rfl, _, rfl⟩ := harm.taken
  have hsplit : (r.pending.take n ++ r.pending.drop n).Nodup := by
    rw [List.take_append_drop]
    exact h.queue
  obtain ⟨htake, _, hdisjoint⟩ := List.nodup_append.mp hsplit
  refine placed_proposed (r := { r with pending := r.pending.drop n }) (placed_drain h n) harm.isOpen htake ?_ ?_
  · exact fun v hv hmem => hdisjoint v hv v hmem rfl
  · exact fun v hv k hk => h.apart k v hk (List.mem_of_mem_take hv)

/-- Values from the queue are refused only for want of room in the log. -/
theorem Refused.no_room {n : Nat} {e : QuePaxaError} (h : r.Refused n e) (hs : r.Sound)
    (hnodup : (r.pending.take n).Nodup) :
    r.roomForNext = false := by
  obtain ⟨slot, hslot, hrefused⟩ := h.refused
  simp only [roomForNext, hslot]
  cases hroom : r.ensureLogCapacity slot with
  | error e => rfl
  | ok u =>
    have hknown : (r.pending.take n).toFinset \ r.seenValueIds = ∅ := by
      refine Finset.sdiff_eq_empty_iff_subset.mpr fun v hv => ?_
      exact hs.queued v (List.mem_of_mem_take (List.mem_toFinset.mp hv))
    have hadmitted : { r with pending := r.pending.drop n }.admitProposal slot (r.pending.take n) = .ok () := by
      refine admitProposal_eq_ok.mpr ⟨fun hnil => ?_, hnodup, ?_, require_eq_ok.mp hroom⟩
      · rcases List.take_eq_nil_iff.mp hnil with hzero | hempty
        · exact absurd hzero h.pos.ne'
        · exact h.queued hempty
      · rw [hknown]
        exact hs.trackRoom
    rw [hadmitted] at hrefused
    cases hrefused

theorem offers_decided {k : SlotIndex} : (r.decided d).Offers k v ↔ k ≠ d.slot ∧ r.Offers k v := by
  refine offers_insert.trans ?_
  split_ifs with hk
  · simp [hk]
  · simp [hk]

theorem mem_requeued {entry : LogSlot V} :
    v ∈ requeued entry d ↔ v ∈ entry.proposed ∧ v ∉ d.valueIds := by
  rw [requeued]
  split_ifs with hne
  · simp
  · simp only [not_not] at hne
    simp [hne]

theorem placed_decided (h : r.Placed) (fresh : (r.entry d.slot).decision = none) :
    (r.decided d).Placed := by
  have hlost : ∀ v, v ∈ requeued (r.entry d.slot) d → r.Offers d.slot v :=
    fun v hv => offers_entry.mpr ⟨fresh, (mem_requeued.mp hv).1⟩
  have hbatch : (r.entry d.slot).proposed.Nodup := by
    rw [entry]
    cases hget : r.log.get d.slot with
    | none => exact List.nodup_nil
    | some e => exact h.batch d.slot e hget
  refine ⟨?_, fun k e he => ?_, fun k v hv hmem => ?_, fun k k' v hv hv' => ?_, fun k e he hcommitted hne => ?_⟩
  · refine List.nodup_append.mpr ⟨?_, h.queue, ?_⟩
    · rw [requeued]
      split_ifs
      · exact hbatch.filter _
      · exact List.nodup_nil
    · rintro v hv w hw rfl
      exact h.apart d.slot v (hlost v hv) hw
  · simp only [decided, OrderedMap.get_insert] at he
    split_ifs at he with hk
    · cases he
      exact hbatch
    · exact h.batch k e he
  · obtain ⟨hk, hv⟩ := offers_decided.mp hv
    rcases List.mem_append.mp hmem with hmem | hmem
    · exact hk (h.once k d.slot v hv (hlost v hmem))
    · exact h.apart k v hv hmem
  · exact h.once k k' v (offers_decided.mp hv).2 (offers_decided.mp hv').2
  · simp only [decided, OrderedMap.get_insert] at he
    split_ifs at he with hk
    · cases he
      rfl
    · exact h.backed k e he hcommitted hne

end
end ReplicaCore

structure Pipeline (V : Type) where
  replica : ReplicaCore V
  /-- The values of the calls of `enqueue` that returned. -/
  accepted : List V
  /-- The decisions of the calls of `applyDecision` that returned. -/
  applied : List (Decision V)

namespace Pipeline

def start (config : ReplicaConfig) : Pipeline V := ⟨.new config, [], []⟩

/-- Every accepted value waits in the queue, is on offer in an undecided slot, or is in an applied decision. -/
def Complete (p : Pipeline V) : Prop :=
  ∀ v ∈ p.accepted, v ∈ p.replica.pending ∨ (∃ slot, p.replica.Offers slot v) ∨ ∃ d ∈ p.applied, v ∈ d.valueIds

structure Accounted (p : Pipeline V) : Prop where
  sound : p.replica.Sound
  ordered : p.replica.Ordered
  placed : p.replica.Placed
  /-- The last slot stays undecided. -/
  short : p.replica.decisionAt u64Max = none ∧ ¬p.replica.Jammed
  accepted : ∀ v ∈ p.accepted, v ∈ p.replica.seenValueIds
  located : ∀ v ∈ p.replica.seenValueIds,
    v ∈ p.replica.pending ∨ (∃ slot, p.replica.Offers slot v) ∨ ∃ d ∈ p.applied, v ∈ d.valueIds

private theorem Accounted.complete {p : Pipeline V} (h : p.Accounted) : p.Complete :=
  fun v hv => h.located v (h.accepted v hv)

theorem accounted_start (config : ReplicaConfig) : (start config : Pipeline V).Accounted where
  sound := ReplicaCore.sound_new config
  ordered := ReplicaSnapshot.ordered_new config
  placed := ReplicaCore.placed_new config
  short := by
    have hget : (ReplicaCore.new config : ReplicaCore V).log.get u64Max = none := by
      simp only [ReplicaCore.new, OrderedMap.get_insert, OrderedMap.get_emptyCollection]
      rfl
    simp [start, ReplicaSnapshot.decisionAt, ReplicaSnapshot.Jammed, hget]
  accepted := nofun
  located v hv := by
    cases Finset.notMem_empty v hv

variable [DecidableEq V]

def step (p : Pipeline V) (op : ReplicaOp V) : Pipeline V :=
  { replica := p.replica.perform op
    accepted := match op with
      | .enqueue valueIds =>
        if (result (ReplicaCore.enqueue valueIds) p.replica).isOk then p.accepted ++ valueIds else p.accepted
      | _ => p.accepted
    applied := match op with
      | .applyDecision d =>
        if (result (ReplicaCore.applyDecision d) p.replica).isOk then p.applied ++ [d] else p.applied
      | _ => p.applied }

def Roomy (p : Pipeline V) : ReplicaOp V → Prop
  | .nextProposal => p.replica.inflightCount < p.replica.config.pipelineLen → p.replica.pending ≠ [] →
      p.replica.roomForNext = true
  | .applyDecision d => d.slot < u64Max
  | _ => True

instance (p : Pipeline V) : DecidablePred p.Roomy
  | .nextProposal => inferInstanceAs (Decidable (_ → _ → _))
  | .applyDecision _ => inferInstanceAs (Decidable (_ < _))
  | .enqueue _ => .isTrue trivial
  | .pruneThrough _ => .isTrue trivial

variable {p : Pipeline V}

private theorem step_enqueue_error {e : QuePaxaError}
    (heq : ReplicaCore.enqueue values p.replica = .error e r) : p.step (.enqueue values) = { p with replica := r } := by
  simp [step, ReplicaCore.perform, after_error heq, result, heq, Except.isOk, Except.toBool]

private theorem step_enqueue_ok {u : Unit} (heq : ReplicaCore.enqueue values p.replica = .ok u r) :
    p.step (.enqueue values) = { p with replica := r, accepted := p.accepted ++ values } := by
  simp [step, ReplicaCore.perform, after_ok heq, result, heq, Except.isOk, Except.toBool]

private theorem step_applyDecision_error {e : QuePaxaError}
    (heq : ReplicaCore.applyDecision d p.replica = .error e r) : p.step (.applyDecision d) =
      { p with replica := r } := by
  simp [step, ReplicaCore.perform, after_error heq, result, heq, Except.isOk, Except.toBool]

private theorem step_applyDecision_ok {ds : List (Decision V)}
    (heq : ReplicaCore.applyDecision d p.replica = .ok ds r) :
    p.step (.applyDecision d) = { p with replica := r, applied := p.applied ++ [d] } := by
  simp [step, ReplicaCore.perform, after_ok heq, result, heq, Except.isOk, Except.toBool]

private theorem accounted_enqueue (h : p.Accounted) (values : List V) : (p.step (.enqueue values)).Accounted := by
  rcases ReplicaCore.enqueue_cases values p.replica with ⟨e, heq⟩ | ⟨fresh, heq, hc⟩
  · rw [step_enqueue_error heq]
    exact h
  have hfresh := ReplicaCore.enqueue_ok heq
  rw [hfresh] at heq hc
  rw [step_enqueue_ok heq]
  have hnew : ∀ v ∈ freshValues p.replica.seenValueIds values, v ∉ p.replica.seenValueIds :=
    fun v hv => (ReplicaCore.mem_freshValues hv).1
  refine ⟨ReplicaCore.sound_change h.sound hc, h.ordered.same ⟨rfl, rfl, rfl, rfl⟩,
    ReplicaCore.placed_enqueue h.placed h.sound (ReplicaCore.freshValues_nodup ..) hnew, h.short, fun v hv => ?_,
      fun v hv => ?_⟩
  · refine Finset.mem_union.mpr ?_
    rcases List.mem_append.mp hv with hold | hvalue
    · exact .inl (h.accepted v hold)
    · exact (ReplicaCore.seen_or_fresh _ hvalue).imp_right List.mem_toFinset.mpr
  · rcases Finset.mem_union.mp hv with hold | hadded
    · exact (h.located v hold).imp_left (List.mem_append_left _)
    · exact .inl (List.mem_append_right _ (List.mem_toFinset.mp hadded))

private theorem accounted_nextProposal (h : p.Accounted) (hroom : p.Roomy .nextProposal) :
    (p.step .nextProposal).Accounted := by
  show Accounted { p with replica := after ReplicaCore.nextProposal p.replica }
  rcases ReplicaCore.nextProposal_cases p.replica with ⟨slot, values, r, heq, harm⟩ | heq | ⟨e, r, heq, hr⟩
  · rw [after_ok heq]
    have hoffers := ReplicaCore.offers_armed harm
    have hplaced := ReplicaCore.placed_armed h.placed harm
    obtain ⟨n, _, rfl, hadm, rfl⟩ := harm.taken
    have hsame := ReplicaCore.sameOutcome_proposed { p.replica with pending := p.replica.pending.drop n } slot
      (p.replica.pending.take n)
    refine ⟨ReplicaCore.sound_change (ReplicaCore.sound_change h.sound (.drain n)) (.propose hadm),
      ReplicaSnapshot.Ordered.same (h.ordered.same (ReplicaCore.sameOutcome_drain p.replica n)) hsame, hplaced, ?_,
        fun v hv => ?_, fun v hv => ?_⟩
    · exact ⟨(congrFun hsame.decisionAt u64Max).trans h.short.1, fun hjam => h.short.2 (hsame.jammed.mp hjam)⟩
    · exact Finset.mem_union_left _ (h.accepted v hv)
    · have hseen : v ∈ p.replica.seenValueIds := by
        rcases Finset.mem_union.mp hv with hold | htaken
        · exact hold
        · exact h.sound.queued v (List.mem_of_mem_take (List.mem_toFinset.mp htaken))
      rcases h.located v hseen with hpending | ⟨k, hk⟩ | happlied
      · rw [← List.take_append_drop n p.replica.pending] at hpending
        rcases List.mem_append.mp hpending with htake | hdrop
        · exact .inr (.inl ⟨slot, (hoffers slot v).mpr (by rw [if_pos rfl]; exact htake)⟩)
        · exact .inl hdrop
      · have hne : k ≠ slot := fun hk' => ReplicaCore.not_offers_of_open harm.isOpen v (hk' ▸ hk)
        exact .inr (.inl ⟨k, (hoffers k v).mpr (by rw [if_neg hne]; exact hk)⟩)
      · exact .inr (.inr happlied)
  · rw [after_ok heq]
    exact h
  · rw [after_error heq]
    rcases hr with rfl | ⟨n, hrefused, _⟩
    · exact h
    · have hroom := hroom hrefused.spare hrefused.queued
      rw [hrefused.no_room h.sound (h.placed.queue.sublist (List.take_sublist ..))] at hroom
      cases hroom

private theorem accounted_applyDecision (h : p.Accounted) (d : Decision V) (hlast : d.slot < u64Max) :
    (p.step (.applyDecision d)).Accounted := by
  have hcall := ReplicaCore.triple_applyDecision h.ordered d p.replica rfl
  rcases ReplicaCore.applyDecision_cases d p.replica with ⟨e, heq⟩ | ⟨existing, hex, hsame, _, heq⟩ |
    ⟨hc, fresh, _, heq⟩
  · rw [step_applyDecision_error heq]
    exact h
  · rw [step_applyDecision_ok heq]
    refine { h with located := fun v hv => ?_ }
    refine (h.located v hv).imp_right (.imp_right ?_)
    rintro ⟨d', hd', hv⟩
    exact ⟨d', List.mem_append_left _ hd', hv⟩
  · have hwaiting := ReplicaCore.keeps_sameWaiting (p.replica.decided d) (p.replica.decided d)
      ⟨ReplicaCore.placed_decided h.placed fresh, rfl, rfl, rfl⟩
    have hsound := ReplicaCore.later_applyDecision h.sound d
    cases hx : ReplicaCore.commitReady (p.replica.decided d) with
    | error e r =>
      -- the loop fails only at the last slot, which is not decided
      have hjam : r.Jammed := ReplicaCore.commitReady_error (r := p.replica.decided d) h.sound.bound hx
      rw [heq, hx] at hcall
      rcases hcall with rfl | ⟨⟨ds, happlied⟩, _⟩
      · exact absurd hjam h.short.2
      · exact absurd hjam (happlied.short hlast h.short).2
    | ok ds r =>
      rw [hx] at hwaiting heq
      rw [heq] at hcall
      rw [step_applyDecision_ok heq]
      refine ⟨after_ok heq ▸ hsound.sound, hcall.1.ordered, hwaiting.placed, hcall.1.short hlast h.short,
        fun v hv => ?_, fun v hv => ?_⟩
      · rw [hwaiting.seen]
        exact Finset.mem_union_left _ (h.accepted v hv)
      · rw [hwaiting.seen] at hv
        rw [hwaiting.pending, hwaiting.offers]
        by_cases hdecided : v ∈ d.valueIds
        · exact .inr (.inr ⟨d, List.mem_append_right _ List.mem_cons_self, hdecided⟩)
        have hold : v ∈ p.replica.seenValueIds := (Finset.mem_union.mp hv).resolve_right
          fun hmem => hdecided (List.mem_toFinset.mp hmem)
        rcases h.located v hold with hpending | ⟨k, hk⟩ | ⟨d', hd', hv⟩
        · exact .inl (List.mem_append_right _ hpending)
        · by_cases hslot : k = d.slot
          · have hproposed := (ReplicaCore.offers_entry.mp (hslot ▸ hk)).2
            exact .inl (List.mem_append_left _ (ReplicaCore.mem_requeued.mpr ⟨hproposed, hdecided⟩))
          · exact .inr (.inl ⟨k, ReplicaCore.offers_decided.mpr ⟨hslot, hk⟩⟩)
        · exact .inr (.inr ⟨d', List.mem_append_left _ hd', hv⟩)

private theorem accounted_prune (h : p.Accounted) (through : SlotIndex) :
    (p.step (.pruneThrough through)).Accounted := by
  have hkept : ∀ slot e, (p.replica.pruneThrough through).log.get slot = some e → p.replica.log.get slot = some e :=
    fun slot e he => ((OrderedMap.get_retain ..).mp he).1
  refine ⟨h.sound.prune through, ReplicaCore.ordered_prune h.ordered through,
    ReplicaCore.placed_prune h.placed through, ⟨?_, fun hjam => ?_⟩, h.accepted, ?_⟩
  · show (p.replica.pruneThrough through).decisionAt u64Max = none
    rw [ReplicaSnapshot.decisionAt]
    cases he : (p.replica.pruneThrough through).log.get u64Max with
    | none => rfl
    | some e =>
      have hnone := h.short.1
      rw [ReplicaSnapshot.decisionAt, hkept u64Max e he] at hnone
      exact hnone
  · obtain ⟨e, he, hcommitted⟩ := (Option.any_eq_true _ _).mp hjam
    apply h.short.2
    rw [ReplicaSnapshot.Jammed, hkept u64Max e he]
    exact hcommitted
  · have hoffers := ReplicaCore.offers_prune h.placed through
    intro v hv
    show v ∈ p.replica.pending ∨ (∃ slot, (p.replica.pruneThrough through).Offers slot v) ∨ _
    rw [hoffers]
    exact h.located v hv

private theorem accounted_step (p : Pipeline V) (op : ReplicaOp V) (h : p.Accounted) (hroom : p.Roomy op) :
    (p.step op).Accounted := by
  cases op with
  | enqueue values => exact accounted_enqueue h values
  | nextProposal => exact accounted_nextProposal h hroom
  | applyDecision d => exact accounted_applyDecision h d hroom
  | pruneThrough slot => exact accounted_prune h slot

/-- As long as the log has room for what is proposed, no accepted value is lost. -/
theorem accepted_values_are_kept (config : ReplicaConfig) (ops : List (ReplicaOp V))
    (h : Along step Roomy (start config : Pipeline V) ops) : (run step (start config) ops).Complete :=
  (run_invariant accounted_step (accounted_start config) h).complete

/-- The log is full when a second value is taken from the queue. The value is neither
proposed nor put back, and being tracked it cannot be submitted again. -/
theorem full_log_loses_a_value :
    let config : ReplicaConfig := ⟨1, 2, 10, 1, 10⟩
    let p := run step (start config : Pipeline Nat) [.enqueue [10, 20], .nextProposal, .nextProposal, .enqueue [20]]
    20 ∈ p.accepted ∧ ¬p.Complete := by
  intro config p
  have hpending : p.replica.pending = [] := by decide +kernel
  have hlog : p.replica.log.entries = [(0, ⟨[], none, true⟩), (1, ⟨[10], none, false⟩)] := by decide +kernel
  have happlied : p.applied = [] := by rfl
  have haccepted : 20 ∈ p.accepted := by decide +kernel
  refine ⟨haccepted, fun hcomplete => ?_⟩
  rcases hcomplete 20 haccepted with hmem | ⟨slot, e, he, _, hmem⟩ | ⟨d, hd, _⟩
  · rw [hpending] at hmem
    cases hmem
  · rw [OrderedMap.get_eq_some, hlog] at he
    simp only [List.mem_cons, Prod.mk.injEq, List.not_mem_nil, or_false] at he
    rcases he with ⟨_, rfl⟩ | ⟨_, rfl⟩
    · cases hmem
    · simp at hmem
  · rw [happlied] at hd
    cases hd

/-- With room for a second slot the same calls keep the value. -/
theorem accepted_values_are_kept_two_slots :
    let config : ReplicaConfig := ⟨1, 2, 10, 2, 10⟩
    let ops : List (ReplicaOp Nat) := [.enqueue [10, 20], .nextProposal, .nextProposal, .applyDecision ⟨1, [30], 1, 4⟩,
      .pruneThrough 1]
    20 ∈ (run step (start config : Pipeline Nat) ops).accepted ∧
      (run step (start config : Pipeline Nat) ops).Complete := by
  intro config ops
  exact ⟨by decide +kernel, accepted_values_are_kept config ops (by decide +kernel)⟩

end Pipeline
end QuePaxa
