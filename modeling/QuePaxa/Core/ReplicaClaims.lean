import QuePaxa.Core.ReplicaOrder

/-! What a replica proposes, and where. A slot handed out by `nextProposal` stays claimed for the
whole life of the replica, restarts included, and a value waits in one place only. -/
namespace QuePaxa
open Library
variable {V : Type}
variable {values : List V}

namespace ReplicaSnapshot

def offered (s : ReplicaSnapshot V) : List V :=
  s.log.entries.flatMap fun e => if e.2.decision.isNone then e.2.proposed else []

def openProposals (s : ReplicaSnapshot V) : Nat :=
  s.log.entries.countP fun e => e.2.decision.isNone && !e.2.proposed.isEmpty

variable {s s' : ReplicaSnapshot V}

theorem offers_of_mem {e : SlotIndex × LogSlot V} {v : V} (he : e ∈ s.log.entries)
    (hv : v ∈ if e.2.decision.isNone then e.2.proposed else []) : s.Offers e.1 v := by
  split_ifs at hv with hopen
  · exact ⟨e.2, (s.log.get_eq_some ..).mpr he, Option.isNone_iff_eq_none.mp hopen, hv⟩
  · cases hv

private theorem mem_offered {v : V} (h : v ∈ s.offered) : ∃ slot, s.Offers slot v := by
  obtain ⟨e, he, hv⟩ := List.mem_flatMap.mp h
  exact ⟨e.1, offers_of_mem he hv⟩

theorem Placed.nodup (h : s.Placed) : (s.pending ++ s.offered).Nodup := by
  refine List.nodup_append.mpr ⟨h.queue, List.nodup_flatMap.mpr ⟨fun e he => ?_, ?_⟩, ?_⟩
  · split_ifs
    · exact h.batch e.1 e.2 ((s.log.get_eq_some ..).mpr he)
    · exact List.nodup_nil
  · refine s.log.sorted.imp_of_mem fun ha hb hlt v hva hvb => ?_
    exact hlt.ne (h.once _ _ v (offers_of_mem ha hva) (offers_of_mem hb hvb))
  · rintro v hqueued w hoffered rfl
    obtain ⟨slot, hslot⟩ := mem_offered hoffered
    exact h.apart slot v hslot hqueued

private def offering (s : ReplicaSnapshot V) : Finset SlotIndex :=
  ((s.log.entries.filter fun e => e.2.decision.isNone && !e.2.proposed.isEmpty).map Prod.fst).toFinset

private theorem mem_offering {slot : SlotIndex} : slot ∈ s.offering ↔ ∃ v, s.Offers slot v := by
  simp only [offering, List.mem_toFinset, List.mem_map, List.mem_filter, Bool.and_eq_true, Option.isNone_iff_eq_none,
    Bool.not_eq_true', List.isEmpty_eq_false_iff_exists_mem]
  constructor
  · rintro ⟨e, ⟨he, hopen, v, hv⟩, rfl⟩
    exact ⟨v, e.2, (s.log.get_eq_some ..).mpr he, hopen, hv⟩
  · rintro ⟨v, e, he, hopen, hv⟩
    exact ⟨(slot, e), ⟨(s.log.get_eq_some ..).mp he, hopen, v, hv⟩, rfl⟩

private theorem card_offering (s : ReplicaSnapshot V) : s.offering.card = s.openProposals := by
  have hnodup : ((s.log.entries.filter fun e => e.2.decision.isNone && !e.2.proposed.isEmpty).map Prod.fst).Nodup :=
    s.log.keys_nodup.sublist (List.filter_sublist.map _)
  rw [offering, List.toFinset_card_of_nodup hnodup, List.length_map, openProposals, List.countP_eq_length_filter]

private theorem openProposals_le (h : ∀ slot v, s'.Offers slot v → s.Offers slot v) :
    s'.openProposals ≤ s.openProposals := by
  rw [← card_offering, ← card_offering]
  refine Finset.card_le_card fun slot hslot => ?_
  obtain ⟨v, hv⟩ := mem_offering.mp hslot
  exact mem_offering.mpr ⟨v, h slot v hv⟩

private theorem openProposals_le_succ {k : SlotIndex} (h : ∀ slot v, s'.Offers slot v → slot = k ∨ s.Offers slot v) :
    s'.openProposals ≤ s.openProposals + 1 := by
  rw [← card_offering, ← card_offering]
  refine (Finset.card_le_card fun slot hslot => ?_).trans (Finset.card_insert_le k _)
  obtain ⟨v, hv⟩ := mem_offering.mp hslot
  rcases h slot v hv with rfl | hold
  · exact Finset.mem_insert_self ..
  · exact Finset.mem_insert_of_mem (mem_offering.mpr ⟨v, hold⟩)

end ReplicaSnapshot

namespace ReplicaCore
open ReplicaSnapshot

/-- Every waiting value has one place, and own proposals are open only ahead of the frontier. -/
structure Spaced (r : ReplicaCore V) : Prop where
  sound : r.Sound
  placed : r.Placed
  ahead : ∀ slot v, r.Offers slot v → r.Undecided slot

variable {r r' : ReplicaCore V} {slot : SlotIndex}

theorem spaced_new (config : ReplicaConfig) : (new config : ReplicaCore V).Spaced := by
  refine ⟨sound_new config, placed_new config, ?_⟩
  rintro slot v ⟨e, he, _, hv⟩
  simp only [new, OrderedMap.get_insert, OrderedMap.get_emptyCollection] at he
  split_ifs at he
  cases he
  cases hv

private theorem Spaced.openProposals_le_inflight (h : r.Spaced) : r.openProposals ≤ r.inflightCount := by
  refine List.countP_mono_left fun e he hopen => ?_
  simp only [Bool.and_eq_true, Option.isNone_iff_eq_none, Bool.not_eq_true', List.isEmpty_eq_false_iff_exists_mem]
    at hopen
  obtain ⟨hnone, v, hv⟩ := hopen
  have hget := (r.log.get_eq_some e.1 e.2).mpr he
  have hahead := h.ahead e.1 v ⟨e.2, hget, hnone, hv⟩
  simp only [Bool.and_eq_true, decide_eq_true_eq, Bool.not_eq_true', List.isEmpty_eq_false_iff_exists_mem]
  exact ⟨⟨hahead.ahead, (hahead.isOpen e.2 hget).2⟩, v, hv⟩

/-- The scan for an open slot meets no slot that is committed without a decision. -/
theorem Spaced.undecided_of_free (h : r.Spaced) (hahead : r.nextCommit ≤ slot)
    (hfree : (r.log.get slot).any (·.taken) = false) :
    r.Undecided slot := by
  refine ⟨hahead, fun e hget => ?_⟩
  simp only [hget, Option.any_some, LogSlot.taken, Bool.or_eq_false_iff, Option.isSome_eq_false_iff,
    Option.isNone_iff_eq_none] at hfree
  refine ⟨hfree.1, Bool.eq_false_of_not_eq_true fun hcommitted => ?_⟩
  have hne : slot ≠ SlotIndex.genesis := Nat.ne_zero_of_lt (h.sound.frontier.trans_le hahead)
  have hsome := h.placed.backed slot e hget hcommitted hne
  rw [hfree.1] at hsome
  cases hsome

/-- The commit loop changes neither the queue nor what is on offer, and stops before an open slot. -/
theorem Spaced.commitReady (h : r.Spaced) [DecidableEq V] :
    (after commitReady r).Spaced ∧ (after commitReady r).Offers = r.Offers := by
  have hwaiting : SameWaiting r (after ReplicaCore.commitReady r) :=
    (keeps_sameWaiting r).after ⟨h.placed, rfl, rfl, rfl⟩
  have hkeeps : Keeps (fun s : ReplicaCore V => s.Sound ∧ ∀ slot v, r.Offers slot v → s.Undecided slot)
      ReplicaCore.commitReady := by
    apply keeps_commitReady
    · intro s ds s' hs hc
      exact ⟨sound_change hs.1 (.commit hc), fun slot v hv => undecided_commit (hs.2 slot v hv) hc⟩
    · intro s s' hs hj
      exact ⟨sound_change hs.1 (.jam hj), fun slot v hv => undecided_jam (hs.2 slot v hv) hj⟩
  obtain ⟨hsound, hahead⟩ := hkeeps.after ⟨h.sound, h.ahead⟩
  exact ⟨⟨hsound, hwaiting.placed, hwaiting.offers ▸ hahead⟩, hwaiting.offers⟩

private theorem nextOpenSlot_never {e : QuePaxaError} (he : QuePaxaError.slotOverflow ≠ e) (r : ReplicaCore V) :
    Never e r.nextOpenSlot := by
  refine Never.loop (fun slot => ?_) _ _
  split_ifs
  · cases slot.checkedNext with
    | some next => exact Never.ok _
    | none => exact Never.error he
  · exact Never.ok _

section
variable [DecidableEq V]

theorem Spaced.enqueue (h : r.Spaced) (values : List V) :
    (after (enqueue values) r).Spaced ∧ (after (enqueue values) r).Offers = r.Offers := by
  rcases enqueue_cases values r with ⟨e, heq⟩ | ⟨fresh, heq, hc⟩
  · rw [after_error heq]
    exact ⟨h, rfl⟩
  · have hfresh := enqueue_ok heq
    rw [hfresh] at heq hc
    rw [after_ok heq]
    have hplaced := placed_enqueue h.placed h.sound (freshValues_nodup r.seenValueIds values)
      fun v hv => (mem_freshValues hv).1
    exact ⟨⟨sound_change h.sound hc, hplaced, fun slot v hv => ⟨(h.ahead slot v hv).ahead,
      (h.ahead slot v hv).isOpen⟩⟩, rfl⟩

theorem Spaced.proposed (h : r.Spaced) (hahead : r.nextCommit ≤ slot)
    (hfree : (r.log.get slot).any (·.taken) = false) (hadm : r.admitProposal slot values = .ok ())
    (hplaced : (r.proposed slot values).Placed) : (r.proposed slot values).Spaced := by
  refine ⟨sound_change h.sound (.propose hadm), hplaced, fun k v hv => undecided_proposed ?_ slot values⟩
  rw [offers_proposed hfree] at hv
  split_ifs at hv with hk
  · subst hk
    exact h.undecided_of_free hahead hfree
  · exact h.ahead k v hv

theorem Spaced.drain (h : r.Spaced) (n : Nat) : Spaced { r with pending := r.pending.drop n } := by
  refine ⟨sound_change h.sound (.drain n), placed_drain h.placed n, fun slot v hv => ?_⟩
  exact ⟨(h.ahead slot v hv).ahead, (h.ahead slot v hv).isOpen⟩

theorem Spaced.armed (h : r.Spaced) (harm : r.Armed slot values r') : r'.Spaced := by
  have hplaced := placed_armed h.placed harm
  obtain ⟨n, _, rfl, hadm, rfl⟩ := harm.taken
  exact (h.drain n).proposed harm.lowest.frontier harm.isOpen hadm hplaced

theorem Spaced.applyDecision (h : r.Spaced) (d : Decision V) : (after (applyDecision d) r).Spaced ∧
    ∀ slot v, (after (ReplicaCore.applyDecision d) r).Offers slot v → r.Offers slot v := by
  rcases applyDecision_cases d r with ⟨e, heq⟩ | ⟨_, _, _, _, heq⟩ | ⟨hc, hfresh, _, heq⟩
  · rw [after_error heq]
    exact ⟨h, fun _ _ hv => hv⟩
  · rw [after_ok heq]
    exact ⟨h, fun _ _ hv => hv⟩
  · have hsame : after (ReplicaCore.applyDecision d) r = after ReplicaCore.commitReady (r.decided d) := by
      rw [after, after, heq]
    rw [hsame]
    have hdecided : (r.decided d).Spaced := by
      refine ⟨sound_change h.sound hc, placed_decided h.placed hfresh, fun k v hv => ?_⟩
      obtain ⟨hne, hold⟩ := offers_decided.mp hv
      exact ⟨(h.ahead k v hold).ahead, undecided_insert (h.ahead k v hold).isOpen fun heq => absurd heq.symm hne⟩
    obtain ⟨hspaced, hoffers⟩ := hdecided.commitReady
    exact ⟨hspaced, fun slot v hv => (offers_decided.mp (hoffers ▸ hv)).2⟩

theorem Spaced.not_offers_applied (h : r.Spaced) {d : Decision V} {ds : List (Decision V)}
    (hok : ReplicaCore.applyDecision d r = .ok ds r') (v : V) : ¬r'.Offers d.slot v := by
  rcases applyDecision_cases d r with ⟨e, heq⟩ | ⟨existing, hdecided, _, _, heq⟩ | ⟨_, hfresh, _, heq⟩
  · rw [hok] at heq
    cases heq
  · rw [hok] at heq
    cases heq
    rw [offers_entry, hdecided]
    exact fun hv => nomatch hv.1
  · rw [hok] at heq
    have hwaiting := (keeps_sameWaiting (r.decided d)).ok ⟨placed_decided h.placed hfresh, rfl, rfl, rfl⟩ heq.symm
    rw [hwaiting.offers, offers_decided]
    exact fun hv => hv.1 rfl

private theorem Spaced.prune (h : r.Spaced) (through : SlotIndex) :
    (r.pruneThrough through).Spaced ∧ (r.pruneThrough through).Offers = r.Offers := by
  have hoffers := offers_prune h.placed through
  refine ⟨⟨h.sound.prune through, placed_prune h.placed through, fun slot v hv => ?_⟩, hoffers⟩
  exact undecided_prune (h.ahead slot v (hoffers ▸ hv)) through

/-- A call opens a proposal only within the length of the pipeline. -/
theorem Spaced.perform (h : r.Spaced) (op : ReplicaOp V) :
    (r.perform op).Spaced ∧ (r.perform op).openProposals ≤ max r.openProposals r.config.pipelineLen := by
  cases op with
  | enqueue values =>
    obtain ⟨hspaced, hoffers⟩ := h.enqueue values
    exact ⟨hspaced, le_max_of_le_left (openProposals_le fun slot v hv => hoffers ▸ hv)⟩
  | nextProposal =>
    show (after nextProposal r).Spaced ∧ (after nextProposal r).openProposals ≤ _
    rcases nextProposal_cases r with ⟨slot, values, r', heq, harm⟩ | heq | ⟨e, r', heq, hr⟩
    · rw [after_ok heq]
      have hadded : r'.openProposals ≤ r.openProposals + 1 := by
        refine openProposals_le_succ (k := slot) fun k v hv => ?_
        rw [offers_armed harm] at hv
        split_ifs at hv with hk
        · exact .inl hk
        · exact .inr hv
      refine ⟨h.armed harm, le_max_of_le_right ?_⟩
      exact hadded.trans (lt_of_le_of_lt h.openProposals_le_inflight harm.spare)
    · rw [after_ok heq]
      exact ⟨h, le_max_left ..⟩
    · rw [after_error heq]
      rcases hr with rfl | ⟨n, _, rfl⟩
      · exact ⟨h, le_max_left ..⟩
      · exact ⟨h.drain n, le_max_left ..⟩
  | applyDecision d =>
    obtain ⟨hspaced, hoffers⟩ := h.applyDecision d
    exact ⟨hspaced, le_max_of_le_left (openProposals_le hoffers)⟩
  | pruneThrough through =>
    obtain ⟨hspaced, hoffers⟩ := h.prune through
    exact ⟨hspaced, le_max_of_le_left (openProposals_le fun slot v hv => hoffers ▸ hv)⟩

private theorem admitProposal_never (hnodup : values.Nodup) {slot : SlotIndex} :
    Never (.invalidProposal "proposal contains duplicate value IDs") (r.admitProposal slot values) := by
  refine Never.bind (Never.require fun h => nomatch h) fun _ => Never.bind (Never.require_of hnodup _) fun _ => ?_
  exact Never.bind (Never.require fun h => nomatch h) fun _ => Never.require fun h => nomatch h

/-- Distinct values are never refused as duplicates, and leave the queue for nothing only when the
log is full. -/
theorem nextProposal_error {e : QuePaxaError} (hs : r.Sound) (hnodup : r.pending.Nodup)
    (herr : nextProposal r = .error e r') :
    e ≠ .invalidProposal "proposal contains duplicate value IDs" ∧
      (r'.pending = r.pending ∨ r.roomForNext = false) := by
  constructor
  · have hcall : Triple (· = r) nextProposal (fun _ _ => True)
        fun e _ => e ≠ .invalidProposal "proposal contains duplicate value IDs" := by
      intro s hs
      rw [hs]
      simp only [nextProposal, bind_apply (x := get), get_apply]
      refine Triple.ite (P := (· = r)) (fun _ => Triple.pure fun _ _ => trivial) (fun _ => ?_) r rfl
      refine Triple.bind (Q := fun _ _ => True) (Triple.check (fun _ _ _ _ => trivial) fun e _ hslot _ he => ?_)
        fun slot => ?_
      · have hnever : Never e r.nextOpenSlot := nextOpenSlot_never (fun h => by cases h.trans he) r
        exact hnever hslot
      intro s _
      simp only [bind_apply, set_apply, noteProposed_eq]
      cases hadm : admitProposal { r with pending := r.pending.drop _ } slot (r.pending.take _) with
      | ok u => trivial
      | error e => exact fun he => admitProposal_never (hnodup.sublist (List.take_sublist ..)) (he ▸ hadm)
    have herror := hcall r rfl
    rw [herr] at herror
    exact herror
  · rcases nextProposal_cases r with ⟨_, _, _, heq, _⟩ | heq | ⟨e', s, heq, hr⟩
    · rw [herr] at heq
      cases heq
    · rw [herr] at heq
      cases heq
    · rw [herr] at heq
      cases heq
      rcases hr with hsame | ⟨n, hrefused, _⟩
      · exact .inl (hsame ▸ rfl)
      · exact .inr (hrefused.no_room hs (hnodup.sublist (List.take_sublist ..)))

theorem armed_of_nextProposal (h : nextProposal r = .ok (some (slot, values)) r') :
    r.Armed slot values r' := by
  rcases nextProposal_cases r with ⟨slot', values', s, heq, harm⟩ | heq | ⟨e, s, heq, _⟩
  · rw [h] at heq
    cases heq
    exact harm
  · rw [h] at heq
    cases heq
  · rw [h] at heq
    cases heq

theorem Armed.free (h : r.Armed slot values r') : ¬r.Claimed slot := by
  rintro (hbelow | htaken)
  · exact absurd h.lowest.frontier (not_le.mpr hbelow)
  · rw [h.isOpen] at htaken
    cases htaken

theorem claimed_perform (hs : r.Sound) (h : r.Claimed slot) (op : ReplicaOp V) : (r.perform op).Claimed slot := by
  have hboth := serve_invariant (I := fun s : ReplicaCore V => s.Sound ∧ s.Claimed slot)
    (fun s s' hs hc => ⟨sound_change hs.1 hc, hs.2.change hs.1.frontier hc⟩) r (.op op) ⟨hs, h⟩
  exact hboth.2

end
end ReplicaCore

/-- The calls of one replica, and its restarts from its own snapshot, under the same limits or
others. -/
inductive ReplicaUse (V : Type) where
  | op (op : ReplicaOp V)
  | restart (config : ReplicaConfig)

structure ClaimRecord (V : Type) where
  replica : ReplicaCore V
  /-- The slots `nextProposal` has returned. -/
  returned : List SlotIndex
  /-- The decisions of the calls of `applyDecision` that returned. -/
  applied : List (Decision V)

namespace ClaimRecord

def start (config : ReplicaConfig) : ClaimRecord V := ⟨.new config, [], []⟩

structure Exclusive (p : ClaimRecord V) : Prop where
  spaced : p.replica.Spaced
  once : p.returned.Nodup
  returned : ∀ slot ∈ p.returned, p.replica.Claimed slot
  applied : ∀ d ∈ p.applied, p.replica.Claimed d.slot

theorem exclusive_start (config : ReplicaConfig) : (start config : ClaimRecord V).Exclusive :=
  ⟨ReplicaCore.spaced_new config, List.nodup_nil, fun _ h => (nomatch h), fun _ h => nomatch h⟩

section
variable [DecidableEq V] {p : ClaimRecord V}

def step (p : ClaimRecord V) : ReplicaUse V → ClaimRecord V
  | .op op =>
    { replica := p.replica.perform op
      returned := match op with
        | .nextProposal => match result ReplicaCore.nextProposal p.replica with
          | .ok (some (slot, _)) => p.returned ++ [slot]
          | _ => p.returned
        | _ => p.returned
      applied := match op with
        | .applyDecision d =>
          if (result (ReplicaCore.applyDecision d) p.replica).isOk then p.applied ++ [d] else p.applied
        | _ => p.applied }
  | .restart config => match ReplicaCore.restore config p.replica.snapshot with
    | .ok replica => { p with replica }
    | .error _ => p

theorem exclusive_op (h : p.Exclusive) (op : ReplicaOp V) : (p.step (.op op)).Exclusive := by
  have hspaced := (h.spaced.perform op).1
  have hclaimed : ∀ slot, p.replica.Claimed slot → (p.replica.perform op).Claimed slot :=
    fun slot hslot => ReplicaCore.claimed_perform h.spaced.sound hslot op
  have hreturned := fun slot hslot => hclaimed slot (h.returned slot hslot)
  have happlied := fun d hd => hclaimed _ (h.applied d hd)
  cases op with
  | enqueue values => exact ⟨hspaced, h.once, hreturned, happlied⟩
  | pruneThrough slot => exact ⟨hspaced, h.once, hreturned, happlied⟩
  | nextProposal =>
    rcases ReplicaCore.nextProposal_cases p.replica with ⟨slot, values, r, heq, harm⟩ | heq | ⟨e, r, heq, _⟩
    · have hstep : (p.step (.op .nextProposal)).returned = p.returned ++ [slot] := by
        simp only [step, result, heq]
      have hnew : ∀ k ∈ p.returned, k ≠ slot := by
        rintro k hk rfl
        exact harm.free (h.returned k hk)
      have hslot : (p.replica.perform .nextProposal).Claimed slot := by
        show (after ReplicaCore.nextProposal p.replica).Claimed slot
        rw [after_ok heq]
        obtain ⟨n, _, _, hadm, rfl⟩ := harm.taken
        exact ReplicaCore.claimed_proposed hadm
      refine ⟨hspaced, ?_, ?_, happlied⟩
      · rw [hstep]
        exact h.once.append (List.nodup_singleton slot) (List.disjoint_singleton.mpr fun hk => hnew slot hk rfl)
      · rw [hstep]
        intro k hk
        rcases List.mem_append.mp hk with hk | hk
        · exact hreturned k hk
        · exact List.mem_singleton.mp hk ▸ hslot
    · have hstep : (p.step (.op .nextProposal)).returned = p.returned := by simp only [step, result, heq]
      exact ⟨hspaced, hstep ▸ h.once, hstep ▸ hreturned, happlied⟩
    · have hstep : (p.step (.op .nextProposal)).returned = p.returned := by simp only [step, result, heq]
      exact ⟨hspaced, hstep ▸ h.once, hstep ▸ hreturned, happlied⟩
  | applyDecision d =>
    refine ⟨hspaced, h.once, hreturned, ?_⟩
    cases heq : ReplicaCore.applyDecision d p.replica with
    | error e r =>
      have hstep : (p.step (.op (.applyDecision d))).applied = p.applied := by
        simp [step, result, heq, Except.isOk, Except.toBool]
      exact hstep ▸ happlied
    | ok ds r =>
      have hstep : (p.step (.op (.applyDecision d))).applied = p.applied ++ [d] := by
        simp [step, result, heq, Except.isOk, Except.toBool]
      rw [hstep]
      intro e he
      rcases List.mem_append.mp he with he | he
      · exact happlied e he
      · rw [List.mem_singleton.mp he]
        show (after (ReplicaCore.applyDecision d) p.replica).Claimed d.slot
        rw [after_ok heq]
        exact (ReplicaCore.applyDecision_ok h.spaced.sound heq).1

theorem step_restart (p : ClaimRecord V) (config : ReplicaConfig) : p.step (.restart config) = p ∨
    ReplicaCore.Sound ⟨p.replica.snapshot, config⟩ ∧
      p.step (.restart config) = { p with replica := ⟨p.replica.snapshot, config⟩ } := by
  simp only [step]
  cases hx : ReplicaCore.restore config p.replica.snapshot with
  | error e => exact .inl rfl
  | ok r =>
    have hsound := ReplicaCore.sound_restore hx
    obtain rfl := ReplicaCore.restore_eq_ok hx
    exact .inr ⟨hsound, rfl⟩

theorem exclusive_step (p : ClaimRecord V) (use : ReplicaUse V) (h : p.Exclusive) : (p.step use).Exclusive := by
  cases use with
  | op op => exact exclusive_op h op
  | restart config =>
    rcases step_restart p config with heq | ⟨hsound, heq⟩
    · rwa [heq]
    · rw [heq]
      exact ⟨⟨hsound, h.spaced.placed, h.spaced.ahead⟩, h.once, h.returned, h.applied⟩

private theorem openProposals_step {n : Nat} (p : ClaimRecord V) (use : ReplicaUse V)
    (h : p.Exclusive ∧ p.replica.config.pipelineLen ≤ n ∧ p.replica.openProposals ≤ n)
    (huse : ∀ config, use = .restart config → config.pipelineLen ≤ n) :
    (p.step use).Exclusive ∧ (p.step use).replica.config.pipelineLen ≤ n ∧ (p.step use).replica.openProposals ≤ n := by
  refine ⟨exclusive_step p use h.1, ?_⟩
  cases use with
  | op op =>
    have hconfig : (p.replica.perform op).config = p.replica.config :=
      ReplicaCore.serve_invariant (fun _ _ heq hc => hc.config_eq.trans heq) p.replica (.op op) rfl
    have hopen := (h.1.spaced.perform op).2
    exact ⟨hconfig ▸ h.2.1, hopen.trans (max_le h.2.2 h.2.1)⟩
  | restart config =>
    rcases step_restart p config with heq | ⟨_, heq⟩
    · rw [heq]
      exact h.2
    · rw [heq]
      exact ⟨huse config rfl, h.2.2⟩

/-- No slot is given out twice, none that is decided or behind the frontier is given out, the open
proposals keep to the length of the pipeline, and no value waits in two places. -/
theorem slots_are_claimed_once (config : ReplicaConfig) (uses : List (ReplicaUse V)) :
    let p := run step (start config : ClaimRecord V) uses
    p.returned.Nodup ∧
    (∀ slot values r, ReplicaCore.nextProposal p.replica = .ok (some (slot, values)) r →
      slot ∉ p.returned ∧ p.replica.committedThrough < slot ∧ p.replica.decisionAt slot = none ∧
        ∀ d ∈ p.applied, d.slot ≠ slot) ∧
    (∀ n, config.pipelineLen ≤ n → (∀ limits, .restart limits ∈ uses → limits.pipelineLen ≤ n) →
      p.replica.openProposals ≤ n) ∧
    (p.replica.pending ++ p.replica.offered).Nodup := by
  intro p
  have h : p.Exclusive := run_invariant_all exclusive_step (exclusive_start config) uses
  refine ⟨h.once, fun slot values r heq => ?_, fun n hn huses => ?_, h.spaced.placed.nodup⟩
  · have harm := ReplicaCore.armed_of_nextProposal heq
    have hfree := harm.free
    have hopen := h.spaced.undecided_of_free harm.lowest.frontier harm.isOpen
    have hpos : 0 < p.replica.nextCommit := Nat.zero_lt_of_lt h.spaced.sound.frontier
    refine ⟨fun hmem => hfree (h.returned slot hmem), (Nat.sub_lt hpos Nat.one_pos).trans_le hopen.ahead, ?_, ?_⟩
    · rw [← ReplicaCore.entry_decision]
      exact (ReplicaCore.undecided_entry hopen).1
    · rintro d hd rfl
      exact hfree (h.applied d hd)
  · have hlimits : ∀ use ∈ uses, ∀ limits, use = .restart limits → limits.pipelineLen ≤ n := by
      rintro _ hmem limits rfl
      exact huses limits hmem
    have hrun : Along step (fun _ use => ∀ limits, use = .restart limits → limits.pipelineLen ≤ n)
      (start config : ClaimRecord V) uses :=
      Along.of_mem hlimits _
    have hstart : (start config : ClaimRecord V).replica.openProposals ≤ n := Nat.zero_le n
    exact (run_invariant openProposals_step ⟨exclusive_start config, hn, hstart⟩ hrun).2.2

/-- The value that loses slot 1 goes back to the queue, and after a restart it gets slot 2. -/
example :
    let p := run step (start ⟨1, 1, 10, 10, 10⟩ : ClaimRecord Nat) [.op (.enqueue [10, 20]), .op .nextProposal,
      .op (.applyDecision ⟨1, [30], 2, 4⟩), .restart ⟨1, 1, 10, 10, 10⟩, .op .nextProposal, .op .nextProposal]
    p.returned = [1, 2] ∧ p.replica.pending = [20] ∧ p.replica.offered = [10] := by decide +kernel

end
end ClaimRecord
end QuePaxa
