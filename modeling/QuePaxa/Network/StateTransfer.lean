import QuePaxa.Network.Settled

/-! State transfers. The application checkpoint is exported without the state lock and the
runtime snapshot is taken later under it, so the two agree only if nothing is executed in
between. The state machine is the list of the decisions it has executed; `decode` reads that
list off an application checkpoint. -/
namespace QuePaxa
open Library
variable {V : Type}
variable {d : Decision V}

namespace NetworkConsensusHandler
variable {h h' : NetworkConsensusHandler V} {s s' : RuntimeSnapshot V} {t : List (NetworkEvent V)}
  {decode : List UInt8 → List (Decision V)}

/-- The slots executed so far, each once, are those checkpointed and those marked. -/
structure Counted (s : RuntimeSnapshot V) (executed : List (Decision V)) : Prop where
  settled : s.Settled
  calm : ¬s.replica.Jammed
  lastOpen : s.replica.decisionAt u64Max = none
  within : ∀ k ∈ s.executed, s.replica.checkpointedThrough < k ∧ k < s.replica.nextCommit
  nodup : (executed.map (·.slot)).Nodup
  slots : ∀ k, k ∈ executed.map (·.slot) ↔ 1 ≤ k ∧ k ≤ s.replica.checkpointedThrough ∨ k ∈ s.executed

structure Consistent (decode : List UInt8 → List (Decision V)) (executed : List (Decision V))
    (outgoing : StateTransferSnapshot V) : Prop where
  checkpoint : decode outgoing.applicationCheckpoint = executed
  through : outgoing.runtime.replica.checkpointedThrough = outgoing.through
  counted : Counted outgoing.runtime executed

structure Transfers (decode : List UInt8 → List (Decision V)) (s : RuntimeSnapshot V)
    (t : List (NetworkEvent V)) : Prop where
  counted : Counted s (delivered t)
  past : ∀ past outgoing, past ++ [.transferred outgoing] <+: t → Consistent decode (delivered past) outgoing

theorem delivered_silent {event : NetworkEvent V} (hs : ∀ d result, event ≠ .executed d result) :
    delivered (t ++ [event]) = delivered t := by
  rw [delivered_concat]
  cases event <;> first | exact List.append_nil _ | exact absurd rfl (hs _ _)

private theorem delivered_error {e : QuePaxaError} :
    delivered (t ++ [.executed d (.error e)]) = delivered t := by
  rw [delivered_concat]
  exact List.append_nil _

theorem delivered_ok : delivered (t ++ [.executed d (.ok ())]) = delivered t ++ [d] :=
  delivered_concat ..

theorem Transfers.concat {event : NetworkEvent V} (hi : Transfers decode s t)
    (hd : delivered (t ++ [event]) = delivered t)
    (hs : ∀ outgoing, event ≠ .transferred outgoing) : Transfers decode s (t ++ [event]) := by
  refine ⟨hd ▸ hi.counted, ?_⟩
  intro past outgoing hpast
  rcases concat_prefix_concat.mp hpast with ⟨_, heq⟩ | hpast
  · exact absurd heq.symm (hs outgoing)
  · exact hi.past past outgoing hpast

theorem Counted.same {executed : List (Decision V)} (hc : Counted s executed) (hs : s.replica.SameOutcome s'.replica)
    (hd : s'.decisions = s.decisions) (he : s'.executed = s.executed) : Counted s' executed := by
  refine ⟨hc.settled.same hs hd, fun hj => hc.calm (hs.jammed.mp hj), ?_, ?_, hc.nodup, ?_⟩
  · rw [hs.decisionAt]
    exact hc.lastOpen
  · rw [he, hs.checkpointedThrough, hs.nextCommit]
    exact hc.within
  · rw [he, hs.checkpointedThrough]
    exact hc.slots

theorem observes_transfers (decode : List UInt8 → List (Decision V)) : Observes (Transfers decode) where
  same := fun _ _ _ hi hs hd he => ⟨hi.counted.same hs hd he, hi.past⟩
  note := by
    intro s t event hi note
    refine hi.concat (delivered_silent (NetworkEvent.quiet_of_isNote note).2) ?_
    rintro outgoing rfl
    cases note
  saveFailed := fun _ _ _ _ hi => hi.concat (delivered_silent (by simp)) (by simp)
  saved := fun _ _ hi => hi.concat (delivered_silent (by simp)) (by simp)

theorem observes_delivered (L : List (Decision V)) : Observes fun _ t => delivered t = L where
  same := fun _ _ _ hd _ _ _ => hd
  note := fun _ _ _ hd note => (delivered_silent (NetworkEvent.quiet_of_isNote note).2).trans hd
  saveFailed := fun _ _ _ _ hd => (delivered_silent (by simp)).trans hd
  saved := fun _ _ hd => (delivered_silent (by simp)).trans hd

private theorem Counted.executed {executed : List (Decision V)} (hc : Counted s executed)
    (hlo : s.replica.checkpointedThrough < d.slot) (hhi : d.slot < s.replica.nextCommit) (hnew : d.slot ∉ s.executed)
    (hr : s'.replica = s.replica) (hd : s'.decisions = s.decisions) (he : s'.executed = insert d.slot s.executed) :
    Counted s' (executed ++ [d]) := by
  have hfresh : d.slot ∉ executed.map (·.slot) := by
    rw [hc.slots]
    rintro (⟨_, hle⟩ | hmem)
    · exact absurd hlo (not_lt.mpr hle)
    · exact hnew hmem
  refine ⟨hc.settled.same (hr ▸ .refl _) hd, hr ▸ hc.calm, hr ▸ hc.lastOpen, ?_, ?_, ?_⟩
  · intro k hk
    rw [he] at hk
    rw [hr]
    rcases Finset.mem_insert.mp hk with rfl | hk
    · exact ⟨hlo, hhi⟩
    · exact hc.within k hk
  · rw [List.map_append, List.map_singleton]
    exact List.nodup_append.mpr ⟨hc.nodup, List.nodup_singleton _, fun a ha b hb => by
      rw [List.mem_singleton.mp hb]
      exact fun heq => hfresh (heq ▸ ha)⟩
  · intro k
    rw [List.map_append, List.mem_append, hc.slots, List.map_singleton, List.mem_singleton, hr, he, Finset.mem_insert]
    tauto

theorem transfers_execute (env : NetworkEnvironment V) {ds : List (Decision V)} {r : ReplicaCore V}
    (hds : ∀ d ∈ ds, r.checkpointedThrough < d.slot ∧ d.slot < r.nextCommit) :
    Keeps (fun h => On (Transfers decode) h ∧ h.state.replica = r) (executeDecisions env ds) := by
  apply keeps_executeDecisions
  · rintro h d hd ⟨hi, rfl⟩ hnew
    obtain ⟨hlo, hhi⟩ := hds d hd
    have hc : Counted (h.executes d).snapshot (delivered (h.trace ++ [.executed d (.ok ())])) := by
      rw [delivered_ok]
      exact hi.counted.executed hlo hhi hnew rfl rfl rfl
    refine ⟨⟨hc, ?_⟩, rfl⟩
    intro past outgoing hpast
    rcases concat_prefix_concat.mp hpast with ⟨_, heq⟩ | hpast
    · cases heq
    · exact hi.past past outgoing hpast
  · rintro h d hd e ⟨hi, hr⟩
    exact ⟨hi.concat delivered_error (by simp), hr⟩
  · exact fun h hi => ⟨(observes_transfers decode).on_saved hi.1, hi.2⟩
  · exact fun h s e hi => ⟨(observes_transfers decode).saveFailed _ _ _ e hi.1, hi.2⟩

theorem ready_slots {e : SlotIndex × Decision V} (hs : h.snapshot.Settled)
    (he : e ∈ (h.state.decisions.upTo h.state.replica.committedThrough).entries.filter (·.1 ∉ h.state.executed)) :
    e.2.slot = e.1 ∧ h.state.replica.checkpointedThrough < e.1 ∧ e.1 < h.state.replica.nextCommit := by
  obtain ⟨hget, hle⟩ := (OrderedMap.get_upTo ..).mp ((OrderedMap.get_eq_some ..).mpr (List.mem_of_mem_filter he))
  obtain ⟨hlo, hslot⟩ := hs.retained e.1 e.2 hget
  have hpos : h.state.replica.checkpointedThrough < h.state.replica.nextCommit := hs.ordered.frontier
  exact ⟨hslot, hlo, Nat.lt_of_le_sub_one (Nat.zero_lt_of_lt hpos) hle⟩

theorem transfers_executeReady (env : NetworkEnvironment V) : Keeps (On (Transfers decode)) (executeReady env) := by
  intro h hi
  have hready : ∀ d ∈ ((h.state.decisions.upTo h.state.replica.committedThrough).entries.filter
    (·.1 ∉ h.state.executed)).map (·.2),
      h.state.replica.checkpointedThrough < d.slot ∧ d.slot < h.state.replica.nextCommit := by
    intro d hd
    obtain ⟨e, he, rfl⟩ := List.mem_map.mp hd
    obtain ⟨hslot, hrange⟩ := ready_slots hi.counted.settled he
    exact hslot ▸ hrange
  exact ((transfers_execute env hready).conseq (fun _ h => h) (fun _ _ h => h.1) fun _ _ h => h.1) h ⟨hi, rfl⟩

section
variable [DecidableEq V] {env : NetworkEnvironment V}

def takesOpen (h : NetworkConsensusHandler V) (d : Decision V) : Bool :=
  h.state.decisions.contains d.slot || h.takesLive d && d.slot ≠ u64Max

private theorem transfers_acceptNew (env : NetworkEnvironment V) (now : Instant) (hi : On (Transfers decode) h)
    (hlive : h.takesLive d = true)
    (hlast : d.slot ≠ u64Max) : On (Transfers decode) (after (acceptNew env now d) h) := by
  have hspec := ReplicaCore.triple_applyDecision hi.counted.settled.ordered d h.state.replica rfl
  have hopen : ∀ {ds : List (Decision V)} {replica : ReplicaCore V}, ReplicaCore.Applied h.state.replica d ds replica →
      replica.decisionAt u64Max = none ∧ ¬replica.Jammed := by
    intro ds replica happly
    have hnone : replica.decisionAt u64Max = none := (happly.others u64Max hlast.symm).trans hi.counted.lastOpen
    refine ⟨hnone, fun hj => ?_⟩
    rcases happly.backed hj with hold | hsome
    · exact hi.counted.calm hold
    · rw [hnone] at hsome
      cases hsome
  have hretain : ∀ {ds replica}, ReplicaCore.applyDecision d h.state.replica = .ok ds replica →
      On (Transfers decode) (h.withState ((h.state.withReplica replica).retainDecision d)) := by
    intro ds replica hok
    rw [hok] at hspec
    have hfloor : replica.checkpointedThrough = h.state.replica.checkpointedThrough := hspec.1.checkpointedThrough
    have hgrow : h.state.replica.nextCommit ≤ replica.nextCommit := by
      rw [hspec.1.nextCommit]
      exact Nat.le_add_right _ _
    refine ⟨⟨hi.counted.settled.retain rfl (live_of_ok hlive hok) hspec.1 rfl rfl, (hopen hspec.1).2, (hopen hspec.1).1,
      ?_, hi.counted.nodup, ?_⟩, hi.past⟩
    · intro k hk
      have hold := hi.counted.within k hk
      exact ⟨hfloor ▸ hold.1, hold.2.trans_le hgrow⟩
    · show ∀ k, k ∈ (delivered h.trace).map (·.slot) ↔ 1 ≤ k ∧ k ≤ replica.checkpointedThrough ∨ k ∈ h.state.executed
      rw [hfloor]
      exact hi.counted.slots
  rcases acceptNew_cases env h now d with ⟨ds, s, ⟨replica, hok, hmay⟩, heq⟩ | ⟨e, h', heq, hl⟩ |
    ⟨e, replica, herr, heq⟩ |
    ⟨e, ds, replica, hok, _, heq⟩
  · have hsaved := (observes_transfers decode).on_mayClaim (hretain hok) hmay
    rw [hok] at hspec
    have hds : ∀ e ∈ ds, s.replica.checkpointedThrough < e.slot ∧ e.slot < s.replica.nextCommit := by
      intro e he
      have hsame := hmay.sameOutcome
      have hfloor : s.replica.checkpointedThrough = h.state.replica.checkpointedThrough :=
        hsame.checkpointedThrough.trans hspec.1.checkpointedThrough
      have hnext : s.replica.nextCommit = replica.nextCommit := hsame.nextCommit
      have hfrontier : h.state.replica.checkpointedThrough < h.state.replica.nextCommit :=
        hi.counted.settled.ordered.frontier
      obtain ⟨hlo, hhi⟩ := hspec.1.slot_range he
      rw [hfloor, hnext]
      exact ⟨hfrontier.trans_le hlo, hhi⟩
    have hrun := (transfers_execute env hds).after ⟨hsaved, rfl⟩
    simpa only [after, heq] using hrun.1
  · rw [after_error heq]
    exact (observes_transfers decode).closed.undone hi hl
  · rw [after_error heq]
    rw [herr] at hspec
    rcases hspec with rfl | ⟨⟨ds, happly⟩, hjam⟩
    · exact hi
    · exact absurd hjam (hopen happly).2
  · rw [after_error heq]
    exact hretain hok

private theorem transfers_acceptDecision (now : Instant) (hi : On (Transfers decode) h)
    (htakes : h.takesOpen d = true) :
    On (Transfers decode) (after (acceptDecision env now d) h) := by
  cases hget : h.state.decisions.get d.slot with
  | none =>
    simp only [takesOpen, OrderedMap.contains, hget, Option.isSome_none, Bool.false_or, Bool.and_eq_true,
      decide_eq_true_eq]
      at htakes
    have hnew := transfers_acceptNew env now hi htakes.1 htakes.2
    simpa only [after, acceptDecision_new env h hget] using hnew
  | some existing =>
    rcases acceptDecision_known env h now hget with ⟨e, heq⟩ | heq | ⟨slot, noop, s, hs, _, heq⟩
    · rw [after_error heq]
      exact hi
    · have hready := (transfers_executeReady env).after hi
      simpa only [after, heq] using hready
    · have hready := (transfers_executeReady env).after ((observes_transfers decode).on_claims hi hs)
      simpa only [after, heq] using hready

private theorem transfers_recoverLocked (now : Instant) : Keeps (On (Transfers decode)) (recoverLocked env now) := by
  intro h hi
  rcases recoverLocked_cases env h now with ⟨e, h', heq, hl⟩ | ⟨h₁, hfirst, heq⟩
  · rw [heq]
    exact (observes_transfers decode).closed.undone hi hl
  · rw [heq]
    have hstart : On (Transfers decode) h₁ := by
      rcases hfirst with rfl | ⟨slot, noop, s, hs, rfl⟩
      · exact hi
      · exact (observes_transfers decode).on_saved ((observes_transfers decode).on_claims hi hs)
    exact Keeps.bind (transfers_executeReady env) (fun _ => Keeps.bind Keeps.get fun _ => Keeps.pure _) h₁ hstart

end

private theorem Counted.pruned {slot : SlotIndex} (hc : Counted h.snapshot (delivered t))
    (hcommitted : slot ≤ h.state.replica.committedThrough)
    (hfloor : h.state.replica.checkpointedThrough ≤ slot)
    (hdone : ∀ k ∈ (h.state.decisions.upTo slot).keys, k ∈ h.state.executed) :
    Counted (h.withState (h.state.pruned slot)).snapshot (delivered t) ∧
      (h.state.pruned slot).replica.checkpointedThrough = slot := by
  have hnew : (h.state.replica.pruneThrough slot).checkpointedThrough = slot :=
    (RuntimeSnapshot.checkpointedThrough_prune hcommitted).trans (max_eq_left hfloor)
  have hpos : h.state.replica.checkpointedThrough < h.state.replica.nextCommit := hc.settled.ordered.frontier
  have hmarked : ∀ k, h.state.replica.checkpointedThrough < k → k ≤ slot → k ∈ h.state.executed := by
    intro k hlo hhi
    have hlt : k < h.state.replica.nextCommit := Nat.lt_of_le_sub_one (Nat.zero_lt_of_lt hpos) (hhi.trans hcommitted)
    obtain ⟨d, hget⟩ := Option.isSome_iff_exists.mp (hc.settled.committed_retained hc.calm hlo hlt)
    exact hdone k (OrderedMap.mem_keys_of_get ((OrderedMap.get_upTo ..).mpr ⟨hget, hhi⟩))
  have hjam : ¬(h.state.replica.pruneThrough slot).Jammed := by
    intro hj
    obtain ⟨entry, hget, hcommit⟩ := (Option.any_eq_true _ _).mp hj
    apply hc.calm
    rw [ReplicaSnapshot.Jammed]
    exact (Option.any_eq_true _ _).mpr ⟨entry, ((OrderedMap.get_retain ..).mp hget).1, hcommit⟩
  have hopen : (h.state.replica.pruneThrough slot).decisionAt u64Max = none := by
    cases hget : (h.state.replica.pruneThrough slot).decisionAt u64Max with
    | none => rfl
    | some d =>
      obtain ⟨entry, hentry, hd⟩ := Option.bind_eq_some_iff.mp hget
      have hold : h.state.replica.decisionAt u64Max = some d := by
        rw [ReplicaSnapshot.decisionAt, ((OrderedMap.get_retain ..).mp hentry).1]
        exact hd
      exact absurd (hold.symm.trans hc.lastOpen) (Option.some_ne_none d)
  refine ⟨⟨hc.settled.prune rfl hcommitted rfl rfl, hjam, hopen, ?_, hc.nodup, ?_⟩, hnew⟩
  · intro k hk
    obtain ⟨hold, hlt⟩ := Finset.mem_filter.mp hk
    show (h.state.replica.pruneThrough slot).checkpointedThrough < k ∧ k < h.state.replica.nextCommit
    rw [hnew]
    exact ⟨hlt, (hc.within k hold).2⟩
  · intro k
    show k ∈ (delivered t).map (·.slot) ↔
      1 ≤ k ∧ k ≤ (h.state.replica.pruneThrough slot).checkpointedThrough ∨ k ∈ h.state.executed.filter (slot < ·)
    rw [hnew, hc.slots, Finset.mem_filter]
    have hold := hmarked k
    have hwithin := hc.within k
    show 1 ≤ k ∧ k ≤ h.state.replica.checkpointedThrough ∨ k ∈ h.state.executed ↔ _
    constructor
    · rintro (⟨h1, hle⟩ | hmem)
      · exact .inl ⟨h1, hle.trans hfloor⟩
      · by_cases hle : k ≤ slot
        · exact .inl ⟨Nat.one_le_of_lt (hwithin hmem).1, hle⟩
        · exact .inr ⟨hmem, not_le.mp hle⟩
    · rintro (⟨h1, hle⟩ | ⟨hmem, _⟩)
      · by_cases hbelow : k ≤ h.state.replica.checkpointedThrough
        · exact .inl ⟨h1, hbelow⟩
        · exact .inr (hold (not_le.mp hbelow) hle)
      · exact .inr hmem

private theorem delivers_execute (env : NetworkEnvironment V) {ds : List (Decision V)}
    (hnodup : (ds.map (·.slot)).Nodup)
    (hnew : ∀ d ∈ ds, d.slot ∉ h.state.executed) : Triple (· = h) (executeDecisions env ds)
      (fun _ h' => delivered h'.trace = delivered h.trace ++ ds ∧ h'.state.replica = h.state.replica)
        fun _ _ => True := by
  -- what is done so far, as the first part of the list
  let J (rest : List (Decision V)) (h' : NetworkConsensusHandler V) : Prop := ∃ done, ds = done ++ rest ∧
    delivered h'.trace = delivered h.trace ++ done ∧ h'.state.replica = h.state.replica ∧
    ∀ k ∈ h'.state.executed, k ∈ h.state.executed ∨ k ∈ done.map (·.slot)
  have hone : ∀ d rest, Triple (J (d :: rest)) (executeOne env d) (fun _ => J rest) fun _ _ => True := by
    rintro d rest h' ⟨done, rfl, hdone, hr, hmarks⟩
    have hfresh : d.slot ∉ h'.state.executed := by
      intro hmem
      rcases hmarks d.slot hmem with hold | hbefore
      · exact hnew d (List.mem_append_right _ List.mem_cons_self) hold
      · rw [List.map_append, List.map_cons] at hnodup
        exact (List.nodup_append.mp hnodup).2.2 d.slot hbefore d.slot List.mem_cons_self rfl
    rcases executeOne_cases env h' d with ⟨hmem, _⟩ | ⟨_, ⟨e, heq⟩ | heq | ⟨e, heq⟩⟩
    · exact absurd hmem hfresh
    · rw [heq]
      trivial
    · rw [heq]
      refine ⟨done ++ [d], by rw [List.append_assoc]; rfl, ?_, hr, ?_⟩
      · show delivered (h'.trace ++ [.executed d (.ok ())] ++ [.saved _ (.ok ())]) = _
        rw [delivered_silent (by simp), delivered_ok, hdone, List.append_assoc]
      · intro k hk
        rw [List.map_append, List.mem_append]
        rcases Finset.mem_insert.mp hk with rfl | hk
        · exact .inr (.inr List.mem_cons_self)
        · rcases hmarks k hk with hold | hbefore
          · exact .inl hold
          · exact .inr (.inl hbefore)
    · rw [heq]
      trivial
  intro h' hh'
  have hstart : J ds h' := ⟨[], rfl, by rw [hh', List.append_nil], by rw [hh'], fun k hk => .inl (hh' ▸ hk)⟩
  have hend := Triple.forM hone ds h' hstart
  rw [executeDecisions]
  cases hx : ds.forM (executeOne env) h' with
  | error e h'' => trivial
  | ok u h'' =>
    rw [hx] at hend
    obtain ⟨done, hds, hdone, hr, _⟩ := hend
    rw [List.append_nil] at hds
    exact ⟨hds ▸ hdone, hr⟩

private theorem delivers_executeReady {env : NetworkEnvironment V} {executed : List (Decision V)}
    (hc : Counted h.snapshot executed) {u : Unit}
    (hx : executeReady env h = .ok u h') : ∃ fresh, delivered h'.trace = delivered h.trace ++ fresh ∧
      ((executed ++ fresh).map (·.slot)).Nodup ∧
      ∀ k, k ∈ (executed ++ fresh).map (·.slot) ↔ 1 ≤ k ∧ k ≤ h'.state.replica.committedThrough := by
  let ready := (h.state.decisions.upTo h.state.replica.committedThrough).entries.filter (·.1 ∉ h.state.executed)
  have hslots : (ready.map (·.2)).map (·.slot) = ready.map (·.1) := by
    rw [List.map_map]
    exact List.map_congr_left fun e he => (ready_slots hc.settled he).1
  have hmem : ∀ k, k ∈ ready.map (·.1) ↔
      h.state.replica.checkpointedThrough < k ∧ k < h.state.replica.nextCommit ∧ k ∉ h.state.executed := by
    intro k
    constructor
    · intro hk
      obtain ⟨e, he, rfl⟩ := List.mem_map.mp hk
      obtain ⟨_, hlo, hhi⟩ := ready_slots hc.settled he
      exact ⟨hlo, hhi, by simpa using (List.mem_filter.mp he).2⟩
    · rintro ⟨hlo, hhi, hnew⟩
      obtain ⟨d, hget⟩ := Option.isSome_iff_exists.mp (hc.settled.committed_retained hc.calm hlo hhi)
      have hentry := (OrderedMap.get_upTo ..).mpr ⟨hget, Nat.le_sub_one_of_lt hhi⟩
      exact List.mem_map.mpr ⟨(k, d), List.mem_filter.mpr ⟨(OrderedMap.get_eq_some ..).mp hentry,
        decide_eq_true hnew⟩, rfl⟩
  have hnodup : (ready.map (·.1)).Nodup :=
    ((h.state.decisions.upTo h.state.replica.committedThrough).keys_nodup.sublist (List.filter_sublist.map _))
  have hnew : ∀ d ∈ ready.map (·.2), d.slot ∉ h.state.executed := by
    intro d hd
    have hk : d.slot ∈ ready.map (·.1) := hslots ▸ List.mem_map_of_mem hd
    exact ((hmem d.slot).mp hk).2.2
  have hend := delivers_execute env (hslots ▸ hnodup) hnew h rfl
  have hcall : executeDecisions env (ready.map (·.2)) h = .ok u h' := hx
  rw [hcall] at hend
  obtain ⟨hdelivered, hreplica⟩ := hend
  have hfrontier : h.state.replica.checkpointedThrough < h.state.replica.nextCommit := hc.settled.ordered.frontier
  refine ⟨ready.map (·.2), hdelivered, ?_, ?_⟩
  · rw [List.map_append, hslots]
    refine List.nodup_append.mpr ⟨hc.nodup, hnodup, ?_⟩
    rintro a ha b hb rfl
    obtain ⟨hlo, _, hunmarked⟩ := (hmem a).mp hb
    rcases (hc.slots a).mp ha with ⟨_, hle⟩ | hmarked
    · exact absurd hlo (not_lt.mpr hle)
    · exact hunmarked hmarked
  · intro k
    have hwithin : k ∈ h.state.executed → h.state.replica.checkpointedThrough < k ∧ k < h.state.replica.nextCommit :=
      hc.within k
    have hexecuted : k ∈ executed.map (·.slot) ↔ 1 ≤ k ∧ k ≤ h.state.replica.checkpointedThrough ∨
      k ∈ h.state.executed :=
      hc.slots k
    rw [List.map_append, List.mem_append, hslots, hmem, hexecuted, hreplica, ReplicaCore.committedThrough]
    by_cases hmarked : k ∈ h.state.executed
    · have := hwithin hmarked
      simp only [hmarked, or_true, not_true, and_false, or_false, true_iff]
      lia
    · simp only [hmarked, or_false, not_false_eq_true, and_true]
      lia

section
variable [DecidableEq V] {env : NetworkEnvironment V}

/-- A node that installs a consistent transfer and recovers has every committed slot executed
exactly once. -/
theorem recovers_once {executed : List (Decision V)} {outgoing : StateTransferSnapshot V} {now : Instant}
    {h₁ h₂ : NetworkConsensusHandler V} {pending : List (SlotIndex × List V)} (hc : Counted outgoing.runtime executed)
    (hinstall : installStateTransfer env outgoing h = .ok () h₁)
    (hrecover : recoverLocked env now h₁ = .ok pending h₂) :
    ∃ fresh, delivered h₂.trace = delivered h.trace ++ fresh ∧ ((executed ++ fresh).map (·.slot)).Nodup ∧
      ∀ k, k ∈ (executed ++ fresh).map (·.slot) ↔ 1 ≤ k ∧ k ≤ h₂.state.replica.committedThrough := by
  have hinstalled : delivered h₁.trace = delivered h.trace ∧ Counted h₁.snapshot executed := by
    rcases installStateTransfer_cases env h outgoing with ⟨e, heq⟩ | ⟨e, heq⟩ | ⟨e, heq⟩ | ⟨s, hrestore, _, _, heq⟩
    · rw [heq] at hinstall
      cases hinstall
    · rw [heq] at hinstall
      cases hinstall
    · rw [heq] at hinstall
      cases hinstall
    · rw [heq] at hinstall
      cases hinstall
      have hs := (restore_ok hrestore).1
      have hreplica : s.replica.snapshot = outgoing.runtime.replica := by rw [hs.replica]; rfl
      refine ⟨?_, hc.same (hreplica ▸ .refl _) hs.decisions hs.executed⟩
      show delivered (h.trace ++ [_] ++ [_]) = delivered h.trace
      rw [delivered_silent (by simp), delivered_silent (by simp)]
  rcases recoverLocked_cases env h₁ now with ⟨_, _, herr, _⟩ | ⟨m, hfirst, heq⟩
  · rw [herr] at hrecover
    cases hrecover
  · rw [heq] at hrecover
    obtain ⟨u, m', hready, hlast⟩ := bind_eq_ok.mp hrecover
    cases hlast
    have hm : delivered m.trace = delivered h.trace ∧ Counted m.snapshot executed := by
      rcases hfirst with rfl | ⟨slot, noop, s, hs, rfl⟩
      · exact hinstalled
      · refine ⟨?_, hinstalled.2.same hs.sameOutcome hs.decisions hs.executed⟩
        show delivered (h₁.trace ++ [_]) = delivered h.trace
        rw [delivered_silent (by simp), hinstalled.1]
    rw [← hm.1]
    exact delivers_executeReady hm.2 hready

end
end NetworkConsensusHandler

namespace Task

def mayExecute : Task V → Bool
  | .receiving (_ :: _) | .accepting _ | .recovering => true
  | _ => false

def isSealing : Task V → Bool
  | .sealing _ _ _ => true
  | _ => false

section
open NetworkConsensusHandler
variable [DecidableEq V] {env : NetworkEnvironment V} {h : NetworkConsensusHandler V} {now : Instant}
  {decode : List UInt8 → List (Decision V)}

private theorem seal_transfers (env : NetworkEnvironment V) (now : Instant) {slot : SlotIndex} (ids : Finset V)
    {checkpoint : List UInt8} (hi : On (Transfers decode) h)
    (hcurrent : decode checkpoint = delivered h.trace) (hfloor : h.state.replica.checkpointedThrough ≤ slot)
    (hdone : ∀ k ∈ (h.state.decisions.upTo slot).keys, k ∈ h.state.executed) :
    On (Transfers decode) (after (advance env now (.sealing slot ids checkpoint)) h) ∧
      delivered (after (advance env now (.sealing slot ids checkpoint)) h).trace = delivered h.trace := by
  have hobs := (observes_transfers decode).closed
  have hdel := (observes_delivered (delivered h.trace)).closed
  rcases sealTransfer_cases env h slot ids checkpoint with ⟨e, h', heq, hl⟩ | ⟨hcommitted, _, heq⟩
  · have hafter : after (advance env now (.sealing slot ids checkpoint)) h = h' := by
      simp only [after, advance, bind_apply, heq]
    rw [hafter]
    exact ⟨hobs.undone hi hl, hdel.undone (I := On fun _ t => delivered t = delivered h.trace) rfl hl⟩
  · obtain ⟨hcounted, hthrough⟩ := hi.counted.pruned hcommitted hfloor hdone
    let outgoing : StateTransferSnapshot V := ⟨slot, ids, checkpoint, (h.withState (h.state.pruned slot)).snapshot⟩
    have hafter : after (advance env now (.sealing slot ids checkpoint)) h =
        (h.withState (h.state.pruned slot)).saved.log (.transferred outgoing) := by
      simp only [after, advance, bind_apply, heq, modify_apply]
      rfl
    have hsaved : On (Transfers decode) (h.withState (h.state.pruned slot)).saved :=
      (observes_transfers decode).on_saved ⟨hcounted, hi.past⟩
    have hsame : delivered (h.withState (h.state.pruned slot)).saved.trace = delivered h.trace :=
      delivered_silent (by simp)
    have hlogged : delivered ((h.withState (h.state.pruned slot)).saved.log (.transferred outgoing)).trace =
      delivered h.trace :=
      (delivered_silent (by simp)).trans hsame
    rw [hafter]
    refine ⟨⟨?_, ?_⟩, hlogged⟩
    · rw [hlogged]
      exact hcounted
    · intro past out hpast
      rcases concat_prefix_concat.mp hpast with ⟨rfl, heq⟩ | hpast
      · cases heq
        rw [hsame]
        exact ⟨hcurrent, hthrough, hcounted⟩
      · exact hsaved.past past out hpast

private theorem advance_transfers (env : NetworkEnvironment V) (now : Instant) {task : Task V}
    (hi : On (Transfers decode) h)
    (hinstall : ∀ incoming, task ≠ .install incoming)
    (hseal : task.isSealing = false) (htakes : task.accepts.all h.takesOpen = true) :
    On (Transfers decode) (after (advance env now task) h) ∧
      (task.mayExecute = false → delivered (after (advance env now task) h).trace = delivered h.trace) := by
  have hI : Closed (On (Transfers decode)) := (observes_transfers decode).closed
  by_cases hroutine : task.isRoutine = true
  · refine ⟨(keeps_advance env hI hroutine now).after hi, fun _ => ?_⟩
    have hkeeps := keeps_advance env (observes_delivered (delivered h.trace)).closed hroutine now
    exact hkeeps.after (s := h) rfl
  cases task with
  | receiving decisions =>
    cases decisions with
    | nil => exact absurd rfl hroutine
    | cons d rest =>
      rw [advance, after_bind_pure fun _ => [Task.receiving rest]]
      exact ⟨transfers_acceptDecision now hi htakes, fun hidle => by cases hidle⟩
  | accepting d =>
    rw [advance, after_bind_pure fun _ => []]
    exact ⟨transfers_acceptDecision now hi htakes, fun hidle => by cases hidle⟩
  | recovering =>
    exact ⟨(Keeps.bind (transfers_recoverLocked now) fun pending => Keeps.pure _).after hi, fun hidle => by cases hidle⟩
  | ready slot values leader =>
    have hready : Keeps (fun h' => On (Transfers decode) h' ∧ delivered h'.trace = delivered h.trace)
        (advance env now (.ready slot values leader)) := by
      refine Keeps.bind Keeps.get fun h => Keeps.ite (fun _ => ?_) fun _ => Keeps.pure _
      refine Keeps.bind (Keeps.modify fun h' hi => ?_) fun _ => Keeps.pure _
      exact ⟨hi.1.concat (delivered_silent (by simp)) (by simp), (delivered_silent (by simp)).trans hi.2⟩
    have hafter := hready.after (s := h) ⟨hi, rfl⟩
    exact ⟨hafter.1, fun _ => hafter.2⟩
  | exporting slot ids =>
    have hexport : Keeps (fun h' => On (Transfers decode) h' ∧ delivered h'.trace = delivered h.trace)
        (exportCheckpoint env slot) := by
      refine keeps_exportCheckpoint fun h' result hi => ?_
      exact ⟨hi.1.concat (delivered_silent (by simp)) (by simp), (delivered_silent (by simp)).trans hi.2⟩
    have hafter := (Keeps.bind hexport fun checkpoint => Keeps.pure [Task.sealing slot ids checkpoint]).after (s := h)
      ⟨hi, rfl⟩
    exact ⟨hafter.1, fun _ => hafter.2⟩
  | sealing => cases hseal
  | install incoming => exact absurd rfl (hinstall incoming)
  | _ => exact absurd rfl hroutine

end
end Task

namespace Node
open NetworkConsensusHandler
variable {decode : List UInt8 → List (Decision V)}

def Transfers (decode : List UInt8 → List (Decision V)) : Node V → Prop
  | .up h tasks => On (NetworkConsensusHandler.Transfers decode) h ∧
    ∀ slot ids checkpoint, .sealing slot ids checkpoint ∈ tasks → decode checkpoint = delivered h.trace
  | .down t => t = []

variable [DecidableEq V] {env : NetworkEnvironment V}

/-- Nothing is executed between the export and the last part of a transfer, and the last part
finds every retained decision through its slot executed. Decisions new to the node are live.
There is one lifetime, whose state is not replaced. -/
def undisturbed : Node V → NodeAction V → Bool
  | .up h tasks, .run i _ =>
    match tasks[i]? with
    | some (.install _) => false
    | some (.sealing slot _ _) =>
      h.state.replica.checkpointedThrough ≤ slot && (h.state.decisions.upTo slot).keys.all (· ∈ h.state.executed)
    | some task => (!task.mayExecute || tasks.all (!·.isSealing)) && task.accepts.all h.takesOpen
    | none => true
  | .up _ _, .crash _ _ _ | .up _ _, .reconfigure _ _ (some _) => false
  | _, _ => true

private theorem undisturbed_run {h : NetworkConsensusHandler V} {tasks : List (Task V)} {task : Task V} {i : Nat}
    {now : Instant}
    (here : tasks[i]? = some task) (hun : (Node.up h tasks).undisturbed (.run i now) = true) :
    (∃ slot ids checkpoint, task = .sealing slot ids checkpoint ∧ h.state.replica.checkpointedThrough ≤ slot ∧
      ∀ k ∈ (h.state.decisions.upTo slot).keys, k ∈ h.state.executed) ∨
    (∀ incoming, task ≠ .install incoming) ∧ task.isSealing = false ∧ task.accepts.all h.takesOpen = true ∧
      (task.mayExecute = true → ∀ t ∈ tasks, t.isSealing = false) := by
  simp only [undisturbed, here] at hun
  split at hun
  · cases hun
  · next slot ids checkpoint heq =>
    simp only [Bool.and_eq_true, decide_eq_true_eq, List.all_eq_true] at hun
    exact .inl ⟨slot, ids, checkpoint, Option.some.inj heq, hun.1, hun.2⟩
  · next task' hinstall hsealing heq =>
    obtain rfl := Option.some.inj heq
    simp only [Bool.and_eq_true, Bool.or_eq_true, Bool.not_eq_true', List.all_eq_true] at hun
    refine .inr ⟨hinstall, ?_, hun.2, fun hmay => ?_⟩
    · cases task with
      | sealing slot ids checkpoint => exact absurd rfl (hsealing slot ids checkpoint)
      | _ => rfl
    · exact hun.1.resolve_left (by rw [hmay]; exact Bool.true_eq_false_eq_False)
  · next hnone => cases hnone

private theorem transfers_advance (env : NetworkEnvironment V) {h : NetworkConsensusHandler V} {tasks : List (Task V)}
    {task : Task V} {i : Nat} {now : Instant}
    (here : tasks[i]? = some task) (hn : (Node.up h tasks).Transfers decode)
    (hun : (Node.up h tasks).undisturbed (.run i now) = true) :
    On (NetworkConsensusHandler.Transfers decode) (after (task.advance env now) h) ∧
      ∀ slot ids checkpoint, .sealing slot ids checkpoint ∈ tasks →
        decode checkpoint = delivered (after (task.advance env now) h).trace := by
  obtain ⟨hi, hwaiting⟩ := hn
  rcases undisturbed_run here hun with ⟨slot, ids, checkpoint, rfl, hfloor, hdone⟩ | ⟨hinstall, hseal, htakes, halone⟩
  · have hcurrent := hwaiting slot ids checkpoint (List.mem_of_getElem? here)
    obtain ⟨hafter, hsame⟩ := Task.seal_transfers env now ids hi hcurrent hfloor hdone
    refine ⟨hafter, fun slot' ids' checkpoint' hmem => ?_⟩
    rw [hsame]
    exact hwaiting slot' ids' checkpoint' hmem
  · obtain ⟨hafter, hsame⟩ := Task.advance_transfers env now hi hinstall hseal htakes
    refine ⟨hafter, fun slot ids checkpoint hmem => ?_⟩
    cases hmay : task.mayExecute with
    | true =>
      have hnot := halone hmay _ hmem
      cases hnot
    | false =>
      rw [hsame hmay]
      exact hwaiting slot ids checkpoint hmem

private theorem transfers_step {n : Node V} {a : NodeAction V}
    (hexport : ∀ t slot checkpoint, env.exportCheckpoint t slot = .ok checkpoint → decode checkpoint = delivered t)
    (h : n.Transfers decode) (hun : n.undisturbed a = true) : (n.step env a).Transfers decode := by
  have hstep := step_cases env n a
  generalize n.step env a = n' at hstep ⊢
  cases hstep with
  | idle => exact h
  | @called handler tasks task call =>
    refine ⟨h.1, fun slot ids checkpoint hmem => ?_⟩
    rcases List.mem_append.mp hmem with hold | hnew
    · exact h.2 slot ids checkpoint hold
    · rw [← List.mem_singleton.mp hnew] at call
      cases call
  | @advanced handler handler' tasks next task i now here returned =>
    obtain ⟨hi, hwaiting⟩ := transfers_advance env here h hun
    rw [after_ok returned] at hi hwaiting
    refine ⟨hi, fun slot ids checkpoint hmem => ?_⟩
    rcases List.mem_append.mp hmem with hold | hnew
    · exact hwaiting slot ids checkpoint (List.mem_of_mem_eraseIdx hold)
    · cases Task.follows_of_advance returned _ hnew with
      | exported result logged =>
        rw [logged]
        exact (hexport _ _ _ result).trans (delivered_silent (by simp)).symm
  | @failed handler handler' tasks task i now e here failure =>
    obtain ⟨hi, hwaiting⟩ := transfers_advance env here h hun
    rw [after_error failure] at hi hwaiting
    exact ⟨hi, fun slot ids checkpoint hmem => hwaiting slot ids checkpoint (List.mem_of_mem_eraseIdx hmem)⟩
  | @notified handler tasks i slot values leader here =>
    refine ⟨h.1, fun slot ids checkpoint hmem => ?_⟩
    rcases List.mem_append.mp hmem with hold | hnew
    · exact h.2 slot ids checkpoint (List.mem_of_mem_eraseIdx hold)
    · cases List.mem_singleton.mp hnew
  | dropped i => exact ⟨h.1, fun slot ids checkpoint hmem => h.2 slot ids checkpoint (List.mem_of_mem_eraseIdx hmem)⟩
  | crashed | halted => cases hun
  | @reconfigured handler change next =>
    exact ⟨((observes_transfers decode).on_installMembership env change next).after h.1,
      fun _ _ _ hmem => by cases hmem⟩
  | reconfigureCrashed => cases hun
  | @restarted trace config recorders handler noop new =>
    obtain rfl : trace = [] := h
    obtain ⟨htrace, ⟨_, hs⟩ | ⟨s, hsome, _⟩⟩ := new_ok new
    swap
    · cases hsome
    have hreplica : handler.snapshot.replica = (ReplicaCore.new config.replica).snapshot := by
      simp only [snapshot, hs]; rfl
    have hdecisions : handler.snapshot.decisions = ∅ := by simp only [snapshot, hs]; rfl
    have hexecuted : handler.snapshot.executed = ∅ := by simp only [snapshot, hs]; rfl
    have hwhole := RuntimeSnapshot.whole_new config.replica hreplica hdecisions
    refine ⟨?_, fun _ _ _ hmem => by cases hmem⟩
    show NetworkConsensusHandler.Transfers decode handler.snapshot handler.trace
    rw [htrace]
    refine ⟨⟨hwhole.settled, hwhole.calm, ?_, ?_, List.nodup_nil, ?_⟩, ?_⟩
    · rw [hreplica, ReplicaSnapshot.decisionAt, ReplicaCore.snapshot, RuntimeSnapshot.get_new (by decide)]
      rfl
    · rw [hexecuted]
      exact fun k hk => absurd hk (Finset.notMem_empty k)
    · rw [hexecuted, hwhole.floor]
      intro k
      refine ⟨fun hk => absurd hk List.not_mem_nil, ?_⟩
      rintro (⟨hlo, hhi⟩ | hk)
      · exact absurd (hlo.trans hhi) (by decide)
      · exact absurd hk (Finset.notMem_empty k)
    · intro past outgoing hpast
      have hlen := hpast.length_le
      obtain ⟨rest, hrest⟩ := hpast
      cases past with
      | nil => cases hrest
      | cons e past => simp at hlen

/-- A transfer that is handed out holds exactly the executed decisions that its runtime half
accounts for, and whoever installs it and recovers has every committed slot executed once. -/
theorem transfers_are_consistent (env : NetworkEnvironment V) (decode : List UInt8 → List (Decision V))
    (hexport : ∀ t slot checkpoint, env.exportCheckpoint t slot = .ok checkpoint → decode checkpoint = delivered t)
    (actions : List (NodeAction V)) (hrun : Along (step env) (fun n a => n.undisturbed a = true) fresh actions)
    (past : List (NetworkEvent V)) (outgoing : StateTransferSnapshot V)
    (hpast : past ++ [.transferred outgoing] <+: (run (step env) fresh actions).trace) :
    decode outgoing.applicationCheckpoint =
      (delivered past).filter (fun d => d.slot ≤ outgoing.through ∨ d.slot ∈ outgoing.runtime.executed) ∧
    ∀ (env' : NetworkEnvironment V) (now : Instant) (pending : List (SlotIndex × List V))
      (h h₁ h₂ : NetworkConsensusHandler V),
      installStateTransfer env' outgoing h = .ok () h₁ → recoverLocked env' now h₁ = .ok pending h₂ →
      ∃ recovered, delivered h₂.trace = delivered h.trace ++ recovered ∧
        ((decode outgoing.applicationCheckpoint ++ recovered).map (·.slot)).Nodup ∧
        ∀ k, k ∈ (decode outgoing.applicationCheckpoint ++ recovered).map (·.slot) ↔
          1 ≤ k ∧ k ≤ h₂.state.replica.committedThrough := by
  have hfresh : (fresh : Node V).Transfers decode := rfl
  have hend := run_invariant (fun n a => transfers_step hexport) hfresh hrun
  have hconsistent : Consistent decode (delivered past) outgoing := by
    generalize run (step env) fresh actions = n at hend hpast
    cases n with
    | up h tasks => exact hend.1.past past outgoing hpast
    | down trace =>
      rw [show (Node.down trace).trace = [] from hend] at hpast
      exact absurd (List.prefix_nil.mp hpast) (List.append_ne_nil_of_right_ne_nil _ (List.cons_ne_nil _ []))
  obtain ⟨hcheckpoint, hthrough, hcounted⟩ := hconsistent
  rw [hcheckpoint]
  refine ⟨?_, fun env' now pending h h₁ h₂ hinstall hrecover => recovers_once hcounted hinstall hrecover⟩
  symm
  rw [List.filter_eq_self]
  intro d hd
  have hslot := (hcounted.slots d.slot).mp (List.mem_map_of_mem hd)
  rw [hthrough] at hslot
  exact decide_eq_true (hslot.imp_left And.right)

/-! Slot 1 is executed and a transfer of it exported. Slot 2 is executed before the last part
of the transfer, which marks it in the runtime half although the checkpoint lacks it. -/

def decodeSlots (checkpoint : List UInt8) : List (Decision Nat) := checkpoint.map fun slot => slotDecision slot.toNat

def listMachine : NetworkEnvironment Nat :=
  { NetworkEnvironment.obliging with
    exportCheckpoint := fun t _ =>
      let checkpoint := (delivered t).map fun d => UInt8.ofNat d.slot
      if decodeSlots checkpoint = delivered t then .ok checkpoint else .error (.storageError "state machine") }

private theorem decodeSlots_export (t : List (NetworkEvent Nat)) (slot : SlotIndex) (checkpoint : List UInt8)
    (h : listMachine.exportCheckpoint t slot = .ok checkpoint) : decodeSlots checkpoint = delivered t := by
  simp only [listMachine] at h
  split_ifs at h with hsame
  cases h
  exact hsame

def exportFirst : List (NodeAction Nat) :=
  .restart nodeOne [1, 2, 3] none :: receive (slotDecision 1) 0 3 ++ [.call (.transfer 1), .run 0 0, .run 0 0, .run 0 0]

def destination : NetworkConsensusHandler Nat where
  config := { nodeOne with replicaId := 3 }
  recorders := [1, 2, 3]
  noopValue := none
  state := .fresh { nodeOne with replicaId := 3 }
  trace := []

def transferArrives (actions : List (NodeAction Nat))
    (result : StateTransferSnapshot Nat → NetworkConsensusHandler Nat → Bool) :
    Bool :=
  match (run (step listMachine) fresh actions).trace.getLast? with
  | some (.transferred outgoing) =>
    match installStateTransfer listMachine outgoing destination with
    | .ok _ h₁ =>
      match recoverLocked listMachine 0 h₁ with
      | .ok _ h₂ => result outgoing h₂
      | .error _ _ => false
    | .error _ _ => false
  | _ => false

theorem transferArrives_iff {actions : List (NodeAction Nat)}
    {result : StateTransferSnapshot Nat → NetworkConsensusHandler Nat → Bool}
    (h : transferArrives actions result = true) : ∃ past outgoing h₁ h₂ pending,
      past ++ [.transferred outgoing] = (run (step listMachine) fresh actions).trace ∧
      installStateTransfer listMachine outgoing destination = .ok () h₁ ∧
        recoverLocked listMachine 0 h₁ = .ok pending h₂ ∧
      result outgoing h₂ = true := by
  rw [transferArrives] at h
  split at h
  · next outgoing hlast =>
    split at h
    · next u h₁ hinstall =>
      split at h
      · next pending h₂ hrecover =>
        exact ⟨_, outgoing, h₁, h₂, pending, List.dropLast_append_getLast? _ hlast, hinstall, hrecover, h⟩
      · cases h
    · cases h
  · cases h

theorem transfer_misses_an_execution :
    ∃ past outgoing h₁ h₂ pending,
      past ++ [.transferred outgoing] = (run (step listMachine) fresh (exportFirst ++ receive (slotDecision 2) 1 3 ++
        [.run 0 0])).trace ∧
      installStateTransfer listMachine outgoing destination = .ok () h₁ ∧
        recoverLocked listMachine 0 h₁ = .ok pending h₂ ∧
      slotDecision 2 ∈ delivered (past ++ [.transferred outgoing]) ∧ 2 ∈ outgoing.runtime.executed ∧
      slotDecision 2 ∉ decodeSlots outgoing.applicationCheckpoint ∧ h₂.state.replica.committedThrough = 2 ∧
      delivered h₂.trace = [] := by
  have hexecuted : slotDecision 2 ∈
      delivered (run (step listMachine) fresh (exportFirst ++ receive (slotDecision 2) 1 3 ++ [.run 0 0])).trace := by
        decide +kernel
  have harrives : transferArrives (exportFirst ++ receive (slotDecision 2) 1 3 ++ [.run 0 0]) (fun outgoing h₂ =>
      decide (2 ∈ outgoing.runtime.executed ∧ slotDecision 2 ∉ decodeSlots outgoing.applicationCheckpoint ∧
        h₂.state.replica.committedThrough = 2 ∧ delivered h₂.trace = [])) = true := by decide +kernel
  obtain ⟨past, outgoing, h₁, h₂, pending, htrace, hinstall, hrecover, hresult⟩ := transferArrives_iff harrives
  rw [← htrace] at hexecuted
  exact ⟨past, outgoing, h₁, h₂, pending, htrace, hinstall, hrecover, hexecuted, of_decide_eq_true hresult⟩

/-- The last part of the transfer directly follows the export. -/
theorem transfers_are_consistent_alone :
    ∃ past outgoing h₁ h₂ pending,
      past ++ [.transferred outgoing] = (run (step listMachine) fresh (exportFirst ++ [.run 0 0])).trace ∧
      installStateTransfer listMachine outgoing destination = .ok () h₁ ∧
        recoverLocked listMachine 0 h₁ = .ok pending h₂ ∧
      decodeSlots outgoing.applicationCheckpoint = [slotDecision 1] ∧
      ∃ recovered, ((decodeSlots outgoing.applicationCheckpoint ++ recovered).map (·.slot)).Nodup ∧
        ∀ k, k ∈ (decodeSlots outgoing.applicationCheckpoint ++ recovered).map (·.slot) ↔
          1 ≤ k ∧ k ≤ h₂.state.replica.committedThrough := by
  have hrun : Along (step listMachine) (fun n a => n.undisturbed a = true) fresh (exportFirst ++ [.run 0 0]) := by
    decide +kernel
  have harrives : transferArrives (exportFirst ++ [.run 0 0]) (fun outgoing _ =>
      decide (decodeSlots outgoing.applicationCheckpoint = [slotDecision 1])) = true := by decide +kernel
  obtain ⟨past, outgoing, h₁, h₂, pending, htrace, hinstall, hrecover, hresult⟩ := transferArrives_iff harrives
  have hconsistent := transfers_are_consistent listMachine decodeSlots decodeSlots_export _ hrun past outgoing
    (htrace ▸ List.prefix_refl _)
  obtain ⟨recovered, _, hnodup, hslots⟩ := hconsistent.2 listMachine 0 pending destination h₁ h₂ hinstall hrecover
  exact ⟨past, outgoing, h₁, h₂, pending, htrace, hinstall, hrecover, of_decide_eq_true hresult, recovered, hnodup,
    hslots⟩

end Node
end QuePaxa
