import QuePaxa.Runtime.Deployment
import QuePaxa.Runtime.Restart

/-! Who has acknowledged which decision. The runtime keeps one record of acknowledgements,
which flushes extend, membership changes cut down, and restarts read back; every entry of it
goes back to an acknowledgement of a recorder that has been a member ever since. -/
namespace QuePaxa
open Library
variable {V : Type}
variable {config : ReplicaRuntimeConfig}

structure Tells (recorder : ReplicaId) (d : Decision V) (past : List (Event V)) (e : Event V) : Prop where
  evidence : e = .informed recorder d (.ok ()) ∨
    ∃ before through s slot told, past = before ++ [.imported through (.ok ())] ∧ e = .saved s (.ok ()) ∧
      s.decisions.get slot = some d ∧ s.announcedTo.get slot = some told ∧ recorder ∈ told
  member : ∀ s, lastSaved (past ++ [e]) = some s → recorder ∈ s.cluster.members

/-- The recorder is in the configuration that the event saves, if any; and the event does not
start the replica anew on an empty store. -/
structure StaysMember (recorder : ReplicaId) (past : List (Event V)) (e : Event V) : Prop where
  saved : ∀ s, e.stored = some s → recorder ∈ s.cluster.members
  started : e = .started → lastSaved past ≠ none

/-- The recorder has acknowledged the decision, and has been a member ever since. -/
def Acknowledged (recorder : ReplicaId) (d : Decision V) : List (Event V) → Prop :=
  Standing (Tells recorder d) (StaysMember recorder)

structure RuntimeSnapshot.Announced (s : RuntimeSnapshot V) (t : List (Event V)) : Prop where
  tracked : ∀ slot told, s.announcedTo.get slot = some told → s.decisions.get slot ≠ none
  members : ∀ slot told, s.announcedTo.get slot = some told → ∀ m ∈ told, m ∈ s.cluster.members
  told : ∀ slot told d, s.announcedTo.get slot = some told → s.decisions.get slot = some d →
    ∀ m ∈ told, Acknowledged m d t

def StoredAnnounced (t : List (Event V)) : Prop := ∀ s, lastSaved t = some s → s.Announced t

section
variable {s s' : RuntimeSnapshot V} {t : List (Event V)} {e : Event V}

theorem RuntimeSnapshot.Announced.concat (h : s.Announced t) (hs : ∀ s', e.stored = some s' → s'.cluster = s.cluster)
    (hstart : e = .started → lastSaved t ≠ none) : s.Announced (t ++ [e]) := by
  refine ⟨h.tracked, h.members, ?_⟩
  intro slot told d hannounced hget m hm
  refine .kept (h.told slot told d hannounced hget m hm) ⟨?_, hstart⟩
  intro s' hs'
  rw [hs s' hs']
  exact h.members slot told hannounced m hm

theorem RuntimeSnapshot.Announced.restrict (h : s.Announced t) (hcluster : s'.cluster = s.cluster)
    (htracked : ∀ slot told, s'.announcedTo.get slot = some told → s'.decisions.get slot ≠ none)
    (ha : ∀ slot told, s'.announcedTo.get slot = some told → told = ∅ ∨ s.announcedTo.get slot = some told)
    (hd : ∀ slot d told, s.announcedTo.get slot = some told → s'.decisions.get slot = some d →
      s.decisions.get slot = some d) :
    s'.Announced t := by
  refine ⟨htracked, ?_, ?_⟩
  · intro slot told hannounced m hm
    rcases ha slot told hannounced with rfl | hold
    · exact absurd hm (Finset.notMem_empty m)
    · exact hcluster ▸ h.members slot told hold m hm
  · intro slot told d hannounced hget m hm
    rcases ha slot told hannounced with rfl | hold
    · exact absurd hm (Finset.notMem_empty m)
    · exact h.told slot told d hold (hd slot d told hold hget) m hm

theorem storedAnnounced_concat (h : Throughout StoredAnnounced t)
    (hs : ∀ s, e.stored = some s → s.Announced (t ++ [e])) :
    Throughout StoredAnnounced (t ++ [e]) := by
  refine throughout_concat.mpr ⟨h, fun s hlast => ?_⟩
  rw [lastSaved, latest_concat] at hlast
  cases he : e.stored with
  | some s' =>
    rw [he] at hlast
    exact Option.some.inj hlast ▸ hs s' he
  | none =>
    rw [he] at hlast
    refine (h.now s hlast).concat (fun s' hs' => ?_) fun _ => ?_
    · rw [he] at hs'
      cases hs'
    · rw [lastSaved, show latest Event.stored t = some s from hlast]
      exact Option.some_ne_none s

end

namespace ReplicaRuntime
variable {env : Environment V} {op : RuntimeOp V} {r₀ r r' : ReplicaRuntime V}

structure Announces (r : ReplicaRuntime V) : Prop where
  recorders : ∀ m, m ∈ r.recorders ↔ m ∈ r.config.members
  saved : ∀ s, lastSaved r.trace = some s → s.cluster = r.config.cluster
  now : r.runtimeSnapshot.Announced r.trace
  past : Throughout StoredAnnounced r.trace

namespace Announces

theorem same (h : Announces r) (hrecorders : r'.recorders = r.recorders) (hconfig : r'.config = r.config)
    (hannounced : r'.announcedTo = r.announcedTo) (hdecisions : r'.decisions = r.decisions)
    (htrace : r'.trace = r.trace) :
    Announces r' := by
  refine ⟨?_, ?_, ?_, htrace ▸ h.past⟩
  · rw [hrecorders, hconfig]
    exact h.recorders
  · rw [htrace, hconfig]
    exact h.saved
  · rw [htrace]
    refine h.now.restrict (congrArg ReplicaRuntimeConfig.cluster hconfig) ?_ ?_ ?_
    · simp only [runtimeSnapshot, hannounced, hdecisions]
      exact h.now.tracked
    · simp only [runtimeSnapshot, hannounced]
      exact fun slot told hget => .inr hget
    · simp only [runtimeSnapshot, hdecisions]
      exact fun slot d told _ hget => hget

theorem log {e : Event V} (h : Announces r) (hs : e.stored = none) (hstart : e ≠ .started) : Announces (r.log e) := by
  have hnone : ∀ s, e.stored ≠ some s := by
    intro s
    rw [hs]
    exact (Option.some_ne_none s).symm
  refine ⟨h.recorders, ?_, ?_, ?_⟩
  · intro s hlast
    rw [lastSaved, show (r.log e).trace = r.trace ++ [e] from rfl, latest_concat, hs] at hlast
    exact h.saved s hlast
  · exact h.now.concat (fun s hs' => absurd hs' (hnone s)) fun he => absurd he hstart
  · exact storedAnnounced_concat h.past fun s hs' => absurd hs' (hnone s)

private theorem save (h : Announces r) (result : Result Unit) :
    Announces (r.log (.saved r.runtimeSnapshot result)) := by
  cases result with
  | error e => exact h.log rfl fun he => nomatch he
  | ok u =>
    have hnow : r.runtimeSnapshot.Announced (r.trace ++ [.saved r.runtimeSnapshot (.ok ())]) :=
      h.now.concat (fun s hs => Option.some.inj hs ▸ rfl) fun he => nomatch he
    refine ⟨h.recorders, ?_, hnow, ?_⟩
    · intro s hlast
      rw [lastSaved, show (r.log (.saved r.runtimeSnapshot (.ok u))).trace = r.trace ++
        [.saved r.runtimeSnapshot (.ok ())] from rfl,
        latest_concat] at hlast
      exact Option.some.inj hlast ▸ rfl
    · exact storedAnnounced_concat h.past fun s hs => Option.some.inj hs ▸ hnow

private theorem acknowledged {slot : SlotIndex} {d : Decision V} {recorder : ReplicaId} (h : Announces r)
    (hget : r.decisions.get slot = some d) (hknown : recorder ∈ r.recorders) :
    Announces { r.log (.informed recorder d (.ok ())) with
      announcedTo := r.announcedTo.insert slot (insert recorder ((r.announcedTo.get slot).getD ∅)) } := by
  have hlogged := h.log (e := .informed recorder d (.ok ())) rfl fun he => nomatch he
  have hmember : recorder ∈ r.config.members := (h.recorders recorder).mp hknown
  have hfresh : Acknowledged recorder d (r.trace ++ [.informed recorder d (.ok ())]) := by
    refine .made ⟨.inl rfl, fun s hlast => ?_⟩
    rw [hlogged.saved s hlast]
    exact hmember
  -- what was recorded before, or the recorder itself
  have hcases : ∀ k told, (r.announcedTo.insert slot (insert recorder ((r.announcedTo.get slot).getD ∅))).get k =
    some told →
      ∀ m ∈ told, (k = slot ∧ m = recorder) ∨ ∃ before, r.announcedTo.get k = some before ∧ m ∈ before := by
    intro k told hk m hm
    rw [OrderedMap.get_insert] at hk
    split_ifs at hk with hslot
    · subst hslot
      cases hk
      rcases Finset.mem_insert.mp hm with hm | hm
      · exact .inl ⟨rfl, hm⟩
      · cases hold : r.announcedTo.get k with
        | none =>
          rw [hold] at hm
          exact absurd hm (Finset.notMem_empty m)
        | some before =>
          rw [hold] at hm
          exact .inr ⟨before, rfl, hm⟩
    · exact .inr ⟨told, hk, hm⟩
  refine ⟨hlogged.recorders, hlogged.saved, ⟨?_, ?_, ?_⟩, hlogged.past⟩
  · intro k told hk
    by_cases hslot : k = slot
    · show r.decisions.get k ≠ none
      rw [hslot, hget]
      exact Option.some_ne_none d
    · apply hlogged.now.tracked k told
      exact (if_neg hslot).symm.trans ((OrderedMap.get_insert ..).symm.trans hk)
  · intro k told hk m hm
    rcases hcases k told hk m hm with ⟨_, rfl⟩ | ⟨before, hold, hm⟩
    · exact hmember
    · exact hlogged.now.members k before hold m hm
  · intro k told d' hk hd m hm
    rcases hcases k told hk m hm with ⟨rfl, rfl⟩ | ⟨before, hold, hm⟩
    · have hsame : d' = d := Option.some.inj (hd.symm.trans hget)
      exact hsame ▸ hfresh
    · exact hlogged.now.told k before d' hold hd m hm

private theorem quiet (h : Announces r) (hq : Quiet env r r') : Announces r' := by
  cases hq with
  | saved => exact h.save _
  | informed | probed | proposed | installing | executeFailed | notifyFailed => exact h.log rfl fun he => nomatch he
  | acknowledged hget hknown => exact h.acknowledged hget hknown
  | @notified d => exact (h.log (e := .notified d (.ok ())) rfl fun he => nomatch he).same rfl rfl rfl rfl rfl
  | @executed d => exact (h.log (e := .executed d (.ok ())) rfl fun he => nomatch he).same rfl rfl rfl rfl rfl
  | counted | scheduled | timed | observed => exact h.same rfl rfl rfl rfl rfl

/-- The record is cut down to the members of the next epoch, and saved with it. -/
theorem reconfigured {change : MembershipChange V} {next : List ReplicaId} (h : Announces r)
    (hnext : ∀ m, m ∈ next ↔ m ∈ change.next.members) :
    Announces ((r.reconfigured change next).log (.saved (r.reconfigured change next).runtimeSnapshot (.ok ()))) := by
  have hcut : ∀ slot told, (r.announcedTo.mapValues (· ∩ change.next.members.toFinset)).get slot = some told →
      ∃ before, r.announcedTo.get slot = some before ∧ told = before ∩ change.next.members.toFinset := by
    intro slot told hget
    rw [OrderedMap.get_mapValues, Option.map_eq_some_iff] at hget
    obtain ⟨before, hold, rfl⟩ := hget
    exact ⟨before, hold, rfl⟩
  have hnow : (r.reconfigured change next).runtimeSnapshot.Announced
      (r.trace ++ [.saved (r.reconfigured change next).runtimeSnapshot (.ok ())]) := by
    refine ⟨?_, ?_, ?_⟩
    · intro slot told hget
      obtain ⟨before, hold, _⟩ := hcut slot told hget
      exact h.now.tracked slot before hold
    · intro slot told hget m hm
      obtain ⟨before, _, rfl⟩ := hcut slot told hget
      exact List.mem_toFinset.mp (Finset.mem_inter.mp hm).2
    · intro slot told d hget hd m hm
      obtain ⟨before, hold, rfl⟩ := hcut slot told hget
      obtain ⟨hm, hstays⟩ := Finset.mem_inter.mp hm
      refine .kept (h.now.told slot before d hold hd m hm) ⟨fun s hs => ?_, fun he => nomatch he⟩
      exact Option.some.inj hs ▸ List.mem_toFinset.mp hstays
  refine ⟨hnext, ?_, hnow, ?_⟩
  · intro s hlast
    rw [lastSaved, show ((r.reconfigured change next).log
      (.saved (r.reconfigured change next).runtimeSnapshot (.ok ()))).trace =
      r.trace ++ [.saved (r.reconfigured change next).runtimeSnapshot (.ok ())] from rfl, latest_concat] at hlast
    exact Option.some.inj hlast ▸ rfl
  · exact storedAnnounced_concat h.past fun s hs => Option.some.inj hs ▸ hnow

private theorem pruned (h : Announces r) (slot : SlotIndex) : Announces (r.pruned slot) := by
  have hkept : ∀ k told, (r.pruned slot).announcedTo.get k = some told → slot < k ∧
    r.announcedTo.get k = some told := by
    intro k told hk
    obtain ⟨hk, hlt⟩ := (OrderedMap.get_retain ..).mp hk
    exact ⟨of_decide_eq_true hlt, hk⟩
  refine ⟨h.recorders, h.saved, h.now.restrict rfl ?_ ?_ ?_, h.past⟩
  · intro k told hk
    obtain ⟨hlt, hk⟩ := hkept k told hk
    show (r.decisions.retain fun index _ => slot < index).get k ≠ none
    rw [OrderedMap.get_retain_key, if_pos (decide_eq_true hlt)]
    exact h.now.tracked k told hk
  · exact fun k told hk => .inr (hkept k told hk).2
  · exact fun k d told _ hd => ((OrderedMap.get_retain ..).mp hd).1

end Announces

private theorem Announces.decided {d : Decision V} {replica : ReplicaCore V} (h : Announces r)
    (hfresh : r.decisions.get d.slot = none) :
    Announces (retainDecision { r with replica } d) := by
  have huntracked : r.announcedTo.get d.slot = none := by
    cases hget : r.announcedTo.get d.slot with
    | none => rfl
    | some told => exact absurd hfresh (h.now.tracked d.slot told hget)
  have hcases : ∀ k told, (r.announcedTo.orInsert d.slot ∅).get k = some told →
      k = d.slot ∧ told = ∅ ∨ k ≠ d.slot ∧ r.announcedTo.get k = some told := by
    intro k told hk
    rw [OrderedMap.get_orInsert] at hk
    split_ifs at hk with hslot
    · rw [huntracked] at hk
      exact .inl ⟨hslot, (Option.some.inj hk).symm⟩
    · exact .inr ⟨hslot, hk⟩
  refine ⟨h.recorders, h.saved, h.now.restrict rfl ?_ ?_ ?_, h.past⟩
  · intro k told hk
    show (r.decisions.insert d.slot d).get k ≠ none
    rw [OrderedMap.get_insert]
    rcases hcases k told hk with ⟨hslot, _⟩ | ⟨hslot, hold⟩
    · rw [if_pos hslot]
      exact Option.some_ne_none d
    · rw [if_neg hslot]
      exact h.now.tracked k told hold
  · intro k told hk
    rcases hcases k told hk with ⟨_, hempty⟩ | ⟨_, hold⟩
    · exact .inl hempty
    · exact .inr hold
  · intro k d' told hold hget
    have hslot : k ≠ d.slot := by
      rintro rfl
      exact h.now.tracked _ told hold hfresh
    exact (if_neg hslot).symm.trans ((OrderedMap.get_insert ..).symm.trans hget)

/-- The record of a slot that may be given up has every member. -/
theorem Announces.acknowledged_of_announced {slot k : SlotIndex} {d : Decision V} (h : Announces r)
    (hannounced : r.ensureFullyAnnounced slot = .ok ()) (hget : r.decisions.get k = some d) (hk : k ≤ slot) :
    ∀ m ∈ r.config.members, Acknowledged m d r.trace := by
  intro m hm
  simp only [ensureFullyAnnounced, require_eq_ok] at hannounced
  have hcovered : k ∈ (r.decisions.upTo slot).keys :=
    OrderedMap.mem_keys_of_get ((OrderedMap.get_upTo ..).mpr ⟨hget, hk⟩)
  exact h.now.told k _ d (hannounced k hcovered) hget m (List.mem_toFinset.mpr hm)

private theorem Booted.announces {t : List (Event V)} (h : Booted config (lastSaved t) r)
    (htrace : r.trace = t ++ [.started]) (hrecorders : ∀ m, m ∈ r.recorders ↔ m ∈ r.config.members)
    (hpast : Throughout StoredAnnounced t) : Announces r := by
  have hlast : lastSaved r.trace = lastSaved t := by
    rw [htrace, lastSaved, latest_concat]
    rfl
  refine ⟨hrecorders, ?_, ?_, ?_⟩
  · intro s hs
    rw [← h.loaded s (hlast ▸ hs)]
    rfl
  · rw [htrace]
    cases hstored : lastSaved t with
    | some s =>
      rw [h.loaded s hstored]
      refine (hpast.now s hstored).concat (fun s hs => nomatch hs) fun _ => ?_
      rw [hstored]
      exact Option.some_ne_none s
    | none =>
      have hempty : r.runtimeSnapshot.announcedTo = ∅ := (h.empty hstored).2.2.2.2.2.1
      have hnone : ∀ slot told, r.runtimeSnapshot.announcedTo.get slot ≠ some told := by
        intro slot told
        rw [hempty]
        exact (Option.some_ne_none told).symm
      refine ⟨?_, ?_, ?_⟩
      · exact fun slot told hget => absurd hget (hnone slot told)
      · exact fun slot told hget => absurd hget (hnone slot told)
      · exact fun slot told d hget => absurd hget (hnone slot told)
  · rw [htrace]
    exact storedAnnounced_concat hpast fun s hs => nomatch hs

variable [DecidableEq V]

private theorem mem_of_validateRecordersForCluster {cluster : ClusterIdentity} {recorders : List ReplicaId}
    (h : validateRecordersForCluster cluster recorders = .ok ()) (m : ReplicaId) :
    m ∈ recorders ↔ m ∈ cluster.members := by
  simp only [validateRecordersForCluster, unit_bind_eq_ok, require_eq_ok] at h
  rw [← List.mem_toFinset, h.2, List.mem_toFinset]

private theorem mem_recorders_of_new {proposer : ProposerCore} {recorders : List ReplicaId}
    {stored : Option (RuntimeSnapshot V)} {trace : List (Event V)}
    (h : new config proposer recorders stored trace = .ok r)
    (m : ReplicaId) : m ∈ r.recorders ↔ m ∈ config.members := by
  simp only [new, except_bind_eq_ok, validateRecorders_eq_ok] at h
  obtain ⟨_, ⟨_, hmembers⟩, _, _, r', hbuild, _, _, hr⟩ := h
  obtain rfl : r' = r := Except.ok.inj hr
  have hrecorders : r'.recorders = recorders := by
    cases stored with
    | none => exact Except.ok.inj hbuild ▸ rfl
    | some s =>
      simp only [rebuild, except_bind_eq_ok] at hbuild
      obtain ⟨_, _, _, _, _, _, hr⟩ := hbuild
      exact Except.ok.inj hr ▸ rfl
  rw [hrecorders, ← List.mem_toFinset, hmembers, List.mem_toFinset]

theorem Announces.move (h : Announces r) (hm : Move env op r r') : Announces r' := by
  cases hm with
  | quiet hq => exact h.quiet hq
  | enqueued | refused | scheduleInstalled => exact h.same rfl rfl rfl rfl rfl
  | decided _ fresh => exact h.decided fresh.new
  | exported | reconfigureFailed => exact h.log rfl fun he => nomatch he
  | @pruned slot => exact h.pruned slot
  | reconnected _ _ valid => exact ⟨mem_of_validateRecordersForCluster valid, h.saved, h.now, h.past⟩
  | reconfigured _ anchored => exact h.reconfigured (mem_of_validateRecordersForCluster anchored.recorders)

theorem Announces.arming (h : Announces r) (ha : Arming r r') : Announces r' := by
  cases ha <;> exact h.same rfl rfl rfl rfl rfl

/-- The record of an installed transfer is about members and retained decisions. -/
theorem announced_of_validateRuntimeComponents {replica : ReplicaCore V} {tuner : EpochTuner}
    {s : RuntimeSnapshot V} (h : validateRuntimeComponents config replica tuner s = .ok ()) (slot : SlotIndex)
    (told : Finset ReplicaId) (hget : s.announcedTo.get slot = some told) :
    s.decisions.get slot ≠ none ∧ ∀ m ∈ told, m ∈ config.members := by
  simp only [validateRuntimeComponents, unit_bind_eq_ok, forM_eq_ok, require_eq_ok] at h
  obtain ⟨_, _, _, _, hannounced⟩ := h
  obtain ⟨hkey, hmembers⟩ := hannounced (slot, told) ((OrderedMap.get_eq_some ..).mp hget)
  obtain ⟨d, hd⟩ := (OrderedMap.mem_keys ..).mp hkey
  refine ⟨?_, fun m hm => List.mem_toFinset.mp (hmembers hm)⟩
  rw [hd]
  exact Option.some_ne_none d

private theorem Announces.install (h : Announces r) (incoming : StateTransferSnapshot V) :
    Announces (after (installStateTransfer env incoming) r) := by
  have himported := h.log (e := .imported incoming.through (.ok ())) rfl fun he => nomatch he
  rcases installStateTransfer_cases env incoming r with
    ⟨e, heq⟩ | ⟨e, heq⟩ | ⟨e, heq⟩ | ⟨r', heq, hconfig, hrecorders, _, hsnapshot, hvalid, htrace⟩
  · rw [after_error heq]
    exact h
  · rw [after_error heq]
    exact h.log rfl fun he => nomatch he
  · rw [after_error heq]
    exact himported.log rfl fun he => nomatch he
  · rw [after_ok heq]
    have hcluster : incoming.runtime.cluster = r.config.cluster := by
      rw [← hsnapshot, ← hconfig]
      rfl
    have hlast : ∀ s, lastSaved r'.trace = some s → s = incoming.runtime := by
      intro s hs
      rw [htrace, lastSaved, latest_concat] at hs
      exact (Option.some.inj hs).symm
    have hrecord := announced_of_validateRuntimeComponents hvalid
    have hnow : incoming.runtime.Announced r'.trace := by
      refine ⟨fun slot told hget => (hrecord slot told hget).1, ?_, ?_⟩
      · intro slot told hget m hm
        rw [hcluster]
        exact (hrecord slot told hget).2 m hm
      · intro slot told d hget hd m hm
        rw [htrace]
        refine .made ⟨.inr ⟨_, _, _, slot, told, rfl, rfl, hd, hget, hm⟩, fun s hs => ?_⟩
        rw [hlast s (htrace ▸ hs), hcluster]
        exact (hrecord slot told hget).2 m hm
    refine ⟨?_, ?_, hsnapshot ▸ hnow, ?_⟩
    · rw [hrecorders, hconfig]
      exact h.recorders
    · intro s hs
      rw [hlast s hs, hcluster, hconfig]
    · rw [htrace] at hnow ⊢
      exact storedAnnounced_concat himported.past fun s hs => Option.some.inj hs ▸ hnow

/-- Whatever is retained no more was given up by this call, with every member's acknowledgement. -/
def Forgets (op : RuntimeOp V) (r₀ r : ReplicaRuntime V) : Prop :=
  ∀ k d, r₀.decisions.get k = some d → r.decisions.get k = some d ∨
    ∃ slot, op.Prunes slot ∧ k ≤ slot ∧ ∀ m ∈ r.config.members, Acknowledged m d r.trace

private theorem Forgets.move (h : Announces r) (hf : Forgets op r₀ r) (hm : Move env op r r') : Forgets op r₀ r' := by
  intro k d hk
  rcases hf k d hk with hget | ⟨slot, hslot, hle, hacked⟩
  · -- still retained before the move
    have hsame : r'.decisions = r.decisions → r'.decisions.get k = some d := fun heq => heq ▸ hget
    cases hm with
    | quiet hq => exact .inl (hsame hq.samePipeline.decisions)
    | @decided d' ds replica learnt fresh applied =>
      have hslot : k ≠ d'.slot := by
        rintro rfl
        rw [fresh.new] at hget
        cases hget
      exact .inl ((OrderedMap.get_insert ..).trans ((if_neg hslot).trans hget))
    | @pruned slot asked committed idle announced =>
      by_cases hle : k ≤ slot
      · exact .inr ⟨slot, asked, hle, h.acknowledged_of_announced announced hget hle⟩
      · refine .inl ((OrderedMap.get_retain ..).mpr ⟨hget, decide_eq_true (not_le.mp hle)⟩)
    | _ => exact .inl (hsame rfl)
  · refine .inr ⟨slot, hslot, hle, ?_⟩
    have hconfig : r'.config = r.config := by
      cases hm with
      | quiet hq => exact hq.samePipeline.config
      | reconfigured asked =>
        rcases hslot with heq | heq <;> exact nomatch asked.symm.trans heq
      | _ => rfl
    intro m hmember
    have hbefore := hacked m (hconfig ▸ hmember)
    obtain htrace | ⟨e, htrace, hstart, hsaved⟩ := hm.trace
    · exact htrace ▸ hbefore
    · rw [htrace]
      refine .kept hbefore ⟨fun s hs => ?_, fun he => absurd he hstart⟩
      rw [hsaved s hs]
      exact hmember

private theorem Forgets.arming (hf : Forgets op r₀ r) (ha : Arming r r') : Forgets op r₀ r' := by
  cases ha <;> exact hf

end ReplicaRuntime

namespace Deployment
variable [DecidableEq V] {env : Environment V}

private theorem announces_run (env : Environment V) (actions : List (DeploymentAction V)) :
    (run (step env) Process.fresh actions).Upholds ReplicaRuntime.Announces (Throughout StoredAnnounced) := by
  have hall : Along (step env) (fun _ _ => True) Process.fresh actions := Along.of_forall (fun _ _ => trivial) ..
  refine upholds_run (fun r hr => hr.past) (fun t p hcut ht => ht.earlier hcut) ?_ ?_ ?_ ?_ hall
  · exact throughout_nil.mpr fun s hs => nomatch hs
  · exact fun r op hr _ => (ReplicaRuntime.keeps_every_call (fun _ _ => .move) fun _ _ _ => .arming).after hr
  · exact fun r incoming hr _ => hr.install incoming
  · intro t config proposer recorders noop r ht _ hnew
    obtain ⟨hboot, htrace⟩ := ReplicaRuntime.new_booted hnew
    have hrecorders := ReplicaRuntime.mem_recorders_of_new hnew
    have hstart := hboot.announces htrace (hboot.setup ▸ hrecorders) ht
    cases noop with
    | none => exact hstart
    | some value => exact hstart.same rfl rfl rfl rfl rfl

/-- A call that drops a decision is a checkpoint through its slot or a later one, and every
member has acknowledged the decision and has been a member ever since. -/
theorem pruning_requires_acknowledgement (env : Environment V) (actions : List (DeploymentAction V))
    (r : ReplicaRuntime V)
    (hrun : run (step env) Process.fresh actions = .up r) (op : RuntimeOp V) (slot : SlotIndex) (hop : op.Prunes slot)
    (k : SlotIndex) (d : Decision V) (hretained : r.decisions.get k = some d)
    (hdropped : (after (ReplicaRuntime.perform env op) r).decisions.get k = none) :
    k ≤ slot ∧ ∀ m ∈ (after (ReplicaRuntime.perform env op) r).config.members,
      Acknowledged m d (after (ReplicaRuntime.perform env op) r).trace := by
  have hr := announces_run env actions
  rw [hrun] at hr
  have hkeeps : Keeps (fun r' => r'.Announces ∧ ReplicaRuntime.Forgets op r r') (ReplicaRuntime.perform env op) := by
    apply ReplicaRuntime.keeps_every_call
    · exact fun _ _ h hm => ⟨h.1.move hm, h.2.move h.1 hm⟩
    · exact fun _ _ _ h ha => ⟨h.1.arming ha, h.2.arming ha⟩
  have hafter := (hkeeps.after ⟨hr, fun k d hk => .inl hk⟩).2 k d hretained
  rcases hafter with hget | ⟨slot', hslot', hle, hacked⟩
  · rw [hdropped] at hget
    cases hget
  · have hsame : slot' = slot := by
      rcases hop with rfl | rfl <;> rcases hslot' with heq | heq <;> cases heq <;> rfl
    exact ⟨hsame ▸ hle, hacked⟩

/-! Replica 4 joins after slot 1; the slot is given up only when it has acknowledged it too. -/

def joinFour : List (DeploymentAction Nat) :=
  .process (.restart ReplicaRuntime.replicaTwo ⟨2, 0, ProposerConfig.default⟩ [1, 2, 3] none) ::
    ReplicaRuntime.enterJoint.map fun op => .process (.call op)

theorem pruning_requires_acknowledgement_joined :
    ∃ r, run (step Environment.obliging) Process.fresh joinFour = .up r ∧ r.config.members = [1, 2, 3, 4] ∧
      r.decisions.get 1 = some ⟨1, [10], 1, 4⟩ ∧
      (after (ReplicaRuntime.perform .obliging (.checkpointThrough 1)) r).decisions.get 1 = none ∧
      ∀ m ∈ (after (ReplicaRuntime.perform .obliging (.checkpointThrough 1)) r).config.members,
        Acknowledged m ⟨1, [10], 1, 4⟩ (after (ReplicaRuntime.perform .obliging (.checkpointThrough 1)) r).trace := by
  have hjoined : (run (step Environment.obliging) Process.fresh joinFour).passes (fun r =>
      decide (r.config.members = [1, 2, 3, 4] ∧ r.decisions.get 1 = some ⟨1, [10], 1, 4⟩ ∧
        (after (ReplicaRuntime.perform .obliging (.checkpointThrough 1)) r).decisions.get 1 = none)) =
          true := by decide +kernel
  obtain ⟨r, hp, hresult⟩ := Process.up_of_passes hjoined
  obtain ⟨hmembers, hretained, hdropped⟩ := of_decide_eq_true hresult
  have hacked := pruning_requires_acknowledgement .obliging joinFour r hp (.checkpointThrough 1) 1 (.inl rfl) 1 _
    hretained hdropped
  exact ⟨r, hp, hmembers, hretained, hdropped, hacked.2⟩

end Deployment
end QuePaxa
