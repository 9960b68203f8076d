import Mathlib.Data.List.Range
import QuePaxa.Core.ReplicaFrontier

/-! What the commit loop returns: the decisions of consecutive slots from the old frontier
on, up to the first slot that has none. Proposals do not matter to it, so the log is read
here through its decisions and commit marks only. -/
namespace QuePaxa
open Library
variable {V : Type}
variable {entry : LogSlot V} {s : ReplicaCore V} {d : Decision V}

namespace ReplicaSnapshot

def decisionAt (s : ReplicaSnapshot V) (slot : SlotIndex) : Option (Decision V) := (s.log.get slot).bind (·.decision)

def isCommitted (s : ReplicaSnapshot V) (slot : SlotIndex) : Bool := (s.log.get slot).any (·.committed)

def isClosed (s : ReplicaSnapshot V) (slot : SlotIndex) : Bool := s.isCommitted slot || (s.decisionAt slot).isSome

/-- The commit marks and the frontier are in order, and decisions are stored under their slots. -/
structure Ordered (s : ReplicaSnapshot V) : Prop where
  frontier : s.checkpointedThrough < s.nextCommit
  bound : s.nextCommit ≤ u64Max
  future : ∀ slot, slot ≠ SlotIndex.genesis → s.nextCommit ≤ slot → s.isCommitted slot = true → slot = u64Max
  keyed : ∀ slot d, s.decisionAt slot = some d → d.slot = slot

def Waits (s : ReplicaSnapshot V) : Prop := s.decisionAt s.nextCommit = none ∧ s.isCommitted s.nextCommit = false

structure SameOutcome (s s' : ReplicaSnapshot V) : Prop where
  nextCommit : s'.nextCommit = s.nextCommit
  checkpointedThrough : s'.checkpointedThrough = s.checkpointedThrough
  decisionAt : s'.decisionAt = s.decisionAt
  isCommitted : s'.isCommitted = s.isCommitted

theorem SameOutcome.refl (s : ReplicaSnapshot V) : SameOutcome s s := ⟨rfl, rfl, rfl, rfl⟩

theorem SameOutcome.trans {a b c : ReplicaSnapshot V} (hab : SameOutcome a b) (hbc : SameOutcome b c) :
    SameOutcome a c :=
  ⟨hbc.nextCommit.trans hab.nextCommit, hbc.checkpointedThrough.trans hab.checkpointedThrough,
    hbc.decisionAt.trans hab.decisionAt, hbc.isCommitted.trans hab.isCommitted⟩

variable {s s' : ReplicaSnapshot V}

theorem Ordered.same (h : s.Ordered) (hs : SameOutcome s s') : s'.Ordered := by
  constructor
  · rw [hs.checkpointedThrough, hs.nextCommit]
    exact h.frontier
  · rw [hs.nextCommit]
    exact h.bound
  · rw [hs.nextCommit, hs.isCommitted]
    exact h.future
  · rw [hs.decisionAt]
    exact h.keyed

theorem SameOutcome.jammed (hs : SameOutcome s s') : s'.Jammed ↔ s.Jammed := by
  have hlast : s'.isCommitted u64Max = s.isCommitted u64Max := congrFun hs.isCommitted u64Max
  exact iff_of_eq (congrArg (· = true) hlast)

theorem SameOutcome.waits (hs : SameOutcome s s') : s'.Waits ↔ s.Waits := by
  simp only [Waits, hs.nextCommit, hs.decisionAt, hs.isCommitted]

theorem ordered_new (config : ReplicaConfig) : (ReplicaCore.new config : ReplicaCore V).Ordered := by
  have hget : ∀ slot, slot ≠ SlotIndex.genesis → (ReplicaCore.new config : ReplicaCore V).log.get slot = none := by
    intro slot hne
    simp only [ReplicaCore.new, OrderedMap.get_insert, if_neg hne, OrderedMap.get_emptyCollection]
  constructor
  · exact Nat.one_pos
  · show 1 ≤ u64Max
    decide
  · intro slot hne _ hcommitted
    rw [isCommitted, hget slot hne] at hcommitted
    cases hcommitted
  · intro slot d hd
    by_cases hgenesis : slot = SlotIndex.genesis
    · rw [hgenesis] at hd
      cases hd
    · rw [decisionAt, hget slot hgenesis] at hd
      cases hd

end ReplicaSnapshot

namespace ReplicaCore
open ReplicaSnapshot

theorem decisionAt_insert {s : ReplicaSnapshot V} {slot : SlotIndex} (k : SlotIndex) :
    ReplicaSnapshot.decisionAt { s with log := s.log.insert slot entry } k =
      if k = slot then entry.decision else s.decisionAt k := by
  simp only [decisionAt, OrderedMap.get_insert]
  split_ifs <;> rfl

theorem isCommitted_insert {s : ReplicaSnapshot V} {slot : SlotIndex} (k : SlotIndex) :
    ReplicaSnapshot.isCommitted { s with log := s.log.insert slot entry } k =
      if k = slot then entry.committed else s.isCommitted k := by
  simp only [isCommitted, OrderedMap.get_insert]
  split_ifs <;> rfl

theorem entry_decision (r : ReplicaCore V) (slot : SlotIndex) : (r.entry slot).decision = r.decisionAt slot := by
  simp only [entry, decisionAt]
  cases r.log.get slot <;> rfl

theorem entry_committed (r : ReplicaCore V) (slot : SlotIndex) : (r.entry slot).committed = r.isCommitted slot := by
  simp only [entry, isCommitted]
  cases r.log.get slot <;> rfl

variable {r r' : ReplicaCore V} {ds : List (Decision V)}

structure Advanced (r : ReplicaCore V) (ds : List (Decision V)) (s : ReplicaCore V) : Prop where
  ordered : s.Ordered
  checkpointedThrough : s.checkpointedThrough = r.checkpointedThrough
  decisionAt : s.decisionAt = r.decisionAt
  nextCommit : s.nextCommit = r.nextCommit + ds.length
  slots : ds.map (·.slot) = List.range' r.nextCommit ds.length
  filled : ∀ slot, r.nextCommit ≤ slot → slot < s.nextCommit → (s.decisionAt slot).isSome = true
  jammed : r.Jammed → s.Jammed
  last : s.Jammed → r.Jammed ∨ s.nextCommit = u64Max
  backed : s.Jammed → r.Jammed ∨ (s.decisionAt u64Max).isSome = true
  size : r.log.size ≤ s.log.size

theorem Advanced.refl (h : r.Ordered) : Advanced r [] r :=
  ⟨h, rfl, rfl, rfl, rfl, fun _ hle hlt => absurd hlt (not_lt.mpr hle), fun h => h, .inl, .inl, le_refl _⟩

private theorem decisionAt_marked (here : r.log.get r.nextCommit = some entry) :
    (r.marked entry).decisionAt = r.decisionAt := by
  funext k
  simp only [marked, decisionAt_insert]
  split_ifs with hk
  · rw [hk, ReplicaSnapshot.decisionAt, here]
    rfl
  · rfl

private theorem isCommitted_marked (k : SlotIndex) :
    (r.marked entry).isCommitted k = if k = r.nextCommit then true else r.isCommitted k := by
  simp only [marked, isCommitted_insert]

private theorem jammed_marked (h : r.Jammed) : (r.marked entry).Jammed := by
  show (r.marked entry).isCommitted u64Max = true
  rw [isCommitted_marked]
  split_ifs
  · rfl
  · exact h

private theorem jammed_of_marked (h : (r.marked entry).Jammed) :
    r.Jammed ∨ r.nextCommit = u64Max := by
  have hlast : (r.marked entry).isCommitted u64Max = true := h
  rw [isCommitted_marked] at hlast
  split_ifs at hlast with hslot
  · exact .inr hslot.symm
  · exact .inl hlast

private theorem size_marked (here : r.log.get r.nextCommit = some entry) :
    (r.marked entry).log.size = r.log.size :=
  OrderedMap.size_insert_of_contains _ _ _ ((OrderedMap.contains_iff ..).mpr ⟨entry, here⟩)

private theorem Advanced.commit {s' : ReplicaCore V} {new : List (Decision V)} (h : Advanced r ds s)
    (hc : Commit s new s') : Advanced r (ds ++ new) s' := by
  cases hc with
  | @commit entry d here fresh decision below =>
    have hd : s.decisionAt s.nextCommit = some d := by rw [ReplicaSnapshot.decisionAt, here, Option.bind_some, decision]
    have hdecisions : (s.marked entry).decisionAt = s.decisionAt := decisionAt_marked here
    refine ⟨⟨Nat.lt_succ_of_lt h.ordered.frontier, below, ?_, ?_⟩, h.checkpointedThrough,
      hdecisions.trans h.decisionAt, ?_, ?_, ?_, fun hj => jammed_marked (h.jammed hj), ?_, ?_,
        h.size.trans_eq (size_marked here).symm⟩
    · intro k hne hle hcommitted
      have hk : k ≠ s.nextCommit := Nat.ne_of_gt hle
      have hold : s.isCommitted k = true := by
        have hmark : (s.marked entry).isCommitted k = true := hcommitted
        rwa [isCommitted_marked, if_neg hk] at hmark
      exact h.ordered.future k hne (Nat.le_of_succ_le hle) hold
    · intro k d' hd'
      exact h.ordered.keyed k d' (by rw [← hdecisions]; exact hd')
    · rw [List.length_append, ← Nat.add_assoc, ← h.nextCommit]
      rfl
    · rw [List.map_append, h.slots, List.length_append, List.map_singleton, h.ordered.keyed _ d hd, h.nextCommit,
        List.length_singleton, List.range'_concat, Nat.one_mul]
    · intro k hle hlt
      have hsome : (s.decisionAt k).isSome = true := by
        by_cases hk : k = s.nextCommit
        · rw [hk, hd]
          rfl
        · exact h.filled k hle (lt_of_le_of_ne (Nat.le_of_lt_succ hlt) hk)
      rw [← hdecisions] at hsome
      exact hsome
    · intro hj
      rcases h.last ((jammed_of_marked (r := s) hj).resolve_right (Nat.ne_of_lt below)) with hold | hend
      · exact .inl hold
      · exact absurd hend (Nat.ne_of_lt below)
    · intro hj
      rcases h.backed ((jammed_of_marked (r := s) hj).resolve_right (Nat.ne_of_lt below)) with hold | hsome
      · exact .inl hold
      · rw [← hdecisions] at hsome
        exact .inr hsome
  | @advance entry here committed below =>
    -- nothing at the frontier is committed already, short of the last slot
    have hcommitted : s.isCommitted s.nextCommit = true := by rw [ReplicaSnapshot.isCommitted, here]; exact committed
    have hlast := h.ordered.future _ (Nat.ne_zero_of_lt h.ordered.frontier) (le_refl _) hcommitted
    exact absurd hlast (Nat.ne_of_lt below)

private theorem Advanced.jam {s' : ReplicaCore V} (h : Advanced r ds s) (hj : Jam s s') :
    Advanced r ds s' ∧ s'.Jammed := by
  refine ⟨?_, jammed_of_jam h.ordered.bound hj⟩
  cases hj with
  | @first entry d here fresh decision last =>
    have hlast : s.nextCommit = u64Max := le_antisymm h.ordered.bound (not_lt.mp last)
    have hdecisions : (s.marked entry).decisionAt = s.decisionAt := decisionAt_marked here
    refine ⟨⟨h.ordered.frontier, h.ordered.bound, ?_, ?_⟩, h.checkpointedThrough, hdecisions.trans h.decisionAt,
      h.nextCommit, h.slots, ?_, fun hj => jammed_marked (h.jammed hj), fun _ => .inr hlast, fun _ => .inr ?_,
      h.size.trans_eq (size_marked here).symm⟩
    · intro k hne hle hcommitted
      rw [isCommitted_marked] at hcommitted
      split_ifs at hcommitted with hk
      · exact hk.trans hlast
      · exact h.ordered.future k hne hle hcommitted
    · rw [hdecisions]
      exact h.ordered.keyed
    · rw [hdecisions]
      exact h.filled
    · rw [hdecisions, ← hlast, ReplicaSnapshot.decisionAt, here, Option.bind_some, decision]
      rfl
  | again => exact h

private theorem keysFrom_commit {new : List (Decision V)} (hc : Commit r new r') :
    r'.log.keysFrom r'.nextCommit < r.log.keysFrom r.nextCommit := by
  have hmarked : ∀ {entry : LogSlot V}, r.log.get r.nextCommit = some entry →
      (r.marked entry).log.keysFrom (r.nextCommit + 1) < r.log.keysFrom r.nextCommit := by
    intro entry here
    have hkeys : (r.marked entry).log.keys.toFinset = r.log.keys.toFinset := by
      simp only [marked, OrderedMap.toFinset_keys_insert]
      exact Finset.insert_eq_of_mem (List.mem_toFinset.mpr (OrderedMap.mem_keys_of_get here))
    have hsame : (r.marked entry).log.keysFrom (r.nextCommit + 1) = r.log.keysFrom (r.nextCommit + 1) := by
      simp only [OrderedMap.keysFrom, hkeys]
    rw [hsame]
    exact OrderedMap.keysFrom_lt here (Nat.lt_succ_self _)
  cases hc with
  | commit here => exact hmarked here
  | advance here => exact OrderedMap.keysFrom_lt here (Nat.lt_succ_self _)

private theorem commitStep_stops {acc out : List (Decision V)} (h : commitStep acc r = .ok (.inr out) r') :
    out = acc ∧ r' = r ∧ r.Waits := by
  simp only [commitStep, bind_apply, get_apply] at h
  cases hget : r.log.get r.nextCommit with
  | none =>
    simp only [hget, pure_apply] at h
    cases h
    exact ⟨rfl, rfl, by rw [ReplicaSnapshot.decisionAt, hget]; rfl, by rw [ReplicaSnapshot.isCommitted, hget]; rfl⟩
  | some entry =>
    by_cases hcommitted : entry.committed = true
    · simp only [hget, hcommitted, if_true, bind_apply] at h
      cases hadvance : advance r with
      | ok u s => simp [hadvance] at h
      | error e s => simp [hadvance] at h
    · have hfresh := Bool.eq_false_of_not_eq_true hcommitted
      cases hd : entry.decision with
      | none =>
        simp only [hget, hfresh, Bool.false_eq_true, if_false, hd, pure_apply] at h
        cases h
        refine ⟨rfl, rfl, ?_, ?_⟩
        · rw [ReplicaSnapshot.decisionAt, hget]
          exact hd
        · rw [ReplicaSnapshot.isCommitted, hget]
          exact hfresh
      | some d =>
        simp only [hget, hfresh, Bool.false_eq_true, if_false, hd, bind_apply, set_apply] at h
        split at h
        · simp at h
        · cases h

/-- The commit loop ends where no decision is stored, or fails at the last slot. -/
theorem triple_commitReady (h : r.Ordered) : Triple (· = r) commitReady
    (fun ds s => Advanced r ds s ∧ s.Waits) fun _ s => (∃ ds, Advanced r ds s) ∧ s.Jammed := by
  have hturn : ∀ acc m, Triple (fun s : ReplicaCore V => Advanced r acc s ∧ s.log.keysFrom s.nextCommit ≤ m)
      (commitStep acc) (fun next s => next.elim (fun acc' => Advanced r acc' s ∧ s.log.keysFrom s.nextCommit < m)
        fun out => Advanced r out s ∧ s.Waits) fun _ s => (∃ ds, Advanced r ds s) ∧ s.Jammed := by
    intro acc m s hs
    rcases commitStep_cases acc s with heq | ⟨new, s', heq, hc⟩ | ⟨e, s', heq, hjam⟩
    · rw [heq]
      obtain ⟨_, _, hwaits⟩ := commitStep_stops heq
      exact ⟨hs.1, hwaits⟩
    · rw [heq]
      exact ⟨hs.1.commit hc, (keysFrom_commit hc).trans_le hs.2⟩
    · rw [heq]
      obtain ⟨hadv, hjammed⟩ := hs.1.jam hjam
      exact ⟨⟨acc, hadv⟩, hjammed⟩
  intro start hstart
  rw [hstart]
  exact Triple.loop_variant hturn (r.log.size + 1) [] r ⟨.refl h, r.log.keysFrom_lt_size _⟩

private theorem isClosed_marked (here : r.log.get r.nextCommit = some entry)
    (hclosed : r.isClosed r.nextCommit = true) : (r.marked entry).isClosed = r.isClosed := by
  funext k
  simp only [isClosed, isCommitted_marked, decisionAt_marked here]
  split_ifs with hk
  · rw [hk]
    exact hclosed.symm
  · rfl

private structure Swept (r s : ReplicaCore V) : Prop where
  decisionAt : s.decisionAt = r.decisionAt
  isClosed : s.isClosed = r.isClosed
  bound : s.nextCommit ≤ u64Max
  start : r.nextCommit ≤ s.nextCommit
  passed : ∀ slot, r.nextCommit ≤ slot → slot < s.nextCommit → r.isClosed slot = true

private theorem Swept.next {s' : ReplicaCore V} (h : Swept r s) (hclosed : s.isClosed s.nextCommit = true)
    (hdecisions : s'.decisionAt = s.decisionAt) (hclosed' : s'.isClosed = s.isClosed) (hbelow : s.nextCommit < u64Max)
    (hnext : s'.nextCommit = s.nextCommit + 1) : Swept r s' := by
  refine ⟨hdecisions.trans h.decisionAt, hclosed'.trans h.isClosed, hnext ▸ hbelow, hnext ▸ Nat.le_succ_of_le h.start,
    ?_⟩
  intro slot hle hlt
  rw [hnext] at hlt
  rcases Nat.lt_succ_iff_lt_or_eq.mp hlt with hlt | rfl
  · exact h.passed slot hle hlt
  · rw [← h.isClosed]
    exact hclosed

private theorem Swept.all (h : Swept r s) (hclosed : s.isClosed s.nextCommit = true)
    (hlast : ¬s.nextCommit < u64Max) : ∀ slot, r.nextCommit ≤ slot → slot ≤ u64Max → r.isClosed slot = true := by
  intro slot hle hmax
  rcases (hmax.trans (not_lt.mp hlast)).lt_or_eq with hlt | rfl
  · exact h.passed slot hle hlt
  · rw [← h.isClosed]
    exact hclosed

private theorem isClosed_of_decision (here : r.log.get r.nextCommit = some entry)
    (decision : entry.decision = some d) : r.isClosed r.nextCommit = true := by
  simp [ReplicaSnapshot.isClosed, ReplicaSnapshot.decisionAt, here, decision]

private theorem isClosed_of_committed (here : r.log.get r.nextCommit = some entry)
    (committed : entry.committed = true) : r.isClosed r.nextCommit = true := by
  simp [ReplicaSnapshot.isClosed, ReplicaSnapshot.isCommitted, here, committed]

/-- The commit loop fails exactly when it finds no open slot from the frontier on. -/
theorem triple_commitReady_closed (hbound : r.nextCommit ≤ u64Max) : Triple (· = r) commitReady
    (fun _ _ => ∃ slot, r.nextCommit ≤ slot ∧ slot ≤ u64Max ∧ r.isClosed slot = false)
    fun _ s => s.decisionAt = r.decisionAt ∧ ∀ slot, r.nextCommit ≤ slot → slot ≤ u64Max → r.isClosed slot = true := by
  have hturn : ∀ acc m, Triple (fun s : ReplicaCore V => Swept r s ∧ s.log.keysFrom s.nextCommit ≤ m) (commitStep acc)
      (fun next s => next.elim (fun _ => Swept r s ∧ s.log.keysFrom s.nextCommit < m)
        fun _ => ∃ slot, r.nextCommit ≤ slot ∧ slot ≤ u64Max ∧ r.isClosed slot = false)
      fun _ s => s.decisionAt = r.decisionAt ∧ ∀ slot, r.nextCommit ≤ slot → slot ≤ u64Max →
        r.isClosed slot = true := by
    rintro acc m s ⟨hs, hm⟩
    rcases commitStep_cases acc s with heq | ⟨new, s', heq, hc⟩ | ⟨e, s', heq, hjam⟩
    · rw [heq]
      obtain ⟨_, _, hwaits⟩ := commitStep_stops heq
      refine ⟨s.nextCommit, hs.start, hs.bound, ?_⟩
      rw [← hs.isClosed, ReplicaSnapshot.isClosed, hwaits.1, hwaits.2]
      rfl
    · rw [heq]
      refine ⟨?_, (keysFrom_commit hc).trans_le hm⟩
      cases hc with
      | commit here fresh decision below =>
        have hclosed := isClosed_of_decision here decision
        exact hs.next hclosed (decisionAt_marked here) (isClosed_marked here hclosed) below rfl
      | advance here committed below => exact hs.next (isClosed_of_committed here committed) rfl rfl below rfl
    · rw [heq]
      cases hjam with
      | first here fresh decision last =>
        exact ⟨(decisionAt_marked here).trans hs.decisionAt, hs.all (isClosed_of_decision here decision) last⟩
      | again here committed last => exact ⟨hs.decisionAt, hs.all (isClosed_of_committed here committed) last⟩
  intro start hstart
  rw [hstart]
  have hfirst : Swept r r := ⟨rfl, rfl, hbound, le_refl _, fun _ hle hlt => absurd hlt (not_lt.mpr hle)⟩
  exact Triple.loop_variant hturn (r.log.size + 1) [] r ⟨hfirst, r.log.keysFrom_lt_size _⟩

private theorem commitReady_stored (h : r.Ordered) (hok : commitReady r = .ok ds r') :
    ∀ e ∈ ds, r.decisionAt e.slot = some e := by
  have hturn : ∀ acc, Triple (fun s : ReplicaCore V => Advanced r acc s ∧ ∀ e ∈ acc, r.decisionAt e.slot = some e)
    (commitStep acc)
      (fun next s => next.elim (fun acc' => Advanced r acc' s ∧ ∀ e ∈ acc', r.decisionAt e.slot = some e)
        fun out => ∀ e ∈ out, r.decisionAt e.slot = some e) fun _ _ => True := by
    rintro acc s ⟨hadv, hacc⟩
    rcases commitStep_cases acc s with heq | ⟨new, s', heq, hc⟩ | ⟨e, s', heq, _⟩
    · rw [heq]
      exact hacc
    · rw [heq]
      refine ⟨hadv.commit hc, fun e he => ?_⟩
      rcases List.mem_append.mp he with he | he
      · exact hacc e he
      cases hc with
      | @commit entry d here fresh decision below =>
        rw [List.mem_singleton.mp he]
        have hd : s.decisionAt s.nextCommit = some d := by
          rw [ReplicaSnapshot.decisionAt, here, Option.bind_some, decision]
        rw [← hadv.decisionAt, hadv.ordered.keyed _ d hd]
        exact hd
      | advance => cases he
    · rw [heq]
      trivial
  have hrun := Triple.loop hturn (fun _ _ hs => hs.2) (r.log.size + 1) [] r ⟨.refl h, fun e he => nomatch he⟩
  have hloop : loop commitStep (fun committed => committed) (r.log.size + 1) [] r = .ok ds r' := hok
  rw [hloop] at hrun
  exact hrun

structure Applied (r : ReplicaCore V) (d : Decision V) (ds : List (Decision V)) (s : ReplicaCore V) : Prop where
  ordered : s.Ordered
  checkpointedThrough : s.checkpointedThrough = r.checkpointedThrough
  others : ∀ slot, slot ≠ d.slot → s.decisionAt slot = r.decisionAt slot
  here : (s.decisionAt d.slot).isSome = true
  nextCommit : s.nextCommit = r.nextCommit + ds.length
  slots : ds.map (·.slot) = List.range' r.nextCommit ds.length
  filled : ∀ slot, r.nextCommit ≤ slot → slot < s.nextCommit → (s.decisionAt slot).isSome = true
  jammed : r.Jammed → s.Jammed
  last : s.Jammed → r.Jammed ∨ s.nextCommit = u64Max
  backed : s.Jammed → r.Jammed ∨ (s.decisionAt u64Max).isSome = true
  size : r.log.size ≤ s.log.size

theorem Applied.idle (h : Applied r d ds s) (hwaits : r.Waits) (hne : d.slot ≠ r.nextCommit) : ds = [] := by
  by_contra hds
  have hlt : r.nextCommit < s.nextCommit := by
    rw [h.nextCommit]
    exact Nat.lt_add_of_pos_right (List.length_pos_of_ne_nil hds)
  have hsome := h.filled r.nextCommit (le_refl _) hlt
  rw [h.others _ hne.symm, hwaits.1] at hsome
  cases hsome

theorem Applied.slot_range {e : Decision V} (h : Applied r d ds s) (he : e ∈ ds) :
    r.nextCommit ≤ e.slot ∧ e.slot < s.nextCommit := by
  have hmem : e.slot ∈ List.range' r.nextCommit ds.length := h.slots ▸ List.mem_map_of_mem he
  rw [h.nextCommit]
  exact List.mem_range'_1.mp hmem

theorem sameOutcome_drain (r : ReplicaCore V) (n : Nat) :
    SameOutcome r.snapshot { r.snapshot with pending := r.pending.drop n } := ⟨rfl, rfl, rfl, rfl⟩

section
variable [DecidableEq V]

theorem sameOutcome_proposed (r : ReplicaCore V) (slot : SlotIndex) (values : List V) :
    SameOutcome r.snapshot (r.proposed slot values).snapshot := by
  refine ⟨rfl, rfl, ?_, ?_⟩
  · funext k
    refine (decisionAt_insert (s := r.snapshot) k).trans ?_
    split_ifs with hk
    · rw [hk]
      exact entry_decision r slot
    · rfl
  · funext k
    refine (isCommitted_insert (s := r.snapshot) k).trans ?_
    split_ifs with hk
    · rw [hk]
      exact entry_committed r slot
    · rfl

theorem decisionAt_decided (r : ReplicaCore V) (d : Decision V) (k : SlotIndex) :
    (r.decided d).decisionAt k = if k = d.slot then some d else r.decisionAt k :=
  decisionAt_insert (s := r.snapshot) k

theorem isCommitted_decided (r : ReplicaCore V) (d : Decision V) : (r.decided d).isCommitted = r.isCommitted := by
  funext k
  refine (isCommitted_insert (s := r.snapshot) k).trans ?_
  split_ifs with hk
  · rw [hk]
    exact entry_committed r d.slot
  · rfl

theorem ordered_decided (h : r.Ordered) (d : Decision V) : (r.decided d).Ordered := by
  refine ⟨h.frontier, h.bound, ?_, ?_⟩
  · rw [isCommitted_decided]
    exact h.future
  · intro k d' hd'
    rw [decisionAt_decided] at hd'
    split_ifs at hd' with hk
    · cases hd'
      exact hk.symm
    · exact h.keyed k d' hd'

private theorem Advanced.applied (h : Advanced (r.decided d) ds s) :
    Applied r d ds s := by
  have hjammed : (r.decided d).Jammed ↔ r.Jammed := by
    show (r.decided d).isCommitted u64Max = true ↔ r.isCommitted u64Max = true
    rw [isCommitted_decided]
  refine ⟨h.ordered, h.checkpointedThrough, ?_, ?_, h.nextCommit, h.slots, h.filled,
    fun hj => h.jammed (hjammed.mpr hj),
    fun hj => (h.last hj).imp_left hjammed.mp, fun hj => (h.backed hj).imp_left hjammed.mp,
      (OrderedMap.size_le_insert ..).trans h.size⟩
  · intro k hk
    rw [h.decisionAt, decisionAt_decided, if_neg hk]
  · rw [h.decisionAt, decisionAt_decided, if_pos rfl]
    rfl

/-- Applying a decision returns what it committed, changes nothing, or runs into the last slot. -/
theorem triple_applyDecision (h : r.Ordered) (d : Decision V) : Triple (· = r) (applyDecision d)
    (fun ds s => Applied r d ds s ∧ (r.Waits → s.Waits)) fun _ s => s = r ∨ (∃ ds, Applied r d ds s) ∧ s.Jammed := by
  intro start hstart
  rw [hstart]
  rcases applyDecision_cases d r with ⟨e, heq⟩ | ⟨existing, hex, _, _, heq⟩ | ⟨_, _, _, heq⟩
  · rw [heq]
    exact .inl rfl
  · rw [heq]
    have hhere : (r.decisionAt d.slot).isSome = true := by
      rw [← entry_decision, hex]
      rfl
    exact ⟨⟨h, rfl, fun _ _ => rfl, hhere, rfl, rfl, fun _ hle hlt => absurd hlt (not_lt.mpr hle), fun h => h, .inl,
      .inl, le_refl _⟩,
      fun h => h⟩
  · rw [heq]
    have hcommit := triple_commitReady (ordered_decided h d) (r.decided d) rfl
    cases hx : commitReady (r.decided d) with
    | ok ds s =>
      rw [hx] at hcommit
      exact ⟨hcommit.1.applied, fun _ => hcommit.2⟩
    | error e s =>
      rw [hx] at hcommit
      obtain ⟨⟨ds, hadv⟩, hjam⟩ := hcommit
      exact .inr ⟨⟨ds, hadv.applied⟩, hjam⟩

/-- A decision that is taken in does not run into the last slot. -/
theorem calm_applyDecision (h : r.Ordered) (hcalm : ¬r.Jammed)
    (hok : applyDecision d r = .ok ds s) : ¬s.Jammed := by
  rcases applyDecision_cases d r with ⟨e, heq⟩ | ⟨existing, hex, _, _, heq⟩ | ⟨_, _, _, heq⟩
  · rw [heq] at hok
    cases hok
  · rw [heq] at hok
    cases hok
    exact hcalm
  · have hcommit := triple_commitReady (ordered_decided h d) (r.decided d) rfl
    rw [heq] at hok
    rw [hok] at hcommit
    intro hjam
    have hlast := (hcommit.1.applied.last hjam).resolve_left hcalm
    have hopen := hcommit.2.2
    rw [hlast] at hopen
    exact Bool.false_ne_true (hopen.symm.trans hjam)

/-- An accepted decision is stored unless its slot has one already, and what is returned is stored. -/
theorem applyDecision_stores (h : r.Ordered) (hok : applyDecision d r = .ok ds r') :
    r'.decisionAt d.slot = some ((r.decisionAt d.slot).getD d) ∧ ∀ e ∈ ds, r'.decisionAt e.slot = some e := by
  rcases applyDecision_cases d r with ⟨e, heq⟩ | ⟨existing, hex, _, _, heq⟩ | ⟨_, hnone, _, heq⟩
  · rw [heq] at hok
    cases hok
  · rw [heq] at hok
    cases hok
    rw [entry_decision] at hex
    rw [hex]
    exact ⟨rfl, fun e he => nomatch he⟩
  · rw [heq] at hok
    have hcommit := triple_commitReady (ordered_decided h d) (r.decided d) rfl
    rw [hok] at hcommit
    rw [entry_decision] at hnone
    rw [hcommit.1.decisionAt, decisionAt_decided, if_pos rfl, hnone]
    exact ⟨rfl, commitReady_stored (ordered_decided h d) hok⟩

theorem sameOutcome_enqueue (r : ReplicaCore V) (values : List V) :
    SameOutcome r.snapshot (after (enqueue values) r).snapshot := by
  rcases enqueue_cases values r with ⟨e, heq⟩ | ⟨fresh, heq, _⟩
  · rw [after_error heq]
    exact .refl _
  · rw [after_ok heq]
    exact ⟨rfl, rfl, rfl, rfl⟩

theorem keeps_storeAndCommit {I : ReplicaCore V → Prop} (hdecided : ∀ r d, I r → I (r.decided d))
    (hcommit : ∀ r ds r', I r → Commit r ds r' → I r') (hjam : ∀ r r', I r → Jam r r' → I r') (d : Decision V) :
    Keeps I (applyDecision d) := by
  intro r hr
  rcases applyDecision_cases d r with ⟨e, heq⟩ | ⟨existing, _, _, _, heq⟩ | ⟨_, _, _, heq⟩
  · rw [heq]
    exact hr
  · rw [heq]
    exact hr
  · rw [heq]
    exact keeps_commitReady hcommit hjam _ (hdecided r d hr)

theorem size_le_applyDecision (r : ReplicaCore V) (d : Decision V) :
    r.log.size ≤ (after (applyDecision d) r).log.size := by
  have hkeeps : Keeps (fun s => r.log.size ≤ s.log.size) (applyDecision d) := by
    apply keeps_storeAndCommit
    · exact fun s d hs => hs.trans (OrderedMap.size_le_insert ..)
    · intro s ds s' hs hc
      cases hc with
      | commit => exact hs.trans (OrderedMap.size_le_insert ..)
      | advance => exact hs
    · intro s s' hs hj
      cases hj with
      | first => exact hs.trans (OrderedMap.size_le_insert ..)
      | again => exact hs
  exact hkeeps.after (le_refl r.log.size)

theorem frontier_applyDecision (r : ReplicaCore V) (d : Decision V) :
    r.nextCommit ≤ (after (applyDecision d) r).nextCommit ∧
      (after (applyDecision d) r).checkpointedThrough = r.checkpointedThrough := by
  have hkeeps : Keeps (fun s => r.nextCommit ≤ s.nextCommit ∧ s.checkpointedThrough = r.checkpointedThrough)
    (applyDecision d) := by
    apply keeps_storeAndCommit
    · exact fun s d hs => hs
    · intro s ds s' hs hc
      cases hc <;> exact ⟨Nat.le_succ_of_le hs.1, hs.2⟩
    · intro s s' hs hj
      cases hj <;> exact hs
  exact hkeeps.after ⟨le_refl r.nextCommit, rfl⟩

end

theorem decisionAt_prune {through slot : SlotIndex} (hlt : (r.pruneThrough through).checkpointedThrough < slot) :
    (r.pruneThrough through).decisionAt slot = r.decisionAt slot := by
  have hkept : (r.pruneThrough through).log.get slot = r.log.get slot := by
    cases hget : r.log.get slot with
    | none =>
      cases hpruned : (r.pruneThrough through).log.get slot with
      | none => rfl
      | some e =>
        have hold := ((OrderedMap.get_retain ..).mp hpruned).1
        rw [hget] at hold
        cases hold
    | some e =>
      refine (OrderedMap.get_retain ..).mpr ⟨hget, ?_⟩
      simp only [Bool.or_eq_true, decide_eq_true_eq]
      exact .inl (.inr hlt)
  rw [ReplicaSnapshot.decisionAt, hkept]
  rfl

theorem ordered_prune (h : r.Ordered) (through : SlotIndex) : (r.pruneThrough through).Ordered := by
  have hkept : ∀ k entry, (r.pruneThrough through).log.get k = some entry → r.log.get k = some entry :=
    fun k entry hget => ((OrderedMap.get_retain ..).mp hget).1
  refine ⟨checkpoint_lt_prune h.frontier through, h.bound, ?_, ?_⟩
  · intro k hne hle hcommitted
    obtain ⟨entry, hget, hentry⟩ := (Option.any_eq_true _ _).mp hcommitted
    apply h.future k hne hle
    rw [ReplicaSnapshot.isCommitted, hkept k entry hget]
    exact hentry
  · intro k d hd
    obtain ⟨entry, hget, hentry⟩ := Option.bind_eq_some_iff.mp hd
    apply h.keyed k d
    rw [ReplicaSnapshot.decisionAt, hkept k entry hget]
    exact hentry

/-! ### Short of the last slot -/

/-- Between calls the frontier waits for a decision, and the last slot has none. -/
structure Calm (r : ReplicaCore V) : Prop where
  sound : r.Sound
  ordered : r.Ordered
  waits : r.Waits
  short : r.decisionAt u64Max = none ∧ ¬r.Jammed

theorem calm_new (config : ReplicaConfig) : (new config : ReplicaCore V).Calm := by
  have hget : ∀ slot, slot ≠ SlotIndex.genesis → (new config : ReplicaCore V).log.get slot = none := by
    intro slot hne
    simp only [new, OrderedMap.get_insert, if_neg hne, OrderedMap.get_emptyCollection]
  have hfirst : (new config : ReplicaCore V).log.get 1 = none := hget 1 (by decide)
  have hlast : (new config : ReplicaCore V).log.get u64Max = none := hget u64Max (by decide)
  refine ⟨sound_new config, ordered_new config, ⟨?_, ?_⟩, ?_, ?_⟩
  · show ((new config : ReplicaCore V).log.get 1).bind (·.decision) = none
    rw [hfirst]
    rfl
  · show ((new config : ReplicaCore V).log.get 1).any (·.committed) = false
    rw [hfirst]
    rfl
  · rw [ReplicaSnapshot.decisionAt, hlast]
    rfl
  · rw [ReplicaSnapshot.Jammed, hlast]
    exact Bool.false_ne_true

theorem Calm.same (h : r.Calm) (hsound : r'.Sound) (hs : SameOutcome r.snapshot r'.snapshot) : r'.Calm where
  sound := hsound
  ordered := h.ordered.same hs
  waits := hs.waits.mpr h.waits
  short := ⟨(congrFun hs.decisionAt u64Max).trans h.short.1, fun hjam => h.short.2 (hs.jammed.mp hjam)⟩

theorem Calm.prune (h : r.Calm) (hsound : (r.pruneThrough slot).Sound) : (r.pruneThrough slot).Calm := by
  have hfrontier := checkpoint_lt_prune h.sound.frontier slot
  have hcommitted : ∀ k, r.isCommitted k = false → (r.pruneThrough slot).isCommitted k = false := by
    intro k hk
    apply Bool.eq_false_of_not_eq_true
    intro hpruned
    obtain ⟨entry, hget, hentry⟩ := (Option.any_eq_true _ _).mp hpruned
    rw [ReplicaSnapshot.isCommitted, ((OrderedMap.get_retain ..).mp hget).1] at hk
    exact Bool.false_ne_true (hk.symm.trans hentry)
  refine ⟨hsound, ordered_prune h.ordered slot, ⟨?_, hcommitted _ h.waits.2⟩, ?_, ?_⟩
  · exact (decisionAt_prune hfrontier).trans h.waits.1
  · exact (decisionAt_prune (hfrontier.trans_le h.sound.bound)).trans h.short.1
  · have hlast := hcommitted u64Max (Bool.eq_false_of_not_eq_true h.short.2)
    exact fun hjam => Bool.false_ne_true (hlast.symm.trans hjam)

theorem Applied.short {ds : List (Decision V)} (hs : Applied r d ds r') (hlast : d.slot < u64Max)
    (h : r.decisionAt u64Max = none ∧ ¬r.Jammed) : r'.decisionAt u64Max = none ∧ ¬r'.Jammed := by
  have hnone : r'.decisionAt u64Max = none := (hs.others u64Max hlast.ne').trans h.1
  refine ⟨hnone, fun hjam => ?_⟩
  rcases hs.backed hjam with hold | hsome
  · exact h.2 hold
  · rw [hnone] at hsome
    cases hsome

/-- A decision short of the last slot is taken in completely or refused without a trace. -/
theorem Calm.applyDecision_cases [DecidableEq V] (h : r.Calm) (hlast : d.slot < u64Max) :
    (∃ e, applyDecision d r = .error e r) ∨ ∃ ds s, applyDecision d r = .ok ds s ∧ s.Calm ∧ Applied r d ds s := by
  have hcall := triple_applyDecision h.ordered d r rfl
  have hsound := (later_applyDecision h.sound d).sound
  cases hx : applyDecision d r with
  | ok ds s =>
    rw [hx] at hcall
    rw [after_ok hx] at hsound
    exact .inr ⟨ds, s, rfl, ⟨hsound, hcall.1.ordered, hcall.2 h.waits, hcall.1.short hlast h.short⟩, hcall.1⟩
  | error e s =>
    rw [hx] at hcall
    rcases hcall with rfl | ⟨⟨ds, happlied⟩, hjam⟩
    · exact .inl ⟨e, rfl⟩
    · exact absurd hjam (happlied.short hlast h.short).2

end ReplicaCore
end QuePaxa
