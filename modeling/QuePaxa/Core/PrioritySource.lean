import QuePaxa.Core.ProposerSpec
import QuePaxa.Library.Runs
import QuePaxa.Library.Sampling

/-! The two priority sources of a proposer, on 64-bit words: operating-system randomness with
rejection, and the deterministic generator of the tests. Zero and the largest word are reserved. -/
namespace QuePaxa
open Library
variable {V : Type}

def wordMax : UInt64 := 0xFFFFFFFFFFFFFFFF

@[simp] theorem wordMax_toNat : wordMax.toNat = u64Max := rfl

def reservedRange : QuePaxaError := .invalidProposal "priority range must reserve zero and the leader priority"

namespace OsRandom

def nextU64 : Except String UInt64 → Result UInt64
  | .ok value => .ok value
  | .error error => .error (.transportError s!"OS randomness unavailable: {error}")

/-- The words at or above the cutoff would favour the small residues. -/
def cutoff (upper : UInt64) : UInt64 := wordMax - wordMax % (upper - 1)

def accept (upper value : UInt64) : Option UInt64 :=
  if value < cutoff upper then some (value % (upper - 1) + 1) else none

/-- The source is what its reads return from now on; with the result comes what is left of it. -/
def nextBelow (upper : UInt64) (source : List (Except String UInt64)) :
    Option (Result UInt64 × List (Except String UInt64)) :=
  if upper ≤ 1 then some (.error reservedRange, source) else firstAccepted nextU64 (accept upper) source

end OsRandom

def mixSeed (value : UInt64) : UInt64 :=
  let value := value ^^^ value >>> 30
  let value := value * 0xbf58476d1ce4e5b9
  let value := value ^^^ value >>> 27
  let value := value * 0x94d049bb133111eb
  value ^^^ value >>> 31

structure XorShift64 where
  state : UInt64
  deriving DecidableEq, Repr

namespace XorShift64

def new (seed : UInt64) : XorShift64 := ⟨max seed 1⟩

def newForStream (seed replicaId laneId : UInt64) : XorShift64 :=
  new (mixSeed (seed ^^^ replicaId * 0x9e3779b97f4a7c15 ^^^ laneId * 0xbf58476d1ce4e5b9))

def shifted (x : UInt64) : UInt64 :=
  let x := x ^^^ x <<< 13
  let x := x ^^^ x >>> 7
  x ^^^ x <<< 17

def nextBelow (upper : UInt64) (source : XorShift64) : Result UInt64 × XorShift64 :=
  if upper ≤ 1 then (.error reservedRange, source)
  else (.ok (shifted source.state % (upper - 1) + 1), ⟨shifted source.state⟩)

end XorShift64

inductive DrawnBelow (upper : UInt64) : Result Priority → Prop
  | os {source rest : List (Except String UInt64)} {result : Result UInt64}
      (drawn : OsRandom.nextBelow upper source = some (result, rest)) : DrawnBelow upper (UInt64.toNat <$> result)
  | xorShift (source : XorShift64) : DrawnBelow upper (UInt64.toNat <$> (source.nextBelow upper).1)

/-! ### The arithmetic of one draw -/

section
variable {upper : UInt64} (h : 1 < upper)
include h

theorem range_toNat : (upper - 1).toNat = upper.toNat - 1 :=
  UInt64.toNat_sub_of_le _ _ (UInt64.le_of_lt h)

theorem range_pos : 0 < (upper - 1).toNat := by
  have hupper : 1 < upper.toNat := UInt64.lt_iff_toNat_lt.mp h
  rw [range_toNat h]
  omega

theorem residue_fits (value : UInt64) : (value % (upper - 1)).toNat + 1 < UInt64.size := by
  have hlt := Nat.mod_lt value.toNat (range_pos h)
  have hword : upper.toNat < UInt64.size := upper.toNat_lt
  rw [range_toNat h] at hlt
  rw [UInt64.toNat_mod, range_toNat h]
  omega

theorem residue_toNat (value : UInt64) : (value % (upper - 1) + 1).toNat = value.toNat % (upper.toNat - 1) + 1 := by
  have hone : (1 : UInt64).toNat = 1 := rfl
  rw [UInt64.toNat_add, hone, Nat.mod_eq_of_lt (residue_fits h value), UInt64.toNat_mod, range_toNat h]

theorem residue_in_range (value : UInt64) : 1 ≤ value % (upper - 1) + 1 ∧ value % (upper - 1) + 1 ≤ upper - 1 := by
  have hlt := Nat.mod_lt value.toNat (range_pos h)
  rw [range_toNat h] at hlt
  rw [UInt64.le_iff_toNat_le, UInt64.le_iff_toNat_le, residue_toNat h, range_toNat h]
  exact ⟨Nat.le_add_left .., hlt⟩

omit h in
theorem remainder_le_wordMax : wordMax % (upper - 1) ≤ wordMax := by
  rw [UInt64.le_iff_toNat_le, UInt64.toNat_mod]
  exact Nat.mod_le ..

theorem cutoff_toNat : (OsRandom.cutoff upper).toNat = u64Max / (upper.toNat - 1) * (upper.toNat - 1) := by
  rw [OsRandom.cutoff, UInt64.toNat_sub_of_le _ _ remainder_le_wordMax, UInt64.toNat_mod, range_toNat h, wordMax_toNat]
  have hsum := Nat.div_add_mod' u64Max (upper.toNat - 1)
  omega

/-- The bound itself is a word, so at least one block of residues is complete. -/
theorem blocks_pos : 0 < u64Max / (upper.toNat - 1) := by
  have hpos := range_pos h
  have hword : upper.toNat < 2 ^ 64 := upper.toNat_lt
  rw [range_toNat h] at hpos
  apply Nat.div_pos _ hpos
  unfold u64Max
  omega

private theorem accept_ofNat {draw : Nat} (hdraw : draw < UInt64.size) {value : UInt64} (hvalue : 1 ≤ value) :
    OsRandom.accept upper (.ofNat draw) = some value ↔
      draw < u64Max / (upper.toNat - 1) * (upper.toNat - 1) ∧ draw % (upper.toNat - 1) = value.toNat - 1 := by
  have hdraw' : (UInt64.ofNat draw).toNat = draw := UInt64.toNat_ofNat_of_lt' hdraw
  have hpos : 1 ≤ value.toNat := UInt64.le_iff_toNat_le.mp hvalue
  have hlt : UInt64.ofNat draw < OsRandom.cutoff upper ↔ draw < u64Max / (upper.toNat - 1) * (upper.toNat - 1) := by
    rw [UInt64.lt_iff_toNat_lt, cutoff_toNat h, hdraw']
  have hsame : UInt64.ofNat draw % (upper - 1) + 1 = value ↔ draw % (upper.toNat - 1) = value.toNat - 1 := by
    rw [← UInt64.toNat_inj, residue_toNat h, hdraw']
    omega
  unfold OsRandom.accept
  split_ifs with hbelow
  · rw [Option.some.injEq, hsame, and_iff_right (hlt.mp hbelow)]
  · simp only [false_iff, not_and]
    exact fun hbelow' => absurd (hlt.mpr hbelow') hbelow

private theorem OsRandom.cutoff_pos : 0 < OsRandom.cutoff upper := by
  rw [UInt64.lt_iff_toNat_lt, cutoff_toNat h, ← range_toNat h]
  exact Nat.mul_pos (range_toNat h ▸ blocks_pos h) (range_pos h)

/-- Every priority is taken for one word of each block below the cutoff. -/
theorem OsRandom.card_accept {priority : UInt64} (hlow : 1 ≤ priority) (hhigh : priority ≤ upper - 1) :
    ((Finset.range UInt64.size).filter fun draw => OsRandom.accept upper (.ofNat draw) = some priority).card =
      (OsRandom.cutoff upper).toNat / (upper - 1).toNat := by
  have hpos := range_pos h
  rw [UInt64.le_iff_toNat_le, range_toNat h] at hhigh
  rw [range_toNat h] at hpos
  have hone : 1 ≤ priority.toNat := UInt64.le_iff_toNat_le.mp hlow
  have hfit : u64Max / (upper.toNat - 1) * (upper.toNat - 1) ≤ UInt64.size :=
    (Nat.div_mul_le_self ..).trans (by decide)
  have hsame := Finset.filter_congr (s := Finset.range UInt64.size) fun draw hdraw =>
    accept_ofNat h (Finset.mem_range.mp hdraw) hlow
  rw [hsame, card_filter_mod hfit (by omega), cutoff_toNat h, range_toNat h, Nat.mul_div_cancel _ hpos]

/-- A draw ends with the first read that fails or is below the cutoff. -/
theorem OsRandom.nextBelow_isSome (source : List (Except String UInt64)) :
    (OsRandom.nextBelow upper source).isSome = true ↔
      ∃ read ∈ source, (∃ e, read = .error e) ∨ ∃ word, read = .ok word ∧ word < OsRandom.cutoff upper := by
  rw [OsRandom.nextBelow, if_neg (UInt64.not_le.mpr h), firstAccepted_isSome]
  refine exists_congr fun read => and_congr_right fun _ => ?_
  cases read with
  | error e => simp [OsRandom.nextU64]
  | ok word => simp [OsRandom.nextU64, OsRandom.accept]

theorem OsRandom.nextBelow_in_range {source rest : List (Except String UInt64)} {value : UInt64}
    (hdrawn : OsRandom.nextBelow upper source = some (.ok value, rest)) : 1 ≤ value ∧ value ≤ upper - 1 := by
  rw [OsRandom.nextBelow, if_neg (UInt64.not_le.mpr h)] at hdrawn
  obtain ⟨word, hword⟩ := accepted_of_firstAccepted hdrawn
  unfold OsRandom.accept at hword
  split_ifs at hword
  obtain rfl := Option.some.inj hword
  exact residue_in_range h word

theorem XorShift64.nextBelow_in_range (source : XorShift64) :
    ∃ value, (source.nextBelow upper).1 = .ok value ∧ 1 ≤ value ∧ value ≤ upper - 1 := by
  rw [XorShift64.nextBelow, if_neg (UInt64.not_le.mpr h)]
  exact ⟨_, rfl, residue_in_range h _⟩

end

private theorem DrawnBelow.in_range {upper : UInt64} (h : 1 < upper) {draw : Result Priority}
    (hdrawn : DrawnBelow upper draw)
    {priority : Priority} (hok : draw = .ok priority) : 1 ≤ priority ∧ priority < upper.toNat := by
  have hword : ∀ {result : Result UInt64}, UInt64.toNat <$> result = .ok priority →
      (∀ value, result = .ok value → 1 ≤ value ∧ value ≤ upper - 1) → 1 ≤ priority ∧ priority < upper.toNat := by
    intro result hresult hrange
    cases result with
    | error e => cases hresult
    | ok value =>
      cases hresult
      obtain ⟨hlow, hhigh⟩ := hrange value rfl
      have hpos := range_pos h
      rw [UInt64.le_iff_toNat_le, range_toNat h] at hhigh
      rw [range_toNat h] at hpos
      have hlt : value.toNat < upper.toNat := by omega
      exact ⟨UInt64.le_iff_toNat_le.mp hlow, hlt⟩
  cases hdrawn with
  | os drawn => exact hword hok fun value hvalue => OsRandom.nextBelow_in_range h (hvalue ▸ drawn)
  | xorShift source =>
    refine hword hok fun value hvalue => ?_
    obtain ⟨value', heq, hrange⟩ := source.nextBelow_in_range h
    rw [heq] at hvalue
    exact Except.ok.inj hvalue ▸ hrange

/-! ### The generator's state -/

namespace XorShift64

private theorem shifted_ne_zero {x : UInt64} (hx : x ≠ 0) : shifted x ≠ 0 := by
  have hword : ∀ {y : UInt64}, y ≠ 0 ↔ y.toBitVec ≠ 0#64 := fun {y} => not_congr UInt64.toBitVec_inj.symm
  rw [hword] at hx ⊢
  have hfirst := xor_shiftLeft_ne_zero (k := 13) (by decide) hx
  have hsecond := xor_ushiftRight_ne_zero (k := 7) (by decide) hfirst
  exact xor_shiftLeft_ne_zero (k := 17) (by decide) hsecond

private theorem new_state_ne_zero (seed : UInt64) : (new seed).state ≠ 0 := by
  show (if seed ≤ 1 then 1 else seed) ≠ 0
  split_ifs with hseed
  · decide
  · rintro rfl
    exact hseed (by decide)

private theorem nextBelow_state_ne_zero (source : XorShift64) (upper : UInt64) (h : source.state ≠ 0) :
    (source.nextBelow upper).2.state ≠ 0 := by
  unfold nextBelow
  split_ifs
  · exact h
  · exact shifted_ne_zero h

private theorem run_state_ne_zero {source : XorShift64} (h : source.state ≠ 0) (bounds : List UInt64) :
    (run (fun source upper => (nextBelow upper source).2) source bounds).state ≠ 0 :=
  run_invariant_all (I := fun source => source.state ≠ 0) (fun source upper => nextBelow_state_ne_zero source upper) h
    bounds

end XorShift64

/-! ### What the proposer sends -/

/-- Outside of the leader's first step, phase 0 sends drawn priorities only. -/
theorem drawn_requests {self : ReplicaId} {call : ProposeCall V} {known : List (Decision V)} {step : Step}
    {proposal : Proposal V} {draws : ReplicaId → Result Priority} (hdraws : ∀ id, DrawnBelow wordMax (draws id))
    {requests : List (ReplicaId × RecordRequest V)}
    (h : stepRequests self call known step proposal draws = .ok requests)
    (hphase : step.phase = 0) (hplain : Step.roundOnePhaseZero < step ∨ call.leader ≠ some self) :
    ∀ request ∈ requests, 1 ≤ request.2.proposal.key.priority ∧ request.2.proposal.key.priority < Priority.max := by
  intro request hmem
  obtain ⟨p, hp, heq⟩ := stepRequests_ok h hmem
  rw [proposalFor, if_pos ⟨hphase, hplain⟩] at hp
  cases hdraw : draws request.1 with
  | error e =>
    rw [hdraw] at hp
    cases hp
  | ok priority =>
    rw [hdraw] at hp
    cases hp
    rw [heq]
    exact (hdraws request.1).in_range (by decide) hdraw

/-- Both sources stay off the reserved priorities, whatever they read and whatever they were
seeded with; and the first one favours no priority. -/
theorem sources_respect_reserved_range (upper : UInt64) (hupper : 1 < upper) :
    -- nothing underflows, nothing is divided by zero and nothing overflows
    (1 ≤ upper ∧ upper - 1 ≠ 0 ∧ wordMax % (upper - 1) ≤ wordMax ∧
      ∀ value : UInt64, (value % (upper - 1)).toNat + 1 < UInt64.size) ∧
    -- the cutoff is made of whole blocks, and every priority has one word in each
    (0 < OsRandom.cutoff upper ∧ (upper - 1).toNat ∣ (OsRandom.cutoff upper).toNat ∧
      ∀ priority : UInt64, 1 ≤ priority → priority ≤ upper - 1 →
        ((Finset.range UInt64.size).filter fun draw => OsRandom.accept upper (.ofNat draw) = some priority).card =
          (OsRandom.cutoff upper).toNat / (upper - 1).toNat) ∧
    (∀ source, ((OsRandom.nextBelow upper source).isSome = true ↔
        ∃ read ∈ source, (∃ e, read = .error e) ∨ ∃ word, read = .ok word ∧ word < OsRandom.cutoff upper) ∧
      ∀ priority rest, OsRandom.nextBelow upper source = some (.ok priority, rest) → 1 ≤ priority ∧
        priority ≤ upper - 1) ∧
    (∀ source : XorShift64, (∃ seed, source = .new seed) ∨
      (∃ seed replicaId laneId, source = .newForStream seed replicaId laneId) →
      ∀ bounds : List UInt64, let later := run (fun source upper => (XorShift64.nextBelow upper source).2) source bounds
        later.state ≠ 0 ∧ ∃ priority, (later.nextBelow upper).1 = .ok priority ∧ 1 ≤ priority ∧ priority ≤ upper - 1) ∧
    (∀ (self : ReplicaId) (call : ProposeCall V) (known : List (Decision V)) (step : Step) (proposal : Proposal V)
        (draws : ReplicaId → Result Priority) (requests : List (ReplicaId × RecordRequest V)),
      (∀ id, DrawnBelow wordMax (draws id)) → stepRequests self call known step proposal draws = .ok requests →
      step.phase = 0 → (Step.roundOnePhaseZero < step ∨ call.leader ≠ some self) →
      ∀ request ∈ requests, request.2.proposal.key.priority ≠ 0 ∧ request.2.proposal.key.priority ≠ Priority.max) := by
  refine ⟨⟨UInt64.le_of_lt hupper, ?_, remainder_le_wordMax, residue_fits hupper⟩,
    ⟨OsRandom.cutoff_pos hupper, ?_, fun priority => OsRandom.card_accept hupper⟩,
    fun source => ⟨OsRandom.nextBelow_isSome hupper source, fun priority rest => OsRandom.nextBelow_in_range hupper⟩,
      ?_, ?_⟩
  · intro hzero
    have hpos := range_pos hupper
    rw [hzero] at hpos
    exact Nat.lt_irrefl 0 hpos
  · rw [cutoff_toNat hupper, range_toNat hupper]
    exact Nat.dvd_mul_left ..
  · intro source hsource bounds later
    have hstart : source.state ≠ 0 := by
      rcases hsource with ⟨seed, rfl⟩ | ⟨seed, replicaId, laneId, rfl⟩
      · exact XorShift64.new_state_ne_zero seed
      · exact XorShift64.new_state_ne_zero _
    exact ⟨XorShift64.run_state_ne_zero hstart bounds, later.nextBelow_in_range hupper⟩
  · intro self call known step proposal draws requests hdraws hok hphase hplain request hmem
    obtain ⟨hlow, hhigh⟩ := drawn_requests hdraws hok hphase hplain request hmem
    exact ⟨Nat.ne_of_gt hlow, Nat.ne_of_lt hhigh⟩

/-- Below the leader's priority, the largest word is rejected and the next one read taken. -/
theorem sources_respect_reserved_range_rejecting :
    1 < wordMax ∧ OsRandom.nextBelow wordMax [.ok wordMax, .ok 7, .ok 9] = some (.ok 8, [.ok 9]) ∧
      (1 : UInt64) ≤ 8 ∧ (8 : UInt64) ≤ wordMax - 1 := by
  have hdrawn : OsRandom.nextBelow wordMax [.ok wordMax, .ok 7, .ok 9] = some (.ok 8, [.ok 9]) := rfl
  have hrange := sources_respect_reserved_range (V := Nat) wordMax (by decide)
  exact ⟨by decide, hdrawn, (hrange.2.2.1 _).2 8 _ hdrawn⟩

end QuePaxa
