import QuePaxa.Core.DurableFile
import QuePaxa.Core.DurableRecorder
import QuePaxa.Core.RecorderMonotone
import QuePaxa.Library.CrashRecovery

/-! The durable recorder over its file. Every acknowledged call has replaced the file, and a
failed call leaves memory as it was, so a restart finds the acknowledged state or the state
after one further call that was not acknowledged. -/
namespace QuePaxa
open Library
variable {V : Type}

/-- The value encoding is the application's. -/
structure RecorderCodec (V : Type) where
  encode : RecorderSnapshot V → Result (List UInt8)
  decode : List UInt8 → Result (RecorderSnapshot V)

def RecorderCodec.RoundTrips (codec : RecorderCodec V) : Prop :=
  ∀ s bytes, codec.encode s = .ok bytes → codec.decode bytes = .ok s

structure FileRecorderStore (codec : RecorderCodec V) where
  path : String
  temporary : String
  parent : String
  disk : Disk

namespace FileRecorderStore
variable {codec : RecorderCodec V}

def target (s : FileRecorderStore codec) : SnapshotTarget where
  path := s.path
  temporary := s.temporary
  parent := s.parent
  opened := .recorderTemporaryOpened
  written := .recorderTemporaryWritten
  synced := .recorderTemporarySynced
  renamed := .recorderRenamed
  directorySynced := .recorderDirectorySynced
  label := "recorder state"
  directoryLabel := "recorder state"

def onDisk {α : Type} (x : EStateM QuePaxaError Disk α) : EStateM QuePaxaError (FileRecorderStore codec) α :=
  zoom (·.disk) (fun s disk => { s with disk }) x

def load : EStateM QuePaxaError (FileRecorderStore codec) (Option (RecorderSnapshot V)) := do
  match ← onDisk (Disk.read (← get).target) with
  | some bytes => do
    let snapshot ← check (codec.decode bytes)
    pure (some snapshot)
  | none => pure none

def save (snapshot : RecorderSnapshot V) : EStateM QuePaxaError (FileRecorderStore codec) Unit := do
  let bytes ← check (codec.encode snapshot)
  onDisk (Disk.replace (← get).target bytes)

instance : RecorderStateStore V (FileRecorderStore codec) := ⟨load, save⟩

private theorem triple_save (codec : RecorderCodec V) (snapshot : RecorderSnapshot V)
    (Old : Option (List UInt8) → Prop) :
    Triple (fun s : FileRecorderStore codec => s.disk.files.Retains .path .temporary Old) (save snapshot)
      (fun _ s => ∃ bytes, codec.encode snapshot = .ok bytes ∧ s.disk.files.Retains .path .temporary (· = some bytes))
      fun _ s => s.disk.files.Retains .path .temporary fun c =>
        Old c ∨ ∃ bytes, codec.encode snapshot = .ok bytes ∧ c = some bytes := by
  intro s hs
  unfold save
  cases henc : codec.encode snapshot with
  | error e => exact hs.mono fun _ => .inl
  | ok bytes =>
    have hreplace := Disk.triple_replace s.target bytes Old s.disk hs
    simp only [bind_apply, check_ok, get_apply, onDisk, zoom]
    cases hx : Disk.replace s.target bytes s.disk with
    | ok _ disk =>
      rw [hx] at hreplace
      exact ⟨bytes, rfl, hreplace⟩
    | error e disk =>
      rw [hx] at hreplace
      exact hreplace.mono fun c hc => hc.imp_right fun h => ⟨bytes, rfl, h⟩

def recorderFrom [DecidableEq V] (codec : RecorderCodec V) (config : RecorderConfig) :
    Option (List UInt8) → Option (RecorderCore V)
  | none => some (RecorderCore.new config)
  | some bytes =>
    match codec.decode bytes with
    | .ok snapshot => (RecorderCore.restore config snapshot).toOption
    | .error _ => none

section
variable [DecidableEq V] {config : RecorderConfig}

private theorem restorable_of_recorderFrom {c : Option (List UInt8)} {r : RecorderCore V}
    (h : recorderFrom codec config c = some r) :
    r.Restorable config := by
  cases c with
  | none =>
    cases h
    exact RecorderCore.restorable_new config
  | some bytes =>
    simp only [recorderFrom] at h
    split at h
    · next snapshot _ =>
      cases hrestore : RecorderCore.restore config snapshot with
      | error e =>
        rw [hrestore] at h
        cases h
      | ok core =>
        rw [hrestore] at h
        cases h
        exact RecorderCore.restorable_of_restore hrestore
    · cases h

theorem new_cases (config : RecorderConfig) (s : FileRecorderStore codec) :
    (∃ e, DurableRecorderCore.new (V := V) config s = .error e s ∧
      (s.disk.surroundings.read ≠ none ∨ recorderFrom codec config (s.disk.files.read .path) = none)) ∨
    ∃ core, DurableRecorderCore.new config s = .ok ⟨core, s⟩ s ∧
      recorderFrom codec config (s.disk.files.read .path) = some core := by
  simp only [DurableRecorderCore.new, bind_apply, RecorderStateStore.load, load, get_apply, onDisk, zoom, Disk.read]
  cases hread : s.disk.surroundings.read with
  | some error => exact .inl ⟨_, rfl, .inl (by simp)⟩
  | none =>
    cases hfile : s.disk.files.read .path with
    | none => exact .inr ⟨_, rfl, rfl⟩
    | some bytes =>
      simp only [recorderFrom]
      cases hdecode : codec.decode bytes with
      | error e => exact .inl ⟨e, rfl, .inr rfl⟩
      | ok snapshot =>
        simp only
        cases hrestore : RecorderCore.restore config snapshot with
        | error e =>
          refine .inl ⟨e, ?_, .inr rfl⟩
          simp [hrestore]
        | ok core =>
          refine .inr ⟨core, ?_, rfl⟩
          simp only [bind_apply, pure_apply, check_ok, hrestore]
          rfl

end
end FileRecorderStore

namespace DurableRecorderCore
variable {codec : RecorderCodec V}

def within (d : DurableRecorderCore V (FileRecorderStore codec)) (surroundings : Surroundings) :
    DurableRecorderCore V (FileRecorderStore codec) :=
  { d with store := { d.store with disk := ⟨d.store.disk.files, surroundings, true⟩ } }

/-- What a call can do: it fails in the recorder, in the save, or not at all. -/
theorem mutate_cases {T : Type} (mutation : EStateM QuePaxaError (RecorderCore V) T)
    (d : DurableRecorderCore V (FileRecorderStore codec)) :
    (∃ e, mutate mutation d =
      .error e { d with core := (after mutation d.core).restoreSnapshotState d.core.snapshot }) ∨
    (∃ e store, FileRecorderStore.save (after mutation d.core).snapshot d.store = .error e store ∧
      mutate mutation d = .error e ⟨(after mutation d.core).restoreSnapshotState d.core.snapshot, store⟩) ∨
    ∃ output store, FileRecorderStore.save (after mutation d.core).snapshot d.store = .ok () store ∧
      mutate mutation d = .ok output ⟨after mutation d.core, store⟩ := by
  unfold mutate after
  cases hm : mutation d.core with
  | error e core => exact .inl ⟨e, rfl⟩
  | ok output core =>
    simp only [RecorderStateStore.save]
    cases hs : FileRecorderStore.save core.snapshot d.store with
    | error e store => exact .inr (.inl ⟨e, store, rfl, rfl⟩)
    | ok _ store => exact .inr (.inr ⟨output, store, rfl, rfl⟩)

section
variable [DecidableEq V]

def server (codec : RecorderCodec V) (config : RecorderConfig) (path temporary parent : String) :
    Server StoreFile UInt8 Surroundings (RecorderOp V) (DurableRecorderCore V (FileRecorderStore codec))
      (RecorderCore V) where
  name := .path
  spare := .temporary
  disk d := d.store.disk.files
  view d := d.core
  start surroundings files :=
    match new config (⟨path, temporary, parent, ⟨files, surroundings, true⟩⟩ : FileRecorderStore codec) with
    | .ok d _ => some d
    | .error _ _ => none
  call surroundings op d :=
    match exec op (d.within surroundings) with
    | .ok _ d => (d, some .saved)
    | .error _ d => (d, if d.store.disk.alive then some .failed else none)

variable {config : RecorderConfig} {path temporary parent : String}

private theorem journals_call (hcodec : codec.RoundTrips) (w : Surroundings) (op : RecorderOp V)
    (d : DurableRecorderCore V (FileRecorderStore codec)) (P : Option (List UInt8) → Prop)
    (hop : ∀ change, op ≠ .installMembership change) (hgood : d.core.Restorable config)
    (hdisk : d.store.disk.files.Retains .path .temporary P) :
    (server codec config path temporary parent).CallSpec (fun r op => op.apply r)
    (FileRecorderStore.recorderFrom codec config) op d P
      ((server codec config path temporary parent).call w op d) := by
  have hsaved : ∀ bytes, codec.encode (op.apply d.core).snapshot = .ok bytes →
      FileRecorderStore.recorderFrom codec config (some bytes) = some (op.apply d.core) := by
    intro bytes henc
    simp only [FileRecorderStore.recorderFrom, hcodec _ _ henc, (hgood.apply hop).restore]
    rfl
  have hfailed : ∀ d' : DurableRecorderCore V (FileRecorderStore codec), d'.core = d.core →
      (d'.store.disk.files.Retains .path .temporary fun c =>
        P c ∨ FileRecorderStore.recorderFrom codec config c = some (op.apply d.core)) →
      (server codec config path temporary parent).CallSpec (fun r op => op.apply r)
        (FileRecorderStore.recorderFrom codec config) op d P
        (d', if d'.store.disk.alive then some .failed else none) := by
    intro d' hcore hfiles
    cases d'.store.disk.alive with
    | true => exact ⟨hcore, hfiles⟩
    | false => exact hfiles
  have hback := RecorderCore.rollback_apply hop d.core
  have hsave := FileRecorderStore.triple_save codec (op.apply d.core).snapshot P (d.within w).store hdisk
  simp only [server, exec_eq_mutate]
  rcases mutate_cases op.exec (d.within w) with ⟨e, heq⟩ | ⟨e, store, hs, heq⟩ | ⟨output, store, hs, heq⟩
  · rw [heq]
    exact hfailed { d.within w with core := _ } hback (hdisk.mono fun _ => .inl)
  · rw [heq]
    rw [show after op.exec (d.within w).core = op.apply d.core from rfl] at hs
    rw [hs] at hsave
    refine hfailed _ hback (hsave.mono fun c hc => hc.imp_right ?_)
    rintro ⟨bytes, henc, rfl⟩
    exact hsaved bytes henc
  · rw [heq]
    rw [show after op.exec (d.within w).core = op.apply d.core from rfl] at hs
    rw [hs] at hsave
    obtain ⟨bytes, henc, hfiles⟩ := hsave
    exact ⟨rfl, hfiles.mono fun c hc => hc ▸ hsaved bytes henc⟩

private theorem journals (hcodec : codec.RoundTrips) (config : RecorderConfig) (path temporary parent : String) :
    (server codec config path temporary parent).Journals (fun r op => op.apply r)
      (FileRecorderStore.recorderFrom codec config) (fun op => ∀ change, op ≠ .installMembership change)
      (fun d => d.core.Restorable config) where
  started w fs d hstart := by
    simp only [server] at hstart
    rcases FileRecorderStore.new_cases config (⟨path, temporary, parent, ⟨fs, w, true⟩⟩ : FileRecorderStore codec) with
      ⟨e, heq, _⟩ | ⟨core, heq, hload⟩
    · rw [heq] at hstart
      cases hstart
    · rw [heq] at hstart
      cases hstart
      exact ⟨hload, rfl, FileRecorderStore.restorable_of_recorderFrom hload⟩
  call w op d P hop hgood hdisk := journals_call hcodec w op d P hop hgood hdisk
  good w op d P hop hgood _ := by
    simp only [server, exec_eq_mutate]
    have hback := RecorderCore.rollback_apply hop d.core
    rcases mutate_cases op.exec (d.within w) with ⟨e, heq⟩ | ⟨e, store, _, heq⟩ | ⟨output, store, _, heq⟩
    · rw [heq]
      exact hback.symm ▸ hgood
    · rw [heq]
      exact hback.symm ▸ hgood
    · rw [heq]
      exact hgood.apply hop

private theorem call_saves (w : Surroundings) (op : RecorderOp V)
    (d : DurableRecorderCore V (FileRecorderStore codec)) :
    ((server codec config path temporary parent).call w op d).2 ≠ some .unchanged := by
  simp only [server]
  split
  · simp
  · split_ifs <;> simp

private theorem start_isSome {w : Surroundings} (hread : w.read = none) (fs : FileSystem StoreFile UInt8)
    (r : RecorderCore V)
    (hload : FileRecorderStore.recorderFrom codec config (fs.read .path) = some r) :
    ((server codec config path temporary parent).start w fs).isSome := by
  simp only [server]
  rcases FileRecorderStore.new_cases config (⟨path, temporary, parent, ⟨fs, w, true⟩⟩ : FileRecorderStore codec) with
    ⟨e, heq, hbad⟩ | ⟨core, heq, _⟩
  · rcases hbad with hbad | hbad
    · exact absurd hread hbad
    · rw [hload] at hbad
      cases hbad
  · rw [heq]
    rfl

/-- Crash recovery of the durable recorder, from any disk whose state at the path is synced.
While it runs it holds its start state with the acknowledged calls applied. A restart that can
read the file succeeds, and gives that state, or that state after one of the calls that were
not acknowledged and came after the last acknowledged one. Nothing acknowledged is ever lost. -/
theorem restart_recovers_acknowledged_calls (codec : RecorderCodec V) (hcodec : codec.RoundTrips)
    (config : RecorderConfig)
    (path temporary parent : String) (files : FileSystem StoreFile UInt8)
    (hfiles : files.Retains .path .temporary fun _ => True)
    (actions : List (ServiceAction UInt8 Surroundings (RecorderOp V)))
    (hactions : ∀ w op, .call w op ∈ actions → ∀ change, op ≠ .installMembership change) :
    let S := server codec config path temporary parent
    let p := run S.step (.down files none) actions
    (∀ d l, p = .up d l → d.core = run RecorderOp.apply l.start l.acknowledged) ∧
    (∀ fs l survivor lost w, p = .down fs (some l) → w.read = none →
      ∃ d, S.step p (.restart survivor lost w) = .up d ⟨d.core, []⟩) ∧
    (∀ fs l survivor lost w d l', p = .down fs (some l) → S.step p (.restart survivor lost w) = .up d l' →
      d.core = run RecorderOp.apply l.start l.acknowledged ∨
      ∃ op ∈ l.sinceAcknowledged, d.core = op.apply (run RecorderOp.apply l.start l.acknowledged)) ∧
    (∀ d l later d' l', p = .up d l → (∀ w op, .call w op ∈ later → ∀ change, op ≠ .installMembership change) →
      run S.step p later = .up d' l' → d.core.ReflectedIn d'.core) := by
  intro S p
  have hS := journals hcodec config path temporary parent
  have hallowed : ∀ {acts : List (ServiceAction UInt8 Surroundings (RecorderOp V))},
      (∀ w op, .call w op ∈ acts → ∀ change, op ≠ .installMembership change) →
      ∀ a ∈ acts, Service.allows (fun op => ∀ change, op ≠ .installMembership change) a := by
    intro acts hacts a ha
    cases a with
    | call w op => exact hacts w op ha
    | crash | restart => trivial
  have hp := Service.recoverable_run hS hfiles (hallowed hactions)
  have hsaves : p.SavesAll := Service.savesAll_run call_saves files actions
  refine ⟨fun d l hup => ?_, fun fs l survivor lost w hdown hread => ?_,
    fun fs l survivor lost w d l' hdown hstep => ?_,
    fun d l later d' l' hup hlater hrun => ?_⟩
  · rw [show run S.step (.down files none) actions = .up d l from hup] at hp
    exact hp.1
  · rw [show run S.step (.down files none) actions = .down fs (some l) from hdown] at hp
    obtain ⟨d, l', hboot⟩ := Service.comes_up survivor lost (start_isSome hread) hp
    have hnew := (Service.recovered hS hp hboot).1
    rw [hdown]
    exact ⟨d, hnew ▸ hboot⟩
  · rw [show run S.step (.down files none) actions = .down fs (some l) from hdown] at hp
    rw [hdown] at hstep hsaves
    have hleave := (Service.recovered hS hp hstep).2
    unfold Lifetime.MayLeave at hleave
    rw [Lifetime.attempted_eq_sinceAcknowledged (hsaves l rfl)] at hleave
    exact hleave
  · rw [show run S.step (.down files none) actions = .up d l from hup] at hp
    rw [hup] at hrun
    exact Service.reaches_run hS .refl (fun _ _ _ => .trans) RecorderCore.reflectedIn_apply hp (hallowed hlater) hrun

end

def singleCodec [DecidableEq V] (only : RecorderSnapshot V) : RecorderCodec V where
  encode s := if s = only then .ok [1] else .error (.storageError "no encoding")
  decode bytes := if bytes = [1] then .ok only else .error (.storageError "no snapshot")

private theorem singleCodec_roundTrips [DecidableEq V] (only : RecorderSnapshot V) : (singleCodec only).RoundTrips := by
  intro s bytes henc
  simp only [singleCodec] at henc ⊢
  split_ifs at henc with hs
  cases henc
  rw [if_pos rfl, hs]

/-- The process is killed between the rename and the sync of the directory. The call was not
acknowledged; when the rename survives, the restart finds its decision. -/
theorem restart_recovers_acknowledged_calls_killed :
    let config : RecorderConfig := ⟨2, threeVoters, RecorderLimits.default⟩
    let decided : RecorderOp Nat := .informDecision ⟨1, [10], 1, 4⟩
    let S := server (singleCodec (decided.apply (RecorderCore.new config)).snapshot) config "state" "state.recorder.tmp"
      "."
    let killed : Surroundings :=
      { Surroundings.obliging with point := fun p => if p = .recorderRenamed then .killed else .passed }
    let p := run S.step (.down .empty none) [.restart 0 (fun _ => []) .obliging, .call killed decided]
    ∃ fs l, p = .down fs (some l) ∧ l.acknowledged.length = 0 ∧
      ∃ d, S.step p (.restart 2 (fun _ => []) .obliging) = .up d ⟨d.core, []⟩ ∧
        d.core.decisions.get 1 = some ⟨1, [10], 1, 4⟩ := by
  intro config decided S killed p
  have hclaim := restart_recovers_acknowledged_calls _
    (singleCodec_roundTrips (decided.apply (RecorderCore.new config)).snapshot)
    config "state" "state.recorder.tmp" "." .empty (FileSystem.retains_empty trivial)
    [.restart 0 (fun _ => []) .obliging, .call killed decided] (by
      intro w op hop change
      obtain ⟨_, rfl⟩ : w = killed ∧ op = decided := by simpa using hop
      intro hinstalls
      simp only [decided, reduceCtorEq] at hinstalls)
  have hdown : p.downWith (fun l => decide (l.acknowledged.length = 0)) = true := by decide +kernel
  have hup : (S.step p (.restart 2 (fun _ => []) .obliging)).upWith (fun d =>
      decide (d.core.decisions.get 1 = some ⟨1, [10], 1, 4⟩)) = true := by decide +kernel
  obtain ⟨fs, l, hp, hnone⟩ := Service.exists_down hdown
  obtain ⟨d, hstep⟩ := hclaim.2.1 fs l 2 (fun _ => []) .obliging hp rfl
  rw [hstep] at hup
  exact ⟨fs, l, hp, of_decide_eq_true hnone, d, hstep, of_decide_eq_true hup⟩

end DurableRecorderCore
end QuePaxa
