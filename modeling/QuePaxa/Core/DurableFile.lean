import QuePaxa.Core.Types
import QuePaxa.Library.FileSystem
import QuePaxa.Library.Mutation

/-! The write discipline of the file-backed stores: write a temporary file, sync it, rename
it into place and sync the directory, with a crash point after each of these steps. -/
namespace QuePaxa
open Library

inductive CrashPoint where
  | recorderTemporaryOpened
  | recorderTemporaryWritten
  | recorderTemporarySynced
  | recorderRenamed
  | recorderDirectorySynced
  | batchTemporaryOpened
  | batchTemporaryWritten
  | batchTemporarySynced
  | batchRenamed
  | batchDirectorySynced
  | submissionJournalTemporaryOpened
  | submissionJournalTemporaryWritten
  | submissionJournalTemporarySynced
  | submissionJournalRenamed
  | submissionJournalDirectorySynced
  | exactlyOnceTemporaryOpened
  | exactlyOnceTemporaryWritten
  | exactlyOnceTemporarySynced
  | exactlyOnceRenamed
  | exactlyOnceDirectorySynced
  deriving DecidableEq, Repr

/-- How one file operation ends. A failed or interrupted write may have put bytes into the file. -/
inductive StepAnswer where
  | done
  | refused (error : String) (left : List UInt8)
  | died (left : List UInt8)

inductive PointAnswer where
  | passed
  | failed (error : QuePaxaError)
  | killed

/-- What the surroundings do during one call. Operations are told apart by the crash point they lead to. -/
structure Surroundings where
  operation : CrashPoint → StepAnswer
  point : CrashPoint → PointAnswer
  /-- The error of reading the file, other than that there is none. -/
  read : Option String

def Surroundings.obliging : Surroundings := ⟨fun _ => .done, fun _ => .passed, none⟩

/-- The two names a store uses. An extension has no dot in it, so replacing it by one such
as `recorder.tmp` never gives the path itself. -/
inductive StoreFile where
  | path
  | temporary
  deriving DecidableEq

structure Disk where
  files : FileSystem StoreFile UInt8
  surroundings : Surroundings
  /-- Whether the process that makes the call is still running. -/
  alive : Bool

structure SnapshotTarget where
  path : String
  temporary : String
  parent : String
  opened : CrashPoint
  written : CrashPoint
  synced : CrashPoint
  renamed : CrashPoint
  directorySynced : CrashPoint
  label : String
  directoryLabel : String

namespace Disk
variable {α : Type}

def attempt (point : CrashPoint) (message : String → QuePaxaError)
    (operation : FileSystem StoreFile UInt8 → α × FileSystem StoreFile UInt8)
    (partly : List UInt8 → FileSystem StoreFile UInt8 → FileSystem StoreFile UInt8) : EStateM QuePaxaError Disk α :=
      fun d =>
  match d.surroundings.operation point with
  | .done => .ok (operation d.files).1 { d with files := (operation d.files).2 }
  | .refused error left => .error (message error) { d with files := partly left d.files }
  | .died left => .error (message "") { d with files := partly left d.files, alive := false }

/-- `CrashInjector::reached`. -/
def reached (point : CrashPoint) : EStateM QuePaxaError Disk Unit := fun d =>
  match d.surroundings.point point with
  | .passed => .ok () d
  | .failed error => .error error d
  | .killed => .error (.storageError "") { d with alive := false }

def couldNot (action label file error : String) : QuePaxaError :=
  .storageError s!"could not {action} {label} {file}: {error}"

def replace (target : SnapshotTarget) (bytes : List UInt8) : EStateM QuePaxaError Disk Unit := do
  let file ← attempt target.opened (couldNot "open" target.label target.temporary) (·.openTruncated .temporary)
    fun _ fs => fs
  reached target.opened
  attempt target.written (couldNot "write" target.label target.temporary) (fun fs => ((), fs.write file bytes))
    fun left fs => fs.write file left
  reached target.written
  attempt target.synced (couldNot "sync" target.label target.temporary) (fun fs => ((), fs.sync file)) fun _ fs => fs
  reached target.synced
  attempt target.renamed (couldNot "replace" target.label target.path) (fun fs => ((), fs.rename .temporary .path))
    fun _ fs => fs
  reached target.renamed
  attempt target.directorySynced (couldNot "sync" (target.directoryLabel ++ " directory") target.parent)
    (fun fs => ((), fs.syncDirectory)) fun _ fs => fs
  reached target.directorySynced

def read (target : SnapshotTarget) : EStateM QuePaxaError Disk (Option (List UInt8)) := fun d =>
  match d.surroundings.read with
  | some error => .error (couldNot "read" target.label target.path error) d
  | none => .ok (d.files.read .path) d

variable {point : CrashPoint} {message : String → QuePaxaError}
  {operation : FileSystem StoreFile UInt8 → α × FileSystem StoreFile UInt8}
  {partly : List UInt8 → FileSystem StoreFile UInt8 → FileSystem StoreFile UInt8}
  {P : FileSystem StoreFile UInt8 → Prop} {Q : α → FileSystem StoreFile UInt8 → Prop}
  {E : FileSystem StoreFile UInt8 → Prop}

private theorem triple_attempt (hdone : ∀ fs, P fs → Q (operation fs).1 (operation fs).2)
    (hpartly : ∀ left fs, P fs → E (partly left fs)) :
    Triple (fun d : Disk => P d.files) (attempt point message operation partly) (fun a d => Q a d.files)
      fun _ d => E d.files := by
  intro d hd
  unfold attempt
  cases d.surroundings.operation point with
  | done => exact hdone _ hd
  | refused error left => exact hpartly left _ hd
  | died left => exact hpartly left _ hd

private theorem triple_reached (h : ∀ fs, P fs → E fs) :
    Triple (fun d : Disk => P d.files) (reached point) (fun _ d => P d.files) fun _ d => E d.files := by
  intro d hd
  unfold reached
  cases d.surroundings.point point with
  | passed => exact hd
  | failed error => exact h _ hd
  | killed => exact h _ hd

/-- The file the store will find after a crash is the old one until the rename, and it can
be either one until the directory is synced. -/
theorem triple_replace (target : SnapshotTarget) (bytes : List UInt8) (Old : Option (List UInt8) → Prop) :
    Triple (fun d : Disk => d.files.Retains .path .temporary Old) (replace target bytes)
      (fun _ d => d.files.Retains .path .temporary (· = some bytes))
      fun _ d => d.files.Retains .path .temporary fun c => Old c ∨ c = some bytes := by
  let Keep (fs : FileSystem StoreFile UInt8) := fs.Retains .path .temporary Old
  let Either (fs : FileSystem StoreFile UInt8) := fs.Retains .path .temporary fun c => Old c ∨ c = some bytes
  let Opened (file : Nat) (fs : FileSystem StoreFile UInt8) :=
    Keep fs ∧ fs.directory .temporary = some file ∧ (fs.files file).data = []
  let Written (file : Nat) (fs : FileSystem StoreFile UInt8) :=
    Keep fs ∧ fs.directory .temporary = some file ∧ (fs.files file).data = bytes
  let Synced (file : Nat) (fs : FileSystem StoreFile UInt8) :=
    Keep fs ∧ fs.directory .temporary = some file ∧ fs.files file = ⟨bytes, true⟩
  let Renamed (fs : FileSystem StoreFile UInt8) := Either fs ∧ fs.read .path = some bytes
  let Settled (fs : FileSystem StoreFile UInt8) := fs.Retains .path .temporary (· = some bytes)
  have hne : StoreFile.path ≠ StoreFile.temporary := by decide
  have hold : ∀ fs, Keep fs → Either fs := fun fs h => h.mono fun _ => .inl
  have hwrite : ∀ file fs, Opened file fs → Written file (fs.write file bytes) := by
    intro file fs h
    refine ⟨h.1.write h.2.1 bytes, h.2.1, ?_⟩
    simp [FileSystem.write, h.2.2]
  have hsync : ∀ file fs, Written file fs → Synced file (fs.sync file) := by
    intro file fs h
    refine ⟨h.1.sync h.2.1, h.2.1, ?_⟩
    simp [FileSystem.sync, h.2.2]
  have hrename : ∀ file fs, Synced file fs → Renamed (fs.rename .temporary .path) := by
    intro file fs h
    have hmoved := h.1.rename hne h.2.1 (by rw [h.2.2])
    rwa [h.2.2] at hmoved
  have hsettle : ∀ fs, Renamed fs → Settled fs.syncDirectory := by
    intro fs h
    have hsettled := h.1.syncDirectory.settled rfl
    have hread : fs.syncDirectory.read .path = some bytes := h.2
    rwa [hread] at hsettled
  refine Triple.bind (triple_attempt (P := Keep) (E := Either) (Q := Opened)
    (fun fs h => h.openTruncated hne) fun _ fs h => hold fs h) fun file => ?_
  refine Triple.bind (triple_reached (P := Opened file) fun fs h => hold fs h.1) fun _ => ?_
  refine Triple.bind (triple_attempt (P := Opened file) (E := Either) (Q := fun _ => Written file)
    (hwrite file) fun left fs h => hold _ (h.1.write h.2.1 left)) fun _ => ?_
  refine Triple.bind (triple_reached (P := Written file) fun fs h => hold fs h.1) fun _ => ?_
  refine Triple.bind (triple_attempt (P := Written file) (E := Either) (Q := fun _ => Synced file)
    (hsync file) fun _ fs h => hold fs h.1) fun _ => ?_
  refine Triple.bind (triple_reached (P := Synced file) fun fs h => hold fs h.1) fun _ => ?_
  refine Triple.bind (triple_attempt (P := Synced file) (E := Either) (Q := fun _ => Renamed)
    (hrename file) fun _ fs h => hold fs h.1) fun _ => ?_
  refine Triple.bind (triple_reached (P := Renamed) fun fs h => h.1) fun _ => ?_
  refine Triple.bind (triple_attempt (P := Renamed) (E := Either) (Q := fun _ => Settled)
    hsettle fun _ fs h => h.1) fun _ => ?_
  exact triple_reached (P := Settled) fun fs h => h.mono fun _ => .inr

end Disk
end QuePaxa
