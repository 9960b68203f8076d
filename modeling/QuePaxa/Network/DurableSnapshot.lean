import QuePaxa.Core.DurableFile

/-! Snapshots of the network stores as they lie on disk: a serialized value in an envelope with
a version and a checksum, bounded in size. -/
namespace QuePaxa
open Library
variable {T : Type}
variable {bytes : List UInt8}

structure Postcard (T : Type) where
  toAllocvec : T → Except String (List UInt8)
  fromBytes : List UInt8 → Except String T

def Postcard.RoundTrips (p : Postcard T) : Prop := ∀ x bytes, p.toAllocvec x = .ok bytes → p.fromBytes bytes = .ok x

structure StorageEnvelope where
  version : Nat
  checksum : List UInt8
  payload : List UInt8
  deriving DecidableEq

structure SnapshotFormat (T : Type) where
  values : Postcard T
  envelope : Postcard StorageEnvelope
  digest : List UInt8 → List UInt8

/-- Serialization round-trips, and an envelope takes up at least one byte. -/
structure SnapshotFormat.Faithful (format : SnapshotFormat T) : Prop where
  values : format.values.RoundTrips
  envelope : format.envelope.RoundTrips
  nonempty : ∀ e bytes, format.envelope.toAllocvec e = .ok bytes → bytes ≠ []

structure SnapshotKind where
  version : Nat
  label : String
  valuesLabel : String
  versionLabel : String
  directoryLabel : String
  resource : String
  zeroLimit : String
  opened : CrashPoint
  written : CrashPoint
  synced : CrashPoint
  renamed : CrashPoint
  directorySynced : CrashPoint

namespace SnapshotKind

def batches : SnapshotKind where
  version := 2
  label := "batch snapshot"
  valuesLabel := "batch values"
  versionLabel := "batch storage version"
  directoryLabel := "batch"
  resource := "durable batch bytes"
  zeroLimit := "maximum batch snapshot size must be non-zero"
  opened := .batchTemporaryOpened
  written := .batchTemporaryWritten
  synced := .batchTemporarySynced
  renamed := .batchRenamed
  directorySynced := .batchDirectorySynced

def submissionJournal : SnapshotKind where
  version := 1
  label := "submission journal"
  valuesLabel := "submission journal payload"
  versionLabel := "submission journal version"
  directoryLabel := "submission journal"
  resource := "durable deduplication bytes"
  zeroLimit := "maximum deduplication snapshot size must be non-zero"
  opened := .submissionJournalTemporaryOpened
  written := .submissionJournalTemporaryWritten
  synced := .submissionJournalTemporarySynced
  renamed := .submissionJournalRenamed
  directorySynced := .submissionJournalDirectorySynced

def exactlyOnce : SnapshotKind where
  version := 1
  label := "exactly-once state"
  valuesLabel := "exactly-once state payload"
  versionLabel := "exactly-once state version"
  directoryLabel := "exactly-once state"
  resource := "durable deduplication bytes"
  zeroLimit := "maximum deduplication snapshot size must be non-zero"
  opened := .exactlyOnceTemporaryOpened
  written := .exactlyOnceTemporaryWritten
  synced := .exactlyOnceTemporarySynced
  renamed := .exactlyOnceRenamed
  directorySynced := .exactlyOnceDirectorySynced

def couldNotCode (action label error : String) : QuePaxaError := .storageError s!"could not {action} {label}: {error}"

variable (kind : SnapshotKind) (format : SnapshotFormat T) (maxSnapshotBytes : Nat)

def validateSnapshotLimit : Result Unit := require (maxSnapshotBytes ≠ 0) (.storageError kind.zeroLimit)

def pack (value : T) : Result (List UInt8) :=
  match format.values.toAllocvec value with
  | .error error => .error (couldNotCode "encode" kind.valuesLabel error)
  | .ok payload =>
    match format.envelope.toAllocvec ⟨kind.version, format.digest payload, payload⟩ with
    | .error error => .error (couldNotCode "encode" kind.label error)
    | .ok bytes =>
      if maxSnapshotBytes < bytes.length then .error (.resourceLimit kind.resource maxSnapshotBytes) else .ok bytes

def unpack (bytes : List UInt8) : Result T :=
  let size := bytes.length
  let label := kind.label
  if bytes = [] ∨ maxSnapshotBytes < size then
    .error (.storageError s!"{label} size {size} is outside the configured bound")
  else
    match format.envelope.fromBytes bytes with
    | .error error => .error (couldNotCode "decode" label error)
    | .ok envelope =>
      let version := envelope.version
      let versionLabel := kind.versionLabel
      if version ≠ kind.version then .error (.storageError s!"unsupported {versionLabel} {version}")
      else if format.digest envelope.payload ≠ envelope.checksum then
        .error (.storageError s!"{label} checksum verification failed")
      else
        match format.values.fromBytes envelope.payload with
        | .error error => .error (couldNotCode "decode" (label ++ " payload") error)
        | .ok value => .ok value

/-- The batch store checks its limit when it is opened, the other stores at every use. -/
def encodeSnapshot (value : T) : Result (List UInt8) := do
  kind.validateSnapshotLimit maxSnapshotBytes
  kind.pack format maxSnapshotBytes value

def decodeSnapshot (bytes : List UInt8) : Result T := do
  kind.validateSnapshotLimit maxSnapshotBytes
  kind.unpack format maxSnapshotBytes bytes

variable {kind format maxSnapshotBytes}

theorem unpack_pack (h : format.Faithful) {value : T}
    (henc : kind.pack format maxSnapshotBytes value = .ok bytes) :
    kind.unpack format maxSnapshotBytes bytes = .ok value := by
  simp only [pack] at henc
  cases hvalues : format.values.toAllocvec value with
  | error error =>
    rw [hvalues] at henc
    cases henc
  | ok payload =>
    simp only [hvalues] at henc
    cases henvelope : format.envelope.toAllocvec ⟨kind.version, format.digest payload, payload⟩ with
    | error error =>
      rw [henvelope] at henc
      cases henc
    | ok sealed =>
      simp only [henvelope] at henc
      split_ifs at henc with hsize
      cases henc
      have hbound : ¬(bytes = [] ∨ maxSnapshotBytes < bytes.length) := by
        rintro (hempty | hlarge)
        · exact h.nonempty _ _ henvelope hempty
        · exact hsize hlarge
      simp [unpack, hbound, h.envelope _ _ henvelope, h.values _ _ hvalues]

theorem decode_encode (h : format.Faithful) {value : T}
    (henc : kind.encodeSnapshot format maxSnapshotBytes value = .ok bytes) :
    kind.decodeSnapshot format maxSnapshotBytes bytes = .ok value := by
  obtain ⟨hlimit, hpack⟩ := unit_bind_eq_ok.mp henc
  exact unit_bind_eq_ok.mpr ⟨hlimit, unpack_pack h hpack⟩

end SnapshotKind

def Postcard.listed {T : Type} [DecidableEq T] (table : List T) : Postcard T where
  toAllocvec x := if x ∈ table then .ok (List.replicate (table.idxOf x + 1) 1) else .error "no encoding"
  fromBytes bytes := (table[bytes.length - 1]?).elim (.error "no value") .ok

theorem Postcard.listed_encoded {T : Type} [DecidableEq T] {table : List T} {x : T}
    (h : (listed table).toAllocvec x = .ok bytes) : x ∈ table ∧ bytes = List.replicate (table.idxOf x + 1) 1 := by
  simp only [listed] at h
  split_ifs at h with hx
  exact ⟨hx, (Except.ok.inj h).symm⟩

private theorem Postcard.listed_roundTrips {T : Type} [DecidableEq T] (table : List T) : (listed table).RoundTrips := by
  intro x bytes henc
  obtain ⟨hx, rfl⟩ := listed_encoded henc
  simp [listed, List.getElem?_idxOf hx]

def SnapshotFormat.listed {T : Type} [DecidableEq T] (kind : SnapshotKind) (table : List T) : SnapshotFormat T where
  values := .listed table
  envelope := .listed ((List.range table.length).map fun i => ⟨kind.version, [], List.replicate (i + 1) 1⟩)
  digest := fun _ => []

theorem SnapshotFormat.listed_faithful {T : Type} [DecidableEq T] (kind : SnapshotKind) (table : List T) :
    (listed kind table).Faithful := by
  refine ⟨Postcard.listed_roundTrips _, Postcard.listed_roundTrips _, fun e bytes henc => ?_⟩
  obtain ⟨_, rfl⟩ := Postcard.listed_encoded henc
  simp

end QuePaxa
