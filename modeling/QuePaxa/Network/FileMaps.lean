import QuePaxa.Library.CrashRecovery
import QuePaxa.Network.DurableSnapshot

/-! The file-backed maps of a node: the batch store and the submission journal. A call that
changes the map replaces the file before it is acknowledged. A call that finds the map as it
should be is acknowledged without a save. -/
namespace QuePaxa
open Library

/-- The client's 16 bytes as one big-endian number, and the request number. -/
abbrev SubmissionKey := Nat ×ₗ Nat

inductive SubmissionOutcome (V : Type) where
  | accepted
  | committed (decision : Decision V)
  | duplicate (decision : Option (Decision V))
  deriving DecidableEq

structure FileMap (K X : Type) [LinearOrder K] where
  values : OrderedMap K X
  maxSnapshotBytes : Nat
  path : String
  temporary : String
  parent : String
  disk : Disk

structure MapStore (K X : Type) [LinearOrder K] where
  kind : SnapshotKind
  encode : Nat → OrderedMap K X → Result (List UInt8)
  decode : Nat → List UInt8 → Result (OrderedMap K X)
  conflict : QuePaxaError

namespace FileMap
variable {K X : Type} [LinearOrder K] (store : MapStore K X)

def target (m : FileMap K X) : SnapshotTarget where
  path := m.path
  temporary := m.temporary
  parent := m.parent
  opened := store.kind.opened
  written := store.kind.written
  synced := store.kind.synced
  renamed := store.kind.renamed
  directorySynced := store.kind.directorySynced
  label := store.kind.label
  directoryLabel := store.kind.directoryLabel

def load : EStateM QuePaxaError (FileMap K X) Unit := do
  let m ← get
  check (store.kind.validateSnapshotLimit m.maxSnapshotBytes)
  match ← zoom (·.disk) (fun m disk => { m with disk }) (Disk.read (m.target store)) with
  | some bytes =>
    let values ← check (store.decode m.maxSnapshotBytes bytes)
    modify ({ · with values })
  | none => modify ({ · with values := ∅ })

def save (values : OrderedMap K X) : EStateM QuePaxaError (FileMap K X) Unit := do
  let m ← get
  let bytes ← check (store.encode m.maxSnapshotBytes values)
  zoom (·.disk) (fun m disk => { m with disk }) (Disk.replace (m.target store) bytes)

def adopt (next : OrderedMap K X) : EStateM QuePaxaError (FileMap K X) Unit := do
  save store next
  modify ({ · with values := next })

def put [DecidableEq X] (key : K) (value : X) : EStateM QuePaxaError (FileMap K X) Unit := do
  let m ← get
  match m.values.get key with
  | some existing => check (require (existing = value) store.conflict)
  | none => adopt store (m.values.insert key value)

def removeMany (keys : List K) : EStateM QuePaxaError (FileMap K X) Nat := do
  let m ← get
  let next := m.values.retain fun key _ => key ∉ keys
  let removed := m.values.size - next.size
  onlyIf (0 < removed) (adopt store next)
  pure removed

end FileMap

abbrev FileBatchStore (V : Type) [LinearOrder V] := FileMap V (List UInt8)

namespace FileBatchStore
variable {V : Type} [LinearOrder V] (format : SnapshotFormat (OrderedMap V (List UInt8)))

def store : MapStore V (List UInt8) where
  kind := .batches
  encode := SnapshotKind.batches.pack format
  decode := SnapshotKind.batches.unpack format
  conflict := .invalidProposal "one batch ID was published with different payloads"

def put (valueId : V) (payload : List UInt8) : EStateM QuePaxaError (FileBatchStore V) Unit :=
  FileMap.put (store format) valueId payload

def removeMany (valueIds : List V) : EStateM QuePaxaError (FileBatchStore V) Nat :=
  FileMap.removeMany (store format) valueIds

end FileBatchStore

abbrev FileSubmissionJournal (V : Type) := FileMap SubmissionKey (SubmissionOutcome V)

namespace FileSubmissionJournal
variable {V : Type} (format : SnapshotFormat (OrderedMap SubmissionKey (SubmissionOutcome V)))

def store : MapStore SubmissionKey (SubmissionOutcome V) where
  kind := .submissionJournal
  encode := SnapshotKind.submissionJournal.encodeSnapshot format
  decode := SnapshotKind.submissionJournal.decodeSnapshot format
  conflict := .invalidProposal "submission request ID already has a different outcome"

def put [DecidableEq V] (key : SubmissionKey) (outcome : SubmissionOutcome V) :
    EStateM QuePaxaError (FileSubmissionJournal V) Unit :=
  FileMap.put (store format) key outcome

end FileSubmissionJournal

/-- One call on a file-backed map. The journal has no removal. -/
inductive MapOp (K X : Type) where
  | put (key : K) (value : X)
  | removeMany (keys : List K)

namespace MapOp
variable {K X : Type} [LinearOrder K]

def apply (values : OrderedMap K X) : MapOp K X → OrderedMap K X
  | .put key value => values.orInsert key value
  | .removeMany keys => values.retain fun key _ => key ∉ keys

def exec [DecidableEq X] (store : MapStore K X) : MapOp K X → EStateM QuePaxaError (FileMap K X) Unit
  | .put key value => FileMap.put store key value
  | .removeMany keys => do let _ ← FileMap.removeMany store keys

end MapOp

namespace FileMap
variable {K X : Type} [LinearOrder K] [DecidableEq X]

def within (m : FileMap K X) (surroundings : Surroundings) : FileMap K X :=
  { m with disk := ⟨m.disk.files, surroundings, true⟩ }

def mapFrom (store : MapStore K X) (maxSnapshotBytes : Nat) (contents : Option (List UInt8)) :
    Option (OrderedMap K X) :=
  if maxSnapshotBytes = 0 then none
  else match contents with
    | none => some ∅
    | some bytes => (store.decode maxSnapshotBytes bytes).toOption

/-- A file-backed map as a server whose calls run `exec` and are meant to do `op`. -/
def server {ι : Type} (store : MapStore K X) (op : ι → MapOp K X) (exec : ι → EStateM QuePaxaError (FileMap K X) Unit)
    (maxSnapshotBytes : Nat) (path temporary parent : String) :
    Server StoreFile UInt8 Surroundings ι (FileMap K X) (OrderedMap K X) where
  name := .path
  spare := .temporary
  disk m := m.disk.files
  view m := m.values
  start surroundings files :=
    match load store ⟨∅, maxSnapshotBytes, path, temporary, parent, ⟨files, surroundings, true⟩⟩ with
    | .ok _ m => some m
    | .error _ _ => none
  call surroundings i m :=
    match exec i (m.within surroundings) with
    | .ok _ m' => (m', some (if (op i).apply m.values = m.values then .unchanged else .saved))
    | .error _ m' => (m', if m'.disk.alive then some .failed else none)

end FileMap

def MapStore.RoundTrips {K X : Type} [LinearOrder K] (store : MapStore K X) : Prop :=
  ∀ limit values bytes, store.encode limit values = .ok bytes → store.decode limit bytes = .ok values

private theorem FileBatchStore.roundTrips {V : Type} [LinearOrder V]
    {format : SnapshotFormat (OrderedMap V (List UInt8))}
    (h : format.Faithful) : (store format).RoundTrips := fun _ _ _ => SnapshotKind.unpack_pack h

private theorem FileSubmissionJournal.roundTrips {V : Type}
    {format : SnapshotFormat (OrderedMap SubmissionKey (SubmissionOutcome V))}
    (h : format.Faithful) : (store format).RoundTrips := fun _ _ _ => SnapshotKind.decode_encode h

namespace FileMap
variable {K X : Type} [LinearOrder K]

theorem load_cases (store : MapStore K X) (m : FileMap K X) :
    (∃ e m', load store m = .error e m' ∧
      (m.disk.surroundings.read ≠ none ∨ mapFrom store m.maxSnapshotBytes (m.disk.files.read .path) = none)) ∨
    ∃ values, load store m = .ok () { m with values } ∧
      mapFrom store m.maxSnapshotBytes (m.disk.files.read .path) = some values := by
  simp only [load, bind_apply, get_apply, SnapshotKind.validateSnapshotLimit, mapFrom]
  by_cases hlimit : m.maxSnapshotBytes = 0
  · refine .inl ⟨.storageError store.kind.zeroLimit, m, ?_, .inr (if_pos hlimit)⟩
    simp [require, hlimit]
  simp only [require, ne_eq, hlimit, not_false_iff, if_true, if_false, check_ok, zoom, Disk.read]
  cases hread : m.disk.surroundings.read with
  | some error => exact .inl ⟨_, _, rfl, .inl (by simp)⟩
  | none =>
    cases hfile : m.disk.files.read .path with
    | none => exact .inr ⟨∅, rfl, rfl⟩
    | some bytes =>
      cases hdecode : store.decode m.maxSnapshotBytes bytes with
      | error e =>
        refine .inl ⟨e, m, ?_, .inr ?_⟩ <;> simp [hdecode, Except.toOption]
      | ok values =>
        refine .inr ⟨values, ?_, ?_⟩ <;> simp [hdecode, Except.toOption]

private theorem save_cases (store : MapStore K X) (values : OrderedMap K X) (m : FileMap K X)
    {Old : Option (List UInt8) → Prop}
    (h : m.disk.files.Retains .path .temporary Old) :
    (∃ e disk, save store values m = .error e { m with disk } ∧ disk.files.Retains .path .temporary fun c =>
      Old c ∨ ∃ bytes, store.encode m.maxSnapshotBytes values = .ok bytes ∧ c = some bytes) ∨
    ∃ disk bytes, save store values m = .ok () { m with disk } ∧ store.encode m.maxSnapshotBytes values = .ok bytes ∧
      disk.files.Retains .path .temporary (· = some bytes) := by
  simp only [save, bind_apply, get_apply]
  cases henc : store.encode m.maxSnapshotBytes values with
  | error e => exact .inl ⟨e, m.disk, rfl, h.mono fun _ => .inl⟩
  | ok bytes =>
    have hreplace := Disk.triple_replace (m.target store) bytes Old m.disk h
    simp only [check_ok, zoom]
    cases hx : Disk.replace (m.target store) bytes m.disk with
    | error e disk =>
      rw [hx] at hreplace
      exact .inl ⟨e, disk, rfl, hreplace.mono fun c hc => hc.imp_right fun hc => ⟨bytes, rfl, hc⟩⟩
    | ok _ disk =>
      rw [hx] at hreplace
      exact .inr ⟨disk, bytes, rfl, rfl, hreplace⟩

end FileMap

namespace MapOp
variable {K X : Type} [LinearOrder K]

private theorem get_of_apply {values : OrderedMap K X} {o : MapOp K X} {key : K} {value : X}
    (h : values.get key = some value) :
    (o.apply values).get key = some value ∨ ∃ keys, o = .removeMany keys ∧ key ∈ keys := by
  cases o with
  | put key' value' =>
    refine .inl ?_
    simp only [apply, OrderedMap.get_orInsert]
    split_ifs with hk
    · rw [← hk, h]
      rfl
    · exact h
  | removeMany keys =>
    by_cases hk : key ∈ keys
    · exact .inr ⟨keys, rfl, hk⟩
    · exact .inl ((OrderedMap.get_retain ..).mpr ⟨h, by simpa using hk⟩)

variable [DecidableEq X]

private theorem exec_conflict (store : MapStore K X) {m : FileMap K X} {key : K} {value existing : X}
    (hget : m.values.get key = some existing) (hne : existing ≠ value) :
    (put key value).exec store m = .error store.conflict m := by
  simp [exec, FileMap.put, hget, require, hne]

/-- A call finds the map as it should be, or in conflict, or it saves the changed map. -/
theorem exec_cases (store : MapStore K X) (op : MapOp K X) (m : FileMap K X) :
    (op.apply m.values = m.values ∧ op.exec store m = .ok () m) ∨
    (∃ key value existing, op = .put key value ∧ m.values.get key = some existing ∧ existing ≠ value ∧
      op.exec store m = .error store.conflict m) ∨
    (op.apply m.values ≠ m.values ∧ op.exec store m = FileMap.adopt store (op.apply m.values) m) := by
  cases op with
  | put key value =>
    have hexec : (put key value).exec store m = (match m.values.get key with
      | some existing => check (require (existing = value) store.conflict)
      | none => FileMap.adopt store (m.values.insert key value) : EStateM QuePaxaError (FileMap K X) Unit) m := rfl
    rw [hexec]
    cases hget : m.values.get key with
    | some existing =>
      by_cases hsame : existing = value
      · refine .inl ⟨?_, ?_⟩
        · simp [apply, OrderedMap.orInsert, OrderedMap.contains, hget]
        · simp [require, hsame]
      · exact .inr (.inl ⟨key, value, existing, rfl, hget, hsame, by simp [require, hsame]⟩)
    | none =>
      have happly : apply m.values (put key value) = m.values.insert key value := by
        simp [apply, OrderedMap.orInsert, OrderedMap.contains, hget]
      rw [happly]
      refine .inr (.inr ⟨fun heq => ?_, rfl⟩)
      have hnew : (m.values.insert key value).get key = some value := OrderedMap.get_insert_self ..
      rw [heq, hget] at hnew
      cases hnew
  | removeMany keys =>
    let next := m.values.retain fun key _ => key ∉ keys
    have hexec : (removeMany keys : MapOp K X).exec store m =
        (onlyIf (0 < m.values.size - next.size) (FileMap.adopt store next) >>= fun _ => pure ()) m := by
      simp only [exec, FileMap.removeMany, bind_apply, get_apply, pure_apply]
      cases onlyIf (0 < m.values.size - next.size) (FileMap.adopt store next) m <;> rfl
    rw [hexec]
    by_cases hremoved : 0 < m.values.size - next.size
    · refine .inr (.inr ⟨fun heq => ?_, ?_⟩)
      · rw [show next = m.values from heq] at hremoved
        omega
      · rw [onlyIf, if_pos hremoved, bind_apply, show (removeMany keys).apply m.values = next from rfl]
        cases FileMap.adopt store next m <;> rfl
    · rw [onlyIf, if_neg hremoved]
      exact .inl ⟨OrderedMap.retain_eq_self (Nat.le_of_sub_eq_zero (Nat.eq_zero_of_not_pos hremoved)), rfl⟩

end MapOp

namespace FileMap
variable {K X ι : Type} [LinearOrder K] [DecidableEq X] {store : MapStore K X} {maxSnapshotBytes : Nat}
  {path temporary parent : String}

/-- What a call does to a running map: it stands, it is refused as a conflict, its save fails, or it is saved. -/
theorem call_cases (op : ι → MapOp K X) (w : Surroundings) (i : ι) (m : FileMap K X) {Old : Option (List UInt8) → Prop}
    (h : m.disk.files.Retains .path .temporary Old) :
    let S := server store op (fun i => (op i).exec store) maxSnapshotBytes path temporary parent
    ((op i).apply m.values = m.values ∧ S.call w i m = (m.within w, some .unchanged)) ∨
    (∃ key value existing, op i = .put key value ∧ m.values.get key = some existing ∧ existing ≠ value ∧
      S.call w i m = (m.within w, some .failed)) ∨
    (∃ disk, S.call w i m = ({ m with disk }, if disk.alive then some .failed else none) ∧
      disk.files.Retains .path .temporary fun c =>
        Old c ∨ ∃ bytes, store.encode m.maxSnapshotBytes ((op i).apply m.values) = .ok bytes ∧ c = some bytes) ∨
    ∃ disk bytes, S.call w i m = ({ m with values := (op i).apply m.values, disk }, some .saved) ∧
      store.encode m.maxSnapshotBytes ((op i).apply m.values) = .ok bytes ∧
        disk.files.Retains .path .temporary (· = some bytes) := by
  intro S
  have hcall : S.call w i m = match (op i).exec store (m.within w) with
    | .ok _ m' => (m', some (if (op i).apply m.values = m.values then .unchanged else .saved))
    | .error _ m' => (m', if m'.disk.alive then some .failed else none) := rfl
  rw [hcall]
  rcases (op i).exec_cases store (m.within w) with ⟨hsame, heq⟩ | ⟨key, value, existing, hop, hget, hne, heq⟩ |
    ⟨hchanged, heq⟩
  · have hsame : (op i).apply m.values = m.values := hsame
    rw [heq]
    exact .inl ⟨hsame, by simp only [if_pos hsame]⟩
  · rw [heq]
    exact .inr (.inl ⟨key, value, existing, hop, hget, hne, rfl⟩)
  · have hchanged : (op i).apply m.values ≠ m.values := hchanged
    rw [heq]
    unfold adopt
    rw [bind_apply]
    rcases save_cases store ((op i).apply m.values) (m.within w) h with ⟨e, disk, hsave, hfiles⟩ |
      ⟨disk, bytes, hsave, henc, hfiles⟩
    · rw [show (m.within w).values = m.values from rfl, hsave]
      exact .inr (.inr (.inl ⟨disk, rfl, hfiles⟩))
    · rw [show (m.within w).values = m.values from rfl, hsave]
      refine .inr (.inr (.inr ⟨disk, bytes, ?_, henc, hfiles⟩))
      simp only [modify_apply, if_neg hchanged]
      rfl

private theorem journals (hstore : store.RoundTrips) (op : ι → MapOp K X) (maxSnapshotBytes : Nat)
    (path temporary parent : String) :
    (server store op (fun i => (op i).exec store) maxSnapshotBytes path temporary parent).Journals
      (fun values i => (op i).apply values)
      (mapFrom store maxSnapshotBytes) (fun _ => True) (fun m => m.maxSnapshotBytes = maxSnapshotBytes ∧
        maxSnapshotBytes ≠ 0) where
  started w fs m hstart := by
    simp only [server] at hstart
    rcases load_cases store ⟨∅, maxSnapshotBytes, path, temporary, parent, ⟨fs, w, true⟩⟩ with ⟨e, m', heq, _⟩ |
      ⟨values, heq, hload⟩
    · rw [heq] at hstart
      cases hstart
    · rw [heq] at hstart
      cases hstart
      refine ⟨hload, rfl, rfl, fun hzero => ?_⟩
      simp [mapFrom, hzero] at hload
  call w i m P _ hgood hdisk := by
    have hsaved : ∀ bytes, store.encode m.maxSnapshotBytes ((op i).apply m.values) = .ok bytes →
        mapFrom store maxSnapshotBytes (some bytes) = some ((op i).apply m.values) := by
      intro bytes henc
      rw [hgood.1] at henc
      simp [mapFrom, hgood.2, hstore _ _ _ henc, Except.toOption]
    rcases call_cases op w i m hdisk with ⟨hsame, heq⟩ | ⟨_, _, _, _, _, _, heq⟩ | ⟨disk, heq, hfiles⟩ |
      ⟨disk, bytes, heq, henc, hfiles⟩
    · rw [heq]
      exact ⟨rfl, hsame, hdisk⟩
    · rw [heq]
      exact ⟨rfl, hdisk.mono fun _ => .inl⟩
    · rw [heq]
      have hleft : disk.files.Retains .path .temporary fun c =>
          P c ∨ mapFrom store maxSnapshotBytes c = some ((op i).apply m.values) := by
        refine hfiles.mono fun c hc => hc.imp_right ?_
        rintro ⟨bytes, henc, rfl⟩
        exact hsaved bytes henc
      cases disk.alive with
      | true => exact ⟨rfl, hleft⟩
      | false => exact hleft
    · rw [heq]
      exact ⟨rfl, hfiles.mono fun c hc => hc ▸ hsaved bytes henc⟩
  good w i m P _ hgood hdisk := by
    rcases call_cases op w i m hdisk with ⟨_, heq⟩ | ⟨_, _, _, _, _, _, heq⟩ | ⟨disk, heq, _⟩ | ⟨disk, bytes, heq, _, _⟩
    all_goals
      rw [heq]
      exact hgood

private theorem start_isSome {w : Surroundings} (op : ι → MapOp K X) (hread : w.read = none)
    (fs : FileSystem StoreFile UInt8)
    (values : OrderedMap K X) (hload : mapFrom store maxSnapshotBytes (fs.read .path) = some values) :
    ((server store op (fun i => (op i).exec store) maxSnapshotBytes path temporary parent).start w fs).isSome := by
  simp only [server]
  rcases load_cases store ⟨∅, maxSnapshotBytes, path, temporary, parent, ⟨fs, w, true⟩⟩ with ⟨e, m', heq, hbad⟩ |
    ⟨values, heq, _⟩
  · rcases hbad with hbad | hbad
    · exact absurd hread hbad
    · rw [hload] at hbad
      cases hbad
  · rw [heq]
    rfl

structure CrashAtomic (S : Server StoreFile UInt8 Surroundings ι (FileMap K X) (OrderedMap K X)) (op : ι → MapOp K X)
    (p : Service StoreFile UInt8 ι (FileMap K X) (OrderedMap K X)) : Prop where
  /-- In memory is the acknowledged map. -/
  running : ∀ m l, p = .up m l → m.values = run (fun values i => (op i).apply values) l.start l.acknowledged
  /-- A store that can be read is opened again. -/
  opens : ∀ fs l survivor lost w, p = .down fs (some l) → w.read = none →
    ∃ m, S.step p (.restart survivor lost w) = .up m ⟨m.values, []⟩
  /-- It then holds the acknowledged map, or that map after one call which was not acknowledged
  and was issued after the last acknowledged one that changed the map. -/
  reopened : ∀ fs l survivor lost w m l', p = .down fs (some l) → S.step p (.restart survivor lost w) = .up m l' →
    m.values = run (fun values i => (op i).apply values) l.start l.acknowledged ∨
    ∃ i ∈ l.attempted, m.values = (op i).apply (run (fun values i => (op i).apply values) l.start l.acknowledged)
  /-- What is stored stays as it is until it is removed. -/
  stored : ∀ m l w i m' l' key value, p = .up m l → S.step p (.call w i) = .up m' l' → m.values.get key = some value →
    m'.values.get key = some value ∨ ∃ keys, op i = .removeMany keys ∧ key ∈ keys
  /-- A conflicting put is rejected and changes nothing. -/
  conflict : ∀ m l w i key value existing, p = .up m l → op i = .put key value → m.values.get key = some existing →
    existing ≠ value → S.call w i m = (m.within w, some .failed)

private theorem crashAtomic_run (hstore : store.RoundTrips) (op : ι → MapOp K X) (maxSnapshotBytes : Nat)
    (path temporary parent : String)
    {files : FileSystem StoreFile UInt8} (hfiles : files.Retains .path .temporary fun _ => True)
    (actions : List (ServiceAction UInt8 Surroundings ι)) :
    let S := server store op (fun i => (op i).exec store) maxSnapshotBytes path temporary parent
    CrashAtomic S op (run S.step (.down files none) actions) := by
  intro S
  have hS := journals hstore op maxSnapshotBytes path temporary parent
  have hall : ∀ a ∈ actions, Service.allows (fun _ : ι => True) a := fun a _ => by cases a <;> trivial
  have hp := Service.recoverable_run hS hfiles hall
  generalize run S.step (.down files none) actions = p at hp
  refine ⟨fun m l hup => ?_, fun fs l survivor lost w hdown hread => ?_,
    fun fs l survivor lost w m l' hdown hstep => ?_,
    fun m l w i m' l' key value hup hstep hget => ?_, fun m l w i key value existing hup hop hget hne => ?_⟩
  · subst hup
    exact hp.1
  · subst hdown
    obtain ⟨m, l', hboot⟩ := Service.comes_up survivor lost (start_isSome op hread) hp
    have hnew := (Service.recovered hS hp hboot).1
    exact ⟨m, hnew ▸ hboot⟩
  · subst hdown
    exact (Service.recovered hS hp hstep).2
  · subst hup
    have hstep : S.ended l i (S.call w i m) = .up m' l' := hstep
    rcases call_cases op w i m hp.2.2 with ⟨_, heq⟩ | ⟨_, _, _, _, _, _, heq⟩ | ⟨disk, heq, _⟩ |
      ⟨disk, bytes, heq, _, _⟩
    · rw [heq] at hstep
      cases hstep
      exact .inl hget
    · rw [heq] at hstep
      cases hstep
      exact .inl hget
    · rw [heq] at hstep
      cases halive : disk.alive with
      | true =>
        rw [halive] at hstep
        cases hstep
        exact .inl hget
      | false =>
        rw [halive] at hstep
        cases hstep
    · rw [heq] at hstep
      cases hstep
      exact MapOp.get_of_apply hget
  · subst hup
    have hexec : (op i).exec store (m.within w) = .error store.conflict (m.within w) :=
      hop ▸ MapOp.exec_conflict store hget hne
    have hcall : S.call w i m = match (op i).exec store (m.within w) with
      | .ok _ m' => (m', some (if (op i).apply m.values = m.values then Outcome.unchanged else .saved))
      | .error _ m' => (m', if m'.disk.alive then some Outcome.failed else none) := rfl
    rw [hcall, hexec]
    rfl

end FileMap

namespace FileBatchStore
variable {V : Type} [LinearOrder V] (format : SnapshotFormat (OrderedMap V (List UInt8)))

def exec : MapOp V (List UInt8) → EStateM QuePaxaError (FileBatchStore V) Unit
  | .put valueId payload => put format valueId payload
  | .removeMany valueIds => do let _ ← removeMany format valueIds

def server (maxSnapshotBytes : Nat) (path temporary parent : String) :
    Server StoreFile UInt8 Surroundings (MapOp V (List UInt8)) (FileBatchStore V) (OrderedMap V (List UInt8)) :=
  FileMap.server (store format) id (exec format) maxSnapshotBytes path temporary parent

private theorem exec_eq (op : MapOp V (List UInt8)) : exec format op = op.exec (store format) := by cases op <;> rfl

end FileBatchStore

def FileSubmissionJournal.server {V : Type} [DecidableEq V]
    (format : SnapshotFormat (OrderedMap SubmissionKey (SubmissionOutcome V))) (maxSnapshotBytes : Nat)
    (path temporary parent : String) : Server StoreFile UInt8 Surroundings (SubmissionKey × SubmissionOutcome V)
      (FileSubmissionJournal V) (OrderedMap SubmissionKey (SubmissionOutcome V)) :=
  FileMap.server (store format) (fun x => .put x.1 x.2) (fun x => put format x.1 x.2) maxSnapshotBytes path temporary
    parent

/-- Crash atomicity of the two file-backed maps, over all runs from a disk whose state at the path is synced. -/
theorem file_maps_are_crash_atomic {V : Type} [LinearOrder V] (batches : SnapshotFormat (OrderedMap V (List UInt8)))
    (outcomes : SnapshotFormat (OrderedMap SubmissionKey (SubmissionOutcome V))) (hbatches : batches.Faithful)
    (houtcomes : outcomes.Faithful) (maxSnapshotBytes : Nat) (path temporary parent : String)
    (files : FileSystem StoreFile UInt8) (hfiles : files.Retains .path .temporary fun _ => True) :
    (∀ actions, FileMap.CrashAtomic (FileBatchStore.server batches maxSnapshotBytes path temporary parent) id
      (run (FileBatchStore.server batches maxSnapshotBytes path temporary parent).step (.down files none) actions)) ∧
    ∀ actions, FileMap.CrashAtomic (FileSubmissionJournal.server outcomes maxSnapshotBytes path temporary parent)
      (fun x => .put x.1 x.2)
      (run (FileSubmissionJournal.server outcomes maxSnapshotBytes path temporary parent).step (.down files none)
        actions) := by
  constructor
  · intro actions
    rw [FileBatchStore.server, funext (FileBatchStore.exec_eq batches)]
    exact FileMap.crashAtomic_run (FileBatchStore.roundTrips hbatches) id maxSnapshotBytes path temporary parent hfiles
      actions
  · intro actions
    exact FileMap.crashAtomic_run (FileSubmissionJournal.roundTrips houtcomes) _ maxSnapshotBytes path temporary parent
      hfiles actions

def Surroundings.unsynced : Surroundings :=
  { obliging with operation := fun p => if p = .batchDirectorySynced then .refused "io error" [] else .done }

/-- A put fails after its rename. A removal that finds nothing to remove is then acknowledged
without a save, and after the crash the put is found although no call was refused since. -/
theorem put_survives_a_later_acknowledgement :
    let format := SnapshotFormat.listed .batches [(∅ : OrderedMap Nat (List UInt8)).insert 1 [10]]
    let S := FileBatchStore.server format 100 "state" "state.batches.tmp" "."
    let p := run S.step (.down .empty none) [.restart 0 (fun _ => []) .obliging, .call .unsynced (.put 1 [10]),
      .call .obliging (.removeMany []), .crash]
    format.Faithful ∧ ∃ fs l, p = .down fs (some l) ∧ l.acknowledged.length = 1 ∧ l.sinceAcknowledged.length = 0 ∧
      (run MapOp.apply l.start l.acknowledged).get 1 = none ∧
      ∃ m l', S.step p (.restart 2 (fun _ => []) .obliging) = .up m l' ∧ m.values.get 1 = some [10] := by
  intro format S p
  have hdown : p.downWith (fun l => decide (l.acknowledged.length = 1 ∧ l.sinceAcknowledged.length = 0 ∧
      (run MapOp.apply l.start l.acknowledged).get 1 = none)) = true := by decide +kernel
  have hup : (S.step p (.restart 2 (fun _ => []) .obliging)).upWith (fun m =>
      decide (m.values.get 1 = some [10])) = true := by decide +kernel
  obtain ⟨fs, l, hp, hresult⟩ := Service.exists_down hdown
  obtain ⟨hacknowledged, hsince, hget⟩ := of_decide_eq_true hresult
  obtain ⟨m, l', hstep, hheld⟩ := Service.exists_up hup
  exact ⟨SnapshotFormat.listed_faithful _ _, fs, l, hp, hacknowledged, hsince, hget, m, l', hstep,
    of_decide_eq_true hheld⟩

/-- In the same run the store opens again, with the put as the one attempted call. -/
theorem file_maps_are_crash_atomic_unsynced :
    let format := SnapshotFormat.listed .batches [(∅ : OrderedMap Nat (List UInt8)).insert 1 [10]]
    let S := FileBatchStore.server format 100 "state" "state.batches.tmp" "."
    let p := run S.step (.down .empty none) [.restart 0 (fun _ => []) .obliging, .call .unsynced (.put 1 [10]),
      .call .obliging (.removeMany []), .crash]
    ∃ fs l, p = .down fs (some l) ∧ l.attempted.length = 1 ∧
      ∃ m, S.step p (.restart 2 (fun _ => []) .obliging) = .up m ⟨m.values, []⟩ := by
  intro format S p
  have hclaim := (file_maps_are_crash_atomic format (SnapshotFormat.listed .submissionJournal [])
    (SnapshotFormat.listed_faithful _ _) (SnapshotFormat.listed_faithful _ _) 100 "state" "state.batches.tmp" "." .empty
    (FileSystem.retains_empty trivial)).1 [.restart 0 (fun _ => []) .obliging, .call .unsynced (.put 1 [10]),
      .call .obliging (.removeMany []), .crash]
  have hdown : p.downWith (fun l => decide (l.attempted.length = 1)) = true := by decide +kernel
  obtain ⟨fs, l, hp, hone⟩ := Service.exists_down hdown
  obtain ⟨m, hstep⟩ := hclaim.opens fs l 2 (fun _ => []) .obliging hp rfl
  exact ⟨fs, l, hp, of_decide_eq_true hone, m, hstep⟩

end QuePaxa
