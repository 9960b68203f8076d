import QuePaxa.Library.Loops
import QuePaxa.Library.Replay
import QuePaxa.Network.DurableSnapshot

/-! The file-backed executor behind a deduplicating state machine. A command that is new is
applied to a copy of the application state, which replaces the file together with the
command's ID before it is adopted. -/
namespace QuePaxa
open Library

structure ExactlyOnceSnapshot (V A : Type) where
  checkpointedThrough : SlotIndex
  seen : Finset V
  application : A
  deriving DecidableEq

/-- What an executor is opened with. `apply` is what the callback makes of the application
state when it succeeds; whether it does is up to the attempt. -/
structure ExecutorSetup (V A : Type) where
  format : SnapshotFormat (ExactlyOnceSnapshot V A)
  path : String
  temporary : String
  parent : String
  maxSnapshotBytes : Nat
  initialApplication : A
  apply : A → SlotIndex → V → A

structure FileExactlyOnceExecutor (V A : Type) where
  snapshot : ExactlyOnceSnapshot V A
  disk : Disk

/-- What one attempt at a command meets: an error of the callback, and what happens to the save. -/
structure Attempt where
  refusal : Option QuePaxaError
  surroundings : Surroundings

def Attempt.obliging : Attempt := ⟨none, .obliging⟩

namespace ExecutorSetup
variable {V A : Type} (setup : ExecutorSetup V A)

def target : SnapshotTarget where
  path := setup.path
  temporary := setup.temporary
  parent := setup.parent
  opened := SnapshotKind.exactlyOnce.opened
  written := SnapshotKind.exactlyOnce.written
  synced := SnapshotKind.exactlyOnce.synced
  renamed := SnapshotKind.exactlyOnce.renamed
  directorySynced := SnapshotKind.exactlyOnce.directorySynced
  label := SnapshotKind.exactlyOnce.label
  directoryLabel := SnapshotKind.exactlyOnce.directoryLabel

def initial : ExactlyOnceSnapshot V A := ⟨.genesis, ∅, setup.initialApplication⟩

def snapshotFrom : Option (List UInt8) → Option (ExactlyOnceSnapshot V A)
  | none => some setup.initial
  | some bytes => (SnapshotKind.exactlyOnce.decodeSnapshot setup.format setup.maxSnapshotBytes bytes).toOption

end ExecutorSetup

namespace FileExactlyOnceExecutor
variable {V A : Type} (setup : ExecutorSetup V A)

def load : EStateM QuePaxaError (FileExactlyOnceExecutor V A) Unit := do
  check (SnapshotKind.exactlyOnce.validateSnapshotLimit setup.maxSnapshotBytes)
  match ← zoom (·.disk) (fun x disk => { x with disk }) (Disk.read setup.target) with
  | some bytes =>
    let snapshot ← check (SnapshotKind.exactlyOnce.decodeSnapshot setup.format setup.maxSnapshotBytes bytes)
    modify ({ · with snapshot })
  | none => modify ({ · with snapshot := setup.initial })

def save (snapshot : ExactlyOnceSnapshot V A) : EStateM QuePaxaError (FileExactlyOnceExecutor V A) Unit := do
  let bytes ← check (SnapshotKind.exactlyOnce.encodeSnapshot setup.format setup.maxSnapshotBytes snapshot)
  zoom (·.disk) (fun x disk => { x with disk }) (Disk.replace setup.target bytes)

def within (x : FileExactlyOnceExecutor V A) (surroundings : Surroundings) : FileExactlyOnceExecutor V A :=
  { x with disk := ⟨x.disk.files, surroundings, true⟩ }

variable [DecidableEq V]

def advanced (x : FileExactlyOnceExecutor V A) (slot : SlotIndex) (valueId : V) : ExactlyOnceSnapshot V A :=
  { x.snapshot with
    application := setup.apply x.snapshot.application slot valueId
    seen := insert valueId x.snapshot.seen }

def executeOnce (attempt : Attempt) (slot : SlotIndex) (valueId : V) :
    EStateM QuePaxaError (FileExactlyOnceExecutor V A) Bool := do
  let x ← get
  if valueId ∈ x.snapshot.seen then pure false
  else do
    check (attempt.refusal.elim (.ok ()) .error)
    let next := x.advanced setup slot valueId
    modify (·.within attempt.surroundings)
    save setup next
    modify ({ · with snapshot := next })
    pure true

end FileExactlyOnceExecutor

/-- A command is attempted at most once in one execution, so what it meets is given by its ID. -/
def DeduplicatingStateMachine.execute {V A : Type} [DecidableEq V] (setup : ExecutorSetup V A) (attempts : V → Attempt)
    (decision : Decision V) : EStateM QuePaxaError (FileExactlyOnceExecutor V A) Unit :=
  decision.valueIds.forM fun valueId => do
    let _ ← FileExactlyOnceExecutor.executeOnce setup (attempts valueId) decision.slot valueId

/-! Commands in slot order, and what executing them makes of a snapshot. -/

def commandsOf {V : Type} (slot : SlotIndex) (valueIds : List V) : List (SlotIndex × V) := valueIds.map (slot, ·)

def commandsThrough {V : Type} (decided : SlotIndex → List V) (through : Nat) : List (SlotIndex × V) :=
  (List.range' 1 through).flatMap fun slot => commandsOf slot (decided slot)

theorem commandsThrough_succ {V : Type} (decided : SlotIndex → List V) (through : Nat) :
    commandsThrough decided (through + 1) = commandsThrough decided through ++ commandsOf (through + 1)
      (decided (through + 1)) := by
  rw [commandsThrough, List.range'_concat, List.flatMap_append, Nat.one_mul, Nat.add_comm 1 through]
  simp [commandsThrough]

theorem commandsThrough_mono {V : Type} (decided : SlotIndex → List V) {m n : Nat} (h : m ≤ n) :
    commandsThrough decided m <+: commandsThrough decided n := by
  induction h with
  | refl => exact List.prefix_refl _
  | step _ ih =>
    rw [commandsThrough_succ]
    exact ih.trans (List.prefix_append ..)

theorem mem_commandsThrough {V : Type} {decided : SlotIndex → List V} {slot through : Nat} {v : V} (hpos : 1 ≤ slot)
    (hle : slot ≤ through) (hv : v ∈ decided slot) : (slot, v) ∈ commandsThrough decided through := by
  refine List.mem_flatMap.mpr ⟨slot, List.mem_range'_1.mpr ⟨hpos, ?_⟩, List.mem_map_of_mem hv⟩
  omega

section
variable {V A : Type} [DecidableEq V]

def ExactlyOnceSnapshot.outcome (s : ExactlyOnceSnapshot V A) : A × Finset V := (s.application, s.seen)

def ExactlyOnceSnapshot.Between (setup : ExecutorSetup V A) (done stream : List (SlotIndex × V))
    (s : ExactlyOnceSnapshot V A) : Prop :=
  Library.Between Prod.snd (fun a c => setup.apply a c.1 c.2) setup.initialApplication done stream s.outcome

/-- Memory and every snapshot a crash may leave come from such commands, and what memory has
seen is on disk. -/
structure FileExactlyOnceExecutor.Holds (setup : ExecutorSetup V A) (done stream : List (SlotIndex × V))
    (x : FileExactlyOnceExecutor V A) : Prop where
  memory : x.snapshot.Between setup done stream
  files : x.disk.files.Retains .path .temporary fun c => ∃ s, setup.snapshotFrom c = some s ∧
    s.Between setup done stream ∧
    x.snapshot.seen ⊆ s.seen

end

namespace FileExactlyOnceExecutor
variable {V A : Type} {setup : ExecutorSetup V A}
variable {x : FileExactlyOnceExecutor V A}

theorem load_eq_ok {y : FileExactlyOnceExecutor V A} {u : Unit} (h : load setup x = .ok u y) :
    setup.snapshotFrom (x.disk.files.read .path) = some y.snapshot ∧ y.disk = x.disk := by
  simp only [load, check_bind_eq_ok] at h
  obtain ⟨_, _, h⟩ := h
  simp only [bind_apply, zoom, Disk.read] at h
  cases hread : x.disk.surroundings.read with
  | some error =>
    rw [hread] at h
    cases h
  | none =>
    rw [hread] at h
    cases hfile : x.disk.files.read .path with
    | none =>
      rw [hfile] at h
      cases h
      exact ⟨rfl, rfl⟩
    | some bytes =>
      simp only [hfile, check_bind_eq_ok] at h
      obtain ⟨snapshot, hdecode, h⟩ := h
      cases h
      simp [ExecutorSetup.snapshotFrom, hdecode, Except.toOption]

private theorem triple_save (hformat : setup.format.Faithful) (snapshot memory : ExactlyOnceSnapshot V A)
    (Old : Option (List UInt8) → Prop) :
    Triple (fun x => x.snapshot = memory ∧ x.disk.files.Retains .path .temporary Old) (save setup snapshot)
      (fun _ x => x.snapshot = memory ∧ x.disk.files.Retains .path .temporary
        fun c => setup.snapshotFrom c = some snapshot)
      fun _ x => x.snapshot = memory ∧
        x.disk.files.Retains .path .temporary fun c => Old c ∨ setup.snapshotFrom c = some snapshot := by
  intro x hx
  simp only [save, bind_apply]
  cases henc : SnapshotKind.exactlyOnce.encodeSnapshot setup.format setup.maxSnapshotBytes snapshot with
  | error e => exact ⟨hx.1, hx.2.mono fun _ => .inl⟩
  | ok bytes =>
    have hnew : ∀ c, c = some bytes → setup.snapshotFrom c = some snapshot := by
      rintro _ rfl
      simp [ExecutorSetup.snapshotFrom, SnapshotKind.decode_encode hformat henc, Except.toOption]
    have hreplace := Disk.triple_replace setup.target bytes Old x.disk hx.2
    simp only [check_ok, zoom]
    cases hdisk : Disk.replace setup.target bytes x.disk with
    | error e disk =>
      rw [hdisk] at hreplace
      exact ⟨hx.1, hreplace.mono fun c => Or.imp_right (hnew c)⟩
    | ok _ disk =>
      rw [hdisk] at hreplace
      exact ⟨hx.1, hreplace.mono hnew⟩

variable [DecidableEq V] {done stream : List (SlotIndex × V)}

theorem Holds.mono {done' stream' : List (SlotIndex × V)} (h : x.Holds setup done stream)
    (hdone : done' <+: done) (hstream : stream <+: stream') : x.Holds setup done' stream' := by
  refine ⟨h.memory.mono hdone hstream, h.files.mono fun c hc => ?_⟩
  obtain ⟨s, hs, hbetween, hsub⟩ := hc
  exact ⟨s, hs, hbetween.mono hdone hstream, hsub⟩

theorem executeOnce_seen {attempt : Attempt} {slot : SlotIndex} {v : V}
    (h : v ∈ x.snapshot.seen) : executeOnce setup attempt slot v x = .ok false x := by
  simp [executeOnce, h]

/-- The next command is skipped, applied and saved, or left for another attempt. -/
theorem triple_executeOnce (hformat : setup.format.Faithful) (attempt : Attempt) {slot : SlotIndex} {v : V}
    (hnext : done ++ [(slot, v)] <+: stream) :
    Triple (Holds setup done stream) (executeOnce setup attempt slot v)
      (fun _ => Holds setup (done ++ [(slot, v)]) stream) fun _ => Holds setup done stream := by
  intro x hx
  by_cases hseen : v ∈ x.snapshot.seen
  · rw [executeOnce_seen hseen]
    refine ⟨hx.memory.skip hnext hseen, hx.files.mono fun c hc => ?_⟩
    obtain ⟨s, hs, hbetween, hsub⟩ := hc
    exact ⟨s, hs, hbetween.skip hnext (hsub hseen), hsub⟩
  have hadvanced : (x.advanced setup slot v).Between setup (done ++ [(slot, v)]) stream := hx.memory.next hnext hseen
  have hgrows : x.snapshot.seen ⊆ (x.advanced setup slot v).seen := Finset.subset_insert ..
  simp only [executeOnce, bind_apply, get_apply, if_neg hseen]
  cases attempt.refusal with
  | some e => exact hx
  | none =>
    simp only [Option.elim_none, check_ok, modify_apply]
    have hsave := triple_save hformat (x.advanced setup slot v) x.snapshot _ (x.within attempt.surroundings)
      ⟨rfl, hx.files⟩
    cases hresult : save setup (x.advanced setup slot v) (x.within attempt.surroundings) with
    | error e y =>
      rw [hresult] at hsave
      obtain ⟨hmemory, hfiles⟩ := hsave
      show Holds setup done stream y
      refine ⟨hmemory ▸ hx.memory, hfiles.mono fun c hc => ?_⟩
      rw [hmemory]
      rcases hc with hold | hnew
      · exact hold
      · exact ⟨_, hnew, hadvanced.mono (List.prefix_append ..) (List.prefix_refl _), hgrows⟩
    | ok u y =>
      rw [hresult] at hsave
      exact ⟨hadvanced, hsave.2.mono fun c hc => ⟨_, hc, hadvanced, Finset.Subset.refl _⟩⟩

end FileExactlyOnceExecutor

namespace DeduplicatingStateMachine
variable {V A : Type} [DecidableEq V] {setup : ExecutorSetup V A} {done stream : List (SlotIndex × V)}
  {x : FileExactlyOnceExecutor V A} {d : Decision V}

open FileExactlyOnceExecutor

theorem execute_seen (attempts : V → Attempt) (h : ∀ v ∈ d.valueIds, v ∈ x.snapshot.seen) :
    execute setup attempts d x = .ok () x := by
  let each (v : V) : EStateM QuePaxaError (FileExactlyOnceExecutor V A) Unit := do
    let _ ← executeOnce setup (attempts v) d.slot v
  have hall : ∀ values : List V, (∀ v ∈ values, v ∈ x.snapshot.seen) → values.forM each x = .ok () x := by
    intro values hvalues
    induction values with
    | nil => rfl
    | cons v values ih =>
      have hhead : each v x = .ok () x := by
        simp only [each, bind_apply, executeOnce_seen (hvalues v List.mem_cons_self), pure_apply]
      have hsplit : (v :: values).forM each x = (each v >>= fun _ => values.forM each) x := rfl
      rw [hsplit, bind_apply, hhead]
      exact ih fun w hw => hvalues w (List.mem_cons_of_mem _ hw)
  exact hall d.valueIds h

theorem triple_execute (hformat : setup.format.Faithful) (attempts : V → Attempt)
    (hnext : done ++ commandsOf d.slot d.valueIds <+: stream) :
    Triple (Holds setup done stream) (execute setup attempts d)
      (fun _ => Holds setup (done ++ commandsOf d.slot d.valueIds) stream) fun _ => Holds setup done stream := by
  -- along the loop, those passed so far are done
  let J (rest : List V) (x : FileExactlyOnceExecutor V A) := ∃ passed, done <+: passed ∧
    passed ++ commandsOf d.slot rest = done ++ commandsOf d.slot d.valueIds ∧ x.Holds setup passed stream
  have hloop : Triple (J d.valueIds) (execute setup attempts d) (fun _ => J []) fun _ => Holds setup done stream := by
    apply Triple.forM
    rintro v rest x ⟨passed, hdone, hsplit, hx⟩
    have hsplit' : (passed ++ [(d.slot, v)]) ++ commandsOf d.slot rest = done ++ commandsOf d.slot d.valueIds := by
      rw [← hsplit, List.append_assoc]
      rfl
    have hhere : passed ++ [(d.slot, v)] <+: stream :=
      List.IsPrefix.trans ⟨commandsOf d.slot rest, hsplit'⟩ hnext
    have hstep := triple_executeOnce hformat (attempts v) hhere x hx
    rw [bind_apply]
    cases hresult : executeOnce setup (attempts v) d.slot v x with
    | error e y =>
      rw [hresult] at hstep
      exact hstep.mono hdone (List.prefix_refl _)
    | ok b y =>
      rw [hresult] at hstep
      exact ⟨_, hdone.trans (List.prefix_append ..), hsplit', hstep⟩
  refine hloop.conseq (fun x hx => ⟨done, List.prefix_refl _, rfl, hx⟩) ?_ fun _ _ hx => hx
  rintro _ x ⟨passed, _, hsplit, hx⟩
  have hall : passed = done ++ commandsOf d.slot d.valueIds := by simpa [commandsOf] using hsplit
  exact hall ▸ hx

end DeduplicatingStateMachine
end QuePaxa
