import Mathlib.Logic.Function.Basic
import Mathlib.Tactic.Common

/-! One directory of files, with crashes. Synced contents survive a crash and other
contents are arbitrary after it. Renaming is atomic; the directory found after a crash is
any of those it has been since it was last synced. -/
namespace Library
variable {ν α : Type}

structure File (α : Type) where
  data : List α
  synced : Bool

/-- Files are numbered, and the directory says which name stands for which of them. -/
structure FileSystem (ν α : Type) where
  files : Nat → File α
  next : Nat
  directory : ν → Option Nat
  /-- The directories before the current one, the last synced one first. -/
  earlier : List (ν → Option Nat)

namespace FileSystem

def empty : FileSystem ν α := ⟨fun _ => ⟨[], true⟩, 0, fun _ => none, []⟩

/-- Every directory a crash may leave. -/
def candidates (fs : FileSystem ν α) : List (ν → Option Nat) := fs.earlier ++ [fs.directory]

def contents (fs : FileSystem ν α) (file : Option Nat) : Option (List α) := file.map fun i => (fs.files i).data

def read (fs : FileSystem ν α) (name : ν) : Option (List α) := fs.contents (fs.directory name)

def write (fs : FileSystem ν α) (file : Nat) (data : List α) : FileSystem ν α :=
  { fs with files := Function.update fs.files file ⟨(fs.files file).data ++ data, false⟩ }

def sync (fs : FileSystem ν α) (file : Nat) : FileSystem ν α :=
  { fs with files := Function.update fs.files file ⟨(fs.files file).data, true⟩ }

def syncDirectory (fs : FileSystem ν α) : FileSystem ν α := { fs with earlier := [] }

/-- A crash of the machine keeps one of the candidates and loses what was not synced. What is
found after it is what the disk holds, so it survives the next crash too. A process that is
killed with a rename not synced, and a loss of power after the next one has read it, are not
covered. -/
def crash (fs : FileSystem ν α) (survivor : Nat) (lost : Nat → List α) : FileSystem ν α :=
  { fs with
    files := fun i => if (fs.files i).synced then fs.files i else ⟨lost i, true⟩
    directory := fs.candidates.getD survivor fs.directory
    earlier := [] }

section
variable [DecidableEq ν]

def openTruncated (fs : FileSystem ν α) (name : ν) : Nat × FileSystem ν α :=
  match fs.directory name with
  | some file => (file, { fs with files := Function.update fs.files file ⟨[], false⟩ })
  | none => (fs.next,
      { files := Function.update fs.files fs.next ⟨[], false⟩
        next := fs.next + 1
        directory := Function.update fs.directory name (some fs.next)
        earlier := fs.candidates })

def rename (fs : FileSystem ν α) (source target : ν) : FileSystem ν α :=
  { fs with
    directory := Function.update (Function.update fs.directory target (fs.directory source)) source none
    earlier := fs.candidates }

end

/-- Whatever a crash leaves, `name` has synced contents with the given property, or no
file; and the file that `spare` names is none of those. -/
structure Retains (name spare : ν) (P : Option (List α) → Prop) (fs : FileSystem ν α) : Prop where
  numbered : ∀ d ∈ fs.candidates, ∀ n i, d n = some i → i < fs.next
  apart : ∀ d ∈ fs.candidates, ∀ i, d name = some i → fs.directory spare ≠ some i
  separate : ∀ d ∈ fs.candidates, ∀ i, d name = some i → d spare ≠ some i
  synced : ∀ d ∈ fs.candidates, ∀ i, d name = some i → (fs.files i).synced = true
  holds : ∀ d ∈ fs.candidates, P (fs.contents (d name))

variable {name spare : ν} {P Q : Option (List α) → Prop} {fs : FileSystem ν α}

theorem directory_mem_candidates (fs : FileSystem ν α) : fs.directory ∈ fs.candidates := by
  simp [candidates]

theorem retains_empty (h : P none) : (empty : FileSystem ν α).Retains name spare P :=
  ⟨by simp [candidates, empty], by simp [candidates, empty], by simp [candidates, empty], by simp [candidates, empty],
    by simpa [candidates, empty, contents] using h⟩

namespace Retains

theorem mono (h : fs.Retains name spare P) (hPQ : ∀ c, P c → Q c) : fs.Retains name spare Q :=
  { h with holds := fun d hd => hPQ _ (h.holds d hd) }

theorem read (h : fs.Retains name spare P) : P (fs.read name) := h.holds _ fs.directory_mem_candidates

theorem update (h : fs.Retains name spare P) {file : Nat} (hfile : fs.directory spare = some file) (f : File α) :
    FileSystem.Retains name spare P { fs with files := Function.update fs.files file f } := by
  have hother : ∀ d ∈ fs.candidates, ∀ i, d name = some i → Function.update fs.files file f i = fs.files i := by
    intro d hd i hi
    have hne : i ≠ file := fun heq => h.apart d hd i hi (heq ▸ hfile)
    exact Function.update_of_ne hne _ _
  refine ⟨h.numbered, h.apart, h.separate, fun d hd i hi => ?_, fun d hd => ?_⟩
  · show (Function.update fs.files file f i).synced = true
    rw [hother d hd i hi]
    exact h.synced d hd i hi
  · have hheld := h.holds d hd
    show P ((d name).map fun i => (Function.update fs.files file f i).data)
    cases hi : d name with
    | none => rwa [hi] at hheld
    | some i =>
      rw [hi] at hheld
      rw [Option.map_some, hother d hd i hi]
      exact hheld

theorem write (h : fs.Retains name spare P) {file : Nat} (hfile : fs.directory spare = some file) (data : List α) :
    (fs.write file data).Retains name spare P := h.update hfile _

theorem sync (h : fs.Retains name spare P) {file : Nat} (hfile : fs.directory spare = some file) :
    (fs.sync file).Retains name spare P := h.update hfile _

theorem settled (h : fs.Retains name spare P) (hsynced : fs.earlier = []) :
    fs.Retains name spare (· = fs.read name) := by
  refine { h with holds := fun d hd => ?_ }
  have hd : d = fs.directory := by simpa [candidates, hsynced] using hd
  rw [hd]
  rfl

theorem syncDirectory (h : fs.Retains name spare P) : fs.syncDirectory.Retains name spare P := by
  have hold : ∀ d ∈ fs.syncDirectory.candidates, d ∈ fs.candidates := by
    intro d hd
    have hd : d = fs.directory := by simpa [candidates, FileSystem.syncDirectory] using hd
    exact hd ▸ fs.directory_mem_candidates
  exact ⟨fun d hd => h.numbered d (hold d hd), fun d hd => h.apart d (hold d hd), fun d hd => h.separate d (hold d hd),
    fun d hd => h.synced d (hold d hd), fun d hd => h.holds d (hold d hd)⟩

theorem crash (h : fs.Retains name spare P) (survivor : Nat) (lost : Nat → List α) :
    (fs.crash survivor lost).Retains name spare P := by
  have hmem : (fs.crash survivor lost).directory ∈ fs.candidates := by
    show fs.candidates.getD survivor fs.directory ∈ fs.candidates
    rw [List.getD_eq_getElem?_getD]
    cases hget : fs.candidates[survivor]? with
    | none => exact fs.directory_mem_candidates
    | some d => exact List.mem_of_getElem? hget
  have honly : ∀ d ∈ (fs.crash survivor lost).candidates, d = (fs.crash survivor lost).directory := by
    simp [candidates, FileSystem.crash]
  -- a file that `name` may stand for is synced, so its contents are the ones before the crash
  have hkept : ∀ i, (fs.crash survivor lost).directory name = some i → (fs.crash survivor lost).files i = fs.files i :=
    fun i hi => if_pos (h.synced _ hmem i hi)
  constructor
  all_goals intro d hd; cases honly d hd
  · exact h.numbered _ hmem
  · exact h.separate _ hmem
  · exact h.separate _ hmem
  · intro i hi
    rw [hkept i hi]
    exact h.synced _ hmem i hi
  · have hheld := h.holds _ hmem
    unfold contents at hheld ⊢
    cases hi : (fs.crash survivor lost).directory name with
    | none => rwa [hi] at hheld
    | some i =>
      rw [hi] at hheld
      rw [Option.map_some, hkept i hi]
      exact hheld

section
variable [DecidableEq ν]

theorem openTruncated (h : fs.Retains name spare P) (hne : name ≠ spare) :
    (fs.openTruncated spare).2.Retains name spare P ∧
      (fs.openTruncated spare).2.directory spare = some (fs.openTruncated spare).1 ∧
      ((fs.openTruncated spare).2.files (fs.openTruncated spare).1).data = [] := by
  unfold FileSystem.openTruncated
  cases hs : fs.directory spare with
  | some file => exact ⟨h.update hs _, hs, by simp⟩
  | none =>
    refine ⟨?_, by simp, by simp⟩
    let created := Function.update fs.directory spare (some fs.next)
    let files := Function.update fs.files fs.next ⟨[], false⟩
    have hname : created name = fs.directory name := Function.update_of_ne hne _ _
    -- the new directory gives `name` the file it had
    have hold : ∀ d ∈ fs.candidates ++ [created], ∃ d' ∈ fs.candidates, d name = d' name := by
      intro d hd
      rcases List.mem_append.mp hd with hd | hd
      · exact ⟨d, hd, rfl⟩
      · exact ⟨fs.directory, fs.directory_mem_candidates, by rw [List.mem_singleton.mp hd, hname]⟩
    have hlt : ∀ d ∈ fs.candidates ++ [created], ∀ i, d name = some i → i < fs.next := by
      intro d hd i hi
      obtain ⟨d', hd', heq⟩ := hold d hd
      exact h.numbered d' hd' name i (heq ▸ hi)
    have hfiles : ∀ i, i < fs.next → files i = fs.files i := fun i hi => Function.update_of_ne (Nat.ne_of_lt hi) _ _
    refine ⟨fun d hd n i hi => ?_, fun d hd i hi => ?_, fun d hd i hi => ?_, fun d hd i hi => ?_, fun d hd => ?_⟩
    · rcases List.mem_append.mp hd with hd | hd
      · exact Nat.lt_succ_of_lt (h.numbered d hd n i hi)
      · rw [List.mem_singleton.mp hd] at hi
        by_cases hn : n = spare
        · have heq : fs.next = i := by simpa [hn] using hi
          exact heq ▸ Nat.lt_succ_self _
        · have hkept : created n = fs.directory n := Function.update_of_ne hn _ _
          exact Nat.lt_succ_of_lt (h.numbered _ fs.directory_mem_candidates n i (hkept ▸ hi))
    · have := hlt d hd i hi
      simp only [Function.update_self, ne_eq, Option.some.injEq]
      omega
    · rcases List.mem_append.mp hd with hd' | hd'
      · exact h.separate d hd' i hi
      · have := hlt d hd i hi
        simp only [List.mem_singleton.mp hd', Function.update_self, ne_eq, Option.some.injEq]
        omega
    · obtain ⟨d', hd', heq⟩ := hold d hd
      show (files i).synced = true
      rw [hfiles i (hlt d hd i hi)]
      exact h.synced d' hd' i (heq ▸ hi)
    · obtain ⟨d', hd', heq⟩ := hold d hd
      have hheld := h.holds d' hd'
      show P ((d name).map fun i => (files i).data)
      rw [← heq] at hheld
      cases hi : d name with
      | none => rwa [hi] at hheld
      | some i =>
        rw [hi] at hheld
        rw [Option.map_some, hfiles i (hlt d hd i hi)]
        exact hheld

theorem rename (h : fs.Retains name spare P) (hne : name ≠ spare) {file : Nat} (hfile : fs.directory spare = some file)
    (hsynced : (fs.files file).synced = true) :
    (fs.rename spare name).Retains name spare (fun c => P c ∨ c = some (fs.files file).data) ∧
      (fs.rename spare name).read name = some (fs.files file).data := by
  let moved := Function.update (Function.update fs.directory name (fs.directory spare)) spare none
  have hname : moved name = some file := by
    simp only [moved, Function.update_of_ne hne, Function.update_self, hfile]
  have hspare : moved spare = none := Function.update_self _ _ _
  have hcases : ∀ d ∈ (fs.rename spare name).candidates, d ∈ fs.candidates ∨ d = moved := by
    intro d hd
    rcases List.mem_append.mp hd with hd | hd
    · exact .inl hd
    · exact .inr (List.mem_singleton.mp hd)
  have hread : (fs.rename spare name).read name = some (fs.files file).data := by
    show (moved name).map _ = _
    rw [hname]
    rfl
  refine ⟨⟨fun d hd n i hi => ?_, fun d _ i _ => ?_, fun d hd i hi => ?_, fun d hd i hi => ?_, fun d hd => ?_⟩, hread⟩
  · rcases hcases d hd with hd | rfl
    · exact h.numbered d hd n i hi
    · by_cases hs : n = spare
      · rw [hs, hspare] at hi
        cases hi
      · by_cases hn : n = name
        · rw [hn, hname, ← hfile] at hi
          exact h.numbered _ fs.directory_mem_candidates spare i hi
        · simp only [moved, Function.update_of_ne hs, Function.update_of_ne hn] at hi
          exact h.numbered _ fs.directory_mem_candidates n i hi
  · show moved spare ≠ some i
    simp [hspare]
  · rcases hcases d hd with hd | rfl
    · exact h.separate d hd i hi
    · simp [hspare]
  · rcases hcases d hd with hd | rfl
    · exact h.synced d hd i hi
    · rw [hname] at hi
      cases hi
      exact hsynced
  · rcases hcases d hd with hd | rfl
    · exact .inl (h.holds d hd)
    · exact .inr hread

end
end Retains
end FileSystem
end Library
