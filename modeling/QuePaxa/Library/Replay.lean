import Mathlib.Data.Finset.Lattice.Lemmas
import Mathlib.Data.List.Infix
import QuePaxa.Library.Runs

/-! Commands that take effect once. Of the commands with one name the first takes effect and
the others are skipped. What remains of a list of commands is the state they lead to and the
set of their names, and feeding in an earlier part of the list again changes neither. -/
namespace Library
variable {κ ι σ : Type} [DecidableEq ι]

def firsts (name : κ → ι) (commands : List κ) : List κ :=
  commands.foldl (fun kept c => if name c ∈ kept.map name then kept else kept ++ [c]) []

def outcome (name : κ → ι) (apply : σ → κ → σ) (initial : σ) (commands : List κ) : σ × Finset ι :=
  (run apply initial (firsts name commands), (commands.map name).toFinset)

/-- The outcome of a part of the stream from its start, which goes at least as far as `done`. -/
def Between (name : κ → ι) (apply : σ → κ → σ) (initial : σ) (done stream : List κ) (o : σ × Finset ι) : Prop :=
  ∃ commands, done <+: commands ∧ commands <+: stream ∧ o = outcome name apply initial commands

variable {name : κ → ι} {apply : σ → κ → σ} {initial : σ} {commands done stream : List κ} {c : κ} {o : σ × Finset ι}

theorem firsts_concat : firsts name (commands ++ [c]) =
    if name c ∈ (firsts name commands).map name then firsts name commands else firsts name commands ++ [c] :=
  List.foldl_append

theorem mem_map_firsts (i : ι) : i ∈ (firsts name commands).map name ↔ i ∈ commands.map name := by
  induction commands using List.reverseRecOn with
  | nil => rfl
  | append_singleton commands c ih =>
    rw [firsts_concat]
    split_ifs with hseen <;> grind

theorem outcome_concat_seen (h : name c ∈ (outcome name apply initial commands).2) :
    outcome name apply initial (commands ++ [c]) = outcome name apply initial commands := by
  have hseen : name c ∈ commands.map name := List.mem_toFinset.mp h
  have hnames : ((commands ++ [c]).map name).toFinset = (commands.map name).toFinset := by
    rw [List.map_append, List.toFinset_append]
    exact Finset.union_eq_left.mpr (by simpa using hseen)
  simp only [outcome, firsts_concat, if_pos ((mem_map_firsts _).mpr hseen), hnames]

theorem outcome_concat_new (h : name c ∉ (outcome name apply initial commands).2) :
    outcome name apply initial (commands ++ [c]) =
      (apply (outcome name apply initial commands).1 c, insert (name c) (outcome name apply initial commands).2) := by
  have hnew : name c ∉ commands.map name := fun hmem => h (List.mem_toFinset.mpr hmem)
  have hnames : ((commands ++ [c]).map name).toFinset = insert (name c) (commands.map name).toFinset := by
    rw [List.map_append, List.toFinset_append, Finset.insert_eq, Finset.union_comm]
    rfl
  have hstate : run apply initial (firsts name commands ++ [c]) = apply (run apply initial (firsts name commands)) c :=
    run_append ..
  simp only [outcome, firsts_concat, if_neg (fun hmem => hnew ((mem_map_firsts _).mp hmem)), hnames, hstate]

namespace Between

theorem start (stream : List κ) : Between name apply initial [] stream (initial, ∅) :=
  ⟨[], List.prefix_refl _, List.nil_prefix, rfl⟩

theorem mono {done' stream' : List κ} (h : Between name apply initial done stream o) (hdone : done' <+: done)
    (hstream : stream <+: stream') : Between name apply initial done' stream' o := by
  obtain ⟨commands, hfrom, hto, ho⟩ := h
  exact ⟨commands, hdone.trans hfrom, hto.trans hstream, ho⟩

theorem mem_names (h : Between name apply initial done stream o) (hc : c ∈ done) : name c ∈ o.2 := by
  obtain ⟨commands, hfrom, _, rfl⟩ := h
  exact List.mem_toFinset.mpr (List.mem_map_of_mem (hfrom.subset hc))

private theorem stops_or_goes_on (hfrom : done <+: commands) (hto : commands <+: stream)
    (hnext : done ++ [c] <+: stream) :
    commands = done ∨ done ++ [c] <+: commands := by
  rcases Nat.lt_or_ge done.length commands.length with hlong | hshort
  · refine .inr (List.prefix_of_prefix_length_le hnext hto ?_)
    rw [List.length_append, List.length_singleton]
    exact hlong
  · exact .inl (hfrom.eq_of_length_le hshort).symm

theorem skip (h : Between name apply initial done stream o) (hnext : done ++ [c] <+: stream) (hseen : name c ∈ o.2) :
    Between name apply initial (done ++ [c]) stream o := by
  obtain ⟨commands, hfrom, hto, rfl⟩ := h
  rcases stops_or_goes_on hfrom hto hnext with rfl | hbeyond
  · exact ⟨commands ++ [c], List.prefix_refl _, hnext, (outcome_concat_seen hseen).symm⟩
  · exact ⟨commands, hbeyond, hto, rfl⟩

theorem next (h : Between name apply initial done stream o) (hnext : done ++ [c] <+: stream) (hnew : name c ∉ o.2) :
    Between name apply initial (done ++ [c]) stream (apply o.1 c, insert (name c) o.2) := by
  obtain ⟨commands, hfrom, hto, rfl⟩ := h
  rcases stops_or_goes_on hfrom hto hnext with rfl | hbeyond
  · exact ⟨commands ++ [c], List.prefix_refl _, hnext, (outcome_concat_new hnew).symm⟩
  · have hmem : c ∈ commands := hbeyond.subset (List.mem_append_right _ (List.mem_singleton_self c))
    exact absurd (List.mem_toFinset.mpr (List.mem_map_of_mem hmem)) hnew

end Between
end Library
