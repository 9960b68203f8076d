import Mathlib.Algebra.Group.Nat.Defs
import Mathlib.Data.List.Basic

/-! Encodings that can be told from whatever follows them. A record is written field after
field, lists behind their length and optional parts behind a tag; if each field can be told
from what follows, so can the record. -/
namespace Library
variable {α β σ : Type}

/-- Texts that begin with the encodings of two good values are equal only if the values and
the rests are. -/
def PrefixCode (good : α → Prop) (encode : α → List σ) : Prop :=
  ∀ a b x y, good a → good b → encode a ++ x = encode b ++ y → a = b ∧ x = y

namespace PrefixCode
variable {good : α → Prop} {good' : β → Prop} {f : α → List σ} {g : β → List σ}

theorem injective (h : PrefixCode good f) {a b : α} (ha : good a) (hb : good b) (hab : f a = f b) : a = b :=
  (h a b [] [] ha hb (by rw [hab])).1

theorem of_length {n : Nat} (hlen : ∀ a, (f a).length = n) (hinj : ∀ a b, good a → good b → f a = f b → a = b) :
    PrefixCode good f := by
  intro a b x y ha hb h
  obtain ⟨hab, hxy⟩ := List.append_inj h ((hlen a).trans (hlen b).symm)
  exact ⟨hinj a b ha hb hab, hxy⟩

theorem pair (hf : PrefixCode good f) (hg : PrefixCode good' g) :
    PrefixCode (fun p : α × β => good p.1 ∧ good' p.2) fun p => f p.1 ++ g p.2 := by
  rintro ⟨a, b⟩ ⟨a', b'⟩ x y ⟨ha, hb⟩ ⟨ha', hb'⟩ h
  simp only [List.append_assoc] at h
  obtain ⟨rfl, hrest⟩ := hf a a' _ _ ha ha' h
  obtain ⟨rfl, hxy⟩ := hg b b' x y hb hb' hrest
  exact ⟨rfl, hxy⟩

theorem comap (hf : PrefixCode good f) {view : β → α} (hview : Function.Injective view) :
    PrefixCode (fun b => good (view b)) fun b => f (view b) := by
  intro a b x y ha hb h
  obtain ⟨hab, hxy⟩ := hf _ _ x y ha hb h
  exact ⟨hview hab, hxy⟩

theorem flatMap (hf : PrefixCode good f) {l m : List α} {x y : List σ} (hlen : l.length = m.length)
    (hl : ∀ a ∈ l, good a) (hm : ∀ a ∈ m, good a) (h : l.flatMap f ++ x = m.flatMap f ++ y) : l = m ∧ x = y := by
  induction l generalizing m with
  | nil =>
    obtain rfl := List.length_eq_zero_iff.mp hlen.symm
    exact ⟨rfl, h⟩
  | cons a l ih =>
    cases m with
    | nil => cases hlen
    | cons b m =>
      simp only [List.flatMap_cons, List.append_assoc] at h
      obtain ⟨rfl, hrest⟩ := hf a b _ _ (hl a List.mem_cons_self) (hm b List.mem_cons_self) h
      obtain ⟨rfl, hxy⟩ := ih (Nat.succ.inj hlen) (fun c hc => hl c (List.mem_cons_of_mem _ hc))
        (fun c hc => hm c (List.mem_cons_of_mem _ hc)) hrest
      exact ⟨rfl, hxy⟩

theorem counted {small : Nat → Prop} {count : Nat → List σ} (hcount : PrefixCode small count) (hf : PrefixCode good f) :
    PrefixCode (fun l : List α => small l.length ∧ ∀ a ∈ l, good a) fun l => count l.length ++ l.flatMap f := by
  intro l m x y hl hm h
  simp only [List.append_assoc] at h
  obtain ⟨hlen, hrest⟩ := hcount _ _ _ _ hl.1 hm.1 h
  exact hf.flatMap hlen hl.2 hm.2 hrest

def tagged (absent present : σ) (f : α → List σ) : Option α → List σ
  | none => [absent]
  | some a => present :: f a

theorem optional {absent present : σ} (htag : absent ≠ present) (hf : PrefixCode good f) :
    PrefixCode (fun o : Option α => ∀ a ∈ o, good a) (tagged absent present f) := by
  intro o o' x y ho ho' h
  cases o with
  | none =>
    cases o' with
    | none => exact ⟨rfl, (List.cons.inj h).2⟩
    | some b => exact absurd (List.cons.inj h).1 htag
  | some a =>
    cases o' with
    | none => exact absurd (List.cons.inj h).1.symm htag
    | some b =>
      obtain ⟨rfl, hxy⟩ := hf a b x y (ho a rfl) (ho' b rfl) (List.cons.inj h).2
      exact ⟨rfl, hxy⟩

end PrefixCode

def bigEndian : Nat → Nat → List UInt8
  | 0, _ => []
  | n + 1, value => bigEndian n (value / 256) ++ [UInt8.ofNat (value % 256)]

theorem length_bigEndian (n value : Nat) : (bigEndian n value).length = n := by
  induction n generalizing value with
  | zero => rfl
  | succ n ih => rw [bigEndian, List.length_append, ih, List.length_singleton]

theorem bigEndian_inj {n a b : Nat} (ha : a < 256 ^ n) (hb : b < 256 ^ n) (h : bigEndian n a = bigEndian n b) :
    a = b := by
  induction n generalizing a b with
  | zero =>
    rw [Nat.pow_zero, Nat.lt_one_iff] at ha hb
    rw [ha, hb]
  | succ n ih =>
    obtain ⟨hhigh, hlow⟩ := List.append_inj h ((length_bigEndian n _).trans (length_bigEndian n _).symm)
    have hdiv : a / 256 = b / 256 := by
      apply ih _ _ hhigh
      · exact Nat.div_lt_of_lt_mul (by rwa [Nat.mul_comm, ← Nat.pow_succ])
      · exact Nat.div_lt_of_lt_mul (by rwa [Nat.mul_comm, ← Nat.pow_succ])
    have hmod : a % 256 = b % 256 := by
      have hbyte := congrArg UInt8.toNat (List.cons.inj hlow).1
      simpa using hbyte
    rw [← Nat.div_add_mod a 256, ← Nat.div_add_mod b 256, hdiv, hmod]

theorem PrefixCode.bigEndian (n : Nat) : PrefixCode (· < 256 ^ n) (bigEndian n) :=
  .of_length (length_bigEndian n) fun _ _ => bigEndian_inj

end Library
