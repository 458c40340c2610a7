import Mathlib.Algebra.Group.Nat.Defs
import Mathlib.Data.List.Basic

/-! Length-prefixed encodings.

A field is its length as four big-endian bytes, then its bytes. Below `2 ^ 32`
the length is exact, so a field can be read back off the front of any byte
string and what follows it is left over: the encoding is `SelfDelimiting`. A
counted list of self-delimiting items is self-delimiting again. At `2 ^ 32` and
above the length wraps and none of this holds. -/
namespace Griot.Lib

abbrev Bytes := List UInt8

/-- `s.as_bytes()`. -/
def utf8 (s : String) : Bytes := s.toList.flatMap String.utf8EncodeChar

theorem utf8_inj {s t : String} (h : utf8 s = utf8 t) : s = t := by
  have hencode : s.toList.utf8Encode = t.toList.utf8Encode := by
    show (utf8 s).toByteArray = (utf8 t).toByteArray
    rw [h]
  have hdecode := congrArg ByteArray.utf8Decode? hencode
  simp only [List.utf8Decode?_utf8Encode, Option.some.injEq] at hdecode
  exact String.toList_inj.mp (by simpa using hdecode)

theorem ne_utf8 {s : String} (h : s ≠ "") : ([] : Bytes) ≠ utf8 s :=
  fun hnil => h (utf8_inj (s := s) (t := "") hnil.symm)

/-- Items satisfying `P` can be read back off the front of any byte string. -/
def SelfDelimiting {α : Type} (P : α → Prop) (encode : α → Bytes) : Prop :=
  ∀ a b s t, P a → P b → encode a ++ s = encode b ++ t → a = b ∧ s = t

/-- `(n as u32).to_be_bytes()`. -/
def u32be (n : Nat) : Bytes :=
  [UInt8.ofNat (n / 2 ^ 24), UInt8.ofNat (n / 2 ^ 16), UInt8.ofNat (n / 2 ^ 8), UInt8.ofNat n]

/-- `v.to_le_bytes()` of a 32-bit word. -/
def u32le (v : UInt32) : Bytes :=
  [UInt8.ofNat v.toNat, UInt8.ofNat (v.toNat / 2 ^ 8), UInt8.ofNat (v.toNat / 2 ^ 16),
    UInt8.ofNat (v.toNat / 2 ^ 24)]

/-- `v.to_le_bytes()` of a 64-bit word. -/
def u64le (v : UInt64) : Bytes :=
  [UInt8.ofNat v.toNat, UInt8.ofNat (v.toNat / 2 ^ 8), UInt8.ofNat (v.toNat / 2 ^ 16),
    UInt8.ofNat (v.toNat / 2 ^ 24), UInt8.ofNat (v.toNat / 2 ^ 32), UInt8.ofNat (v.toNat / 2 ^ 40),
    UInt8.ofNat (v.toNat / 2 ^ 48), UInt8.ofNat (v.toNat / 2 ^ 56)]

@[simp] theorem length_u32be (n : Nat) : (u32be n).length = 4 := rfl
@[simp] theorem length_u32le (v : UInt32) : (u32le v).length = 4 := rfl
@[simp] theorem length_u64le (v : UInt64) : (u64le v).length = 8 := rfl

/-- The lowest `k` bytes, the lowest first. -/
def lowBytes (k n : Nat) : Bytes := (List.range k).map fun i => UInt8.ofNat (n / 256 ^ i)

theorem u32be_eq (n : Nat) : u32be n = (lowBytes 4 n).reverse := by
  simp [u32be, lowBytes, List.range_succ]

theorem u32le_eq (v : UInt32) : u32le v = lowBytes 4 v.toNat := by
  simp [u32le, lowBytes, List.range_succ]

theorem u64le_eq (v : UInt64) : u64le v = lowBytes 8 v.toNat := by
  simp [u64le, lowBytes, List.range_succ]

/-- A number of `k` bytes is determined by them. -/
theorem lowBytes_inj {k m n : Nat} (hm : m < 256 ^ k) (hn : n < 256 ^ k)
    (h : lowBytes k m = lowBytes k n) : m = n := by
  induction k generalizing m n with
  | zero => omega
  | succ k ih =>
    have hbytes : ∀ i < k + 1, UInt8.ofNat (m / 256 ^ i) = UInt8.ofNat (n / 256 ^ i) :=
      fun i hi => List.map_inj_left.mp h i (List.mem_range.mpr hi)
    have hlow : m % 256 = n % 256 := by
      simpa [UInt8.toNat_ofNat'] using congrArg UInt8.toNat (hbytes 0 k.succ_pos)
    have hhigh : m / 256 = n / 256 := by
      rw [Nat.pow_succ] at hm hn
      refine ih (by omega) (by omega) (List.map_inj_left.mpr fun i hi => ?_)
      rw [Nat.div_div_eq_div_mul, Nat.div_div_eq_div_mul, Nat.mul_comm, ← Nat.pow_succ]
      exact hbytes (i + 1) (Nat.succ_lt_succ (List.mem_range.mp hi))
    omega

theorem u32be_inj {m n : Nat} (hm : m < 2 ^ 32) (hn : n < 2 ^ 32) (h : u32be m = u32be n) :
    m = n := by
  rw [u32be_eq, u32be_eq, List.reverse_inj] at h
  exact lowBytes_inj (k := 4) (by omega) (by omega) h

theorem u32le_inj {v w : UInt32} (h : u32le v = u32le w) : v = w := by
  rw [u32le_eq, u32le_eq] at h
  exact UInt32.toNat_inj.mp (lowBytes_inj v.toNat_lt w.toNat_lt h)

theorem u64le_inj {v w : UInt64} (h : u64le v = u64le w) : v = w := by
  rw [u64le_eq, u64le_eq] at h
  exact UInt64.toNat_inj.mp (lowBytes_inj v.toNat_lt w.toNat_lt h)

/-! ### One field -/

def frame (bytes : Bytes) : Bytes := u32be bytes.length ++ bytes

@[simp] theorem length_frame (bytes : Bytes) : (frame bytes).length = 4 + bytes.length := by
  simp [frame]

theorem frame_selfDelimiting : SelfDelimiting (fun bytes => bytes.length < 2 ^ 32) frame := by
  intro a b s t ha hb h
  simp only [frame, List.append_assoc] at h
  obtain ⟨hlength, htail⟩ := List.append_inj h rfl
  exact List.append_inj htail (u32be_inj ha hb hlength)

/-! ### Lists of items -/

theorem SelfDelimiting.flatMap {α : Type} {P : α → Prop} {encode : α → Bytes}
    (henc : SelfDelimiting P encode) (as bs : List α) (s t : Bytes) (has : ∀ a ∈ as, P a)
    (hbs : ∀ b ∈ bs, P b) (hlen : as.length = bs.length)
    (h : as.flatMap encode ++ s = bs.flatMap encode ++ t) : as = bs ∧ s = t := by
  induction as generalizing bs with
  | nil =>
    obtain rfl : bs = [] := List.length_eq_zero_iff.mp hlen.symm
    exact ⟨rfl, h⟩
  | cons a as ih =>
    cases bs with
    | nil => exact absurd hlen (by simp)
    | cons b bs =>
      simp only [List.flatMap_cons, List.append_assoc] at h
      obtain ⟨rfl, htail⟩ := henc a b _ _ (has a (List.mem_cons_self ..))
        (hbs b (List.mem_cons_self ..)) h
      obtain ⟨rfl, hrest⟩ := ih bs (fun c hc => has c (List.mem_cons_of_mem _ hc))
        (fun c hc => hbs c (List.mem_cons_of_mem _ hc)) (by simpa using hlen) htail
      exact ⟨rfl, hrest⟩

/-- A field holding the number of items, then the items. -/
def counted {α : Type} (encode : α → Bytes) (items : List α) : Bytes :=
  frame (u32be items.length) ++ items.flatMap encode

theorem counted_selfDelimiting {α : Type} {P : α → Prop} {encode : α → Bytes}
    (henc : SelfDelimiting P encode) :
    SelfDelimiting (fun items => items.length < 2 ^ 32 ∧ ∀ a ∈ items, P a) (counted encode) := by
  intro as bs s t has hbs h
  simp only [counted, List.append_assoc] at h
  obtain ⟨hcount, hitems⟩ := frame_selfDelimiting _ _ _ _ (by simp) (by simp) h
  exact henc.flatMap as bs s t has.2 hbs.2 (u32be_inj has.1 hbs.1 hcount) hitems

theorem length_le_flatMap {α : Type} {encode : α → Bytes} {items : List α} {a : α} (h : a ∈ items) :
    (encode a).length ≤ (items.flatMap encode).length := by
  rw [List.flatMap_def]
  exact (List.sublist_flatten_of_mem (List.mem_map_of_mem h)).length_le

/-- Items that take at least one byte each are no more than the bytes they take. -/
theorem count_le_flatMap {α : Type} {encode : α → Bytes} (items : List α)
    (h : ∀ a, 0 < (encode a).length) : items.length ≤ (items.flatMap encode).length := by
  induction items with
  | nil => exact Nat.le_refl _
  | cons a items ih =>
    have := h a
    simp only [List.length_cons, List.flatMap_cons, List.length_append]
    omega

/-! ### Composition -/

namespace SelfDelimiting
variable {α β : Type} {P : α → Prop} {Q : β → Prop}

/-- An encoding of a part that determines the whole. -/
theorem comap {encode : β → Bytes} (h : SelfDelimiting Q encode) {f : α → β} (hf : f.Injective) :
    SelfDelimiting (fun a => Q (f a)) fun a => encode (f a) := by
  intro a b s t ha hb hab
  obtain ⟨heq, hrest⟩ := h _ _ s t ha hb hab
  exact ⟨hf heq, hrest⟩

/-- One encoding after the other. -/
theorem append {e₁ : α → Bytes} {e₂ : β → Bytes} (h₁ : SelfDelimiting P e₁)
    (h₂ : SelfDelimiting Q e₂) :
    SelfDelimiting (fun p : α × β => P p.1 ∧ Q p.2) fun p => e₁ p.1 ++ e₂ p.2 := by
  intro a b s t ha hb h
  obtain ⟨a₁, a₂⟩ := a
  obtain ⟨b₁, b₂⟩ := b
  simp only [List.append_assoc] at h
  obtain ⟨rfl, htail⟩ := h₁ a₁ b₁ _ _ ha.1 hb.1 h
  obtain ⟨rfl, hrest⟩ := h₂ a₂ b₂ s t ha.2 hb.2 htail
  exact ⟨rfl, hrest⟩

theorem injective {encode : α → Bytes} (h : SelfDelimiting P encode) {a b : α} (ha : P a) (hb : P b)
    (hab : encode a = encode b) : a = b :=
  (h a b [] [] ha hb (congrArg (· ++ []) hab)).1

end SelfDelimiting
end Griot.Lib
