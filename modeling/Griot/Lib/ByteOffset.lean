import Griot.Lib.Framing
import Griot.Lib.Text

/-! Offsets into a text, counted in bytes.

A text is stored in UTF-8, where a character starts with a byte that no character has
further in. So the bytes of one text occur in those of another from one character to
another only, and where they do is where the text itself occurs (`find_eq`): an offset
that a search has found can be sliced at. -/
namespace Griot.Lib.Text

def bytes (t : Text) : Bytes := t.flatMap String.utf8EncodeChar

@[simp] theorem bytes_nil : bytes [] = [] := rfl

@[simp] theorem bytes_cons (c : Char) (t : Text) :
    bytes (c :: t) = String.utf8EncodeChar c ++ bytes t := rfl

@[simp] theorem bytes_append (s t : Text) : bytes (s ++ t) = bytes s ++ bytes t :=
  List.flatMap_append

/-- `t.len()` -/
def byteLen (t : Text) : Nat := (bytes t).length

@[simp] theorem byteLen_nil : byteLen [] = 0 := rfl

@[simp] theorem byteLen_cons (c : Char) (t : Text) : byteLen (c :: t) = c.utf8Size + byteLen t := by
  simp [byteLen]

@[simp] theorem byteLen_append (s t : Text) : byteLen (s ++ t) = byteLen s + byteLen t := by
  simp [byteLen]

/-! ### Slices -/

/-- `is_utf8_char_boundary`: the byte is no continuation byte. -/
def startsChar (b : UInt8) : Bool := b.toNat < 128 || 192 ≤ b.toNat

/-- `t.is_char_boundary(i)` -/
def isCharBoundary (t : Text) (i : Nat) : Bool :=
  i = 0 || match (bytes t)[i]? with
    | none => i = byteLen t
    | some b => startsChar b

def dropBytes : Text → Nat → Text
  | [], _ => []
  | c :: t, i => if i = 0 then c :: t else dropBytes t (i - c.utf8Size)

def takeBytes : Text → Nat → Text
  | [], _ => []
  | c :: t, i => if i = 0 then [] else c :: takeBytes t (i - c.utf8Size)

/-- `&t[start..stop]`; `none` where that panics. -/
def slice (t : Text) (start stop : Nat) : Option Text :=
  if start ≤ stop ∧ isCharBoundary t start ∧ isCharBoundary t stop then
    some (takeBytes (dropBytes t start) (stop - start))
  else none

theorem dropBytes_append (s t : Text) : dropBytes (s ++ t) (byteLen s) = t := by
  induction s with
  | nil => cases t <;> rfl
  | cons c s ih =>
    have hpos := c.utf8Size_pos
    rw [List.cons_append, dropBytes, byteLen_cons, if_neg (by omega), Nat.add_sub_cancel_left, ih]

theorem takeBytes_append (s t : Text) : takeBytes (s ++ t) (byteLen s) = s := by
  induction s with
  | nil => cases t <;> rfl
  | cons c s ih =>
    have hpos := c.utf8Size_pos
    rw [List.cons_append, takeBytes, byteLen_cons, if_neg (by omega), Nat.add_sub_cancel_left, ih]

/-- A character is a byte that starts one, and continuation bytes. -/
theorem utf8EncodeChar_parts (c : Char) : ∃ lead rest, String.utf8EncodeChar c = lead :: rest ∧
    startsChar lead = true ∧ ∀ b ∈ rest, startsChar b = false := by
  rw [String.utf8EncodeChar]
  split
  · rename_i hv
    have hascii : c.toNat ≤ 127 := hv
    refine ⟨_, _, rfl, ?_, by simp⟩
    simp [startsChar]
    omega
  · split
    · refine ⟨_, _, rfl, ?_, ?_⟩ <;> simp [startsChar] <;> omega
    · split
      · refine ⟨_, _, rfl, ?_, ?_⟩ <;> simp [startsChar] <;> omega
      · refine ⟨_, _, rfl, ?_, ?_⟩ <;> simp [startsChar] <;> omega

/-- Between two characters is a boundary. -/
theorem isCharBoundary_append (s t : Text) : isCharBoundary (s ++ t) (byteLen s) = true := by
  rw [isCharBoundary, bytes_append, byteLen, List.getElem?_append_right (Nat.le_refl _),
    Nat.sub_self]
  cases t with
  | nil => simp [byteLen]
  | cons c t =>
    obtain ⟨lead, rest, hc, hlead, -⟩ := utf8EncodeChar_parts c
    simp [hc, hlead]

theorem slice_append (s t u : Text) :
    slice (s ++ t ++ u) (byteLen s) (byteLen (s ++ t)) = some t := by
  rw [slice, if_pos]
  · rw [List.append_assoc, dropBytes_append, byteLen_append, Nat.add_sub_cancel_left,
      takeBytes_append]
  · refine ⟨by simp, ?_, isCharBoundary_append (s ++ t) u⟩
    rw [List.append_assoc]
    exact isCharBoundary_append s (t ++ u)

/-! ### Searching -/

/-- Where `needle` occurs first. -/
def indexOf (needle : Bytes) : Bytes → Option Nat
  | [] => if needle = [] then some 0 else none
  | b :: s =>
    if needle.isPrefixOf (b :: s) then some 0 else (indexOf needle s).map (1 + ·)

/-- `t.find(needle)`: bytes are compared, and an offset in bytes is found. -/
def find (needle t : Text) : Option Nat := indexOf (bytes needle) (bytes t)

/-- Bytes that cannot start an occurrence are passed. -/
theorem indexOf_append {lead : UInt8} {needle : Bytes} (skipped s : Bytes)
    (h : lead ∉ skipped) :
    indexOf (lead :: needle) (skipped ++ s) =
      (indexOf (lead :: needle) s).map (skipped.length + ·) := by
  induction skipped with
  | nil => simp
  | cons b skipped ih =>
    rw [List.mem_cons, not_or] at h
    rw [List.cons_append, indexOf, if_neg (by simp [h.1]), ih h.2, Option.map_map]
    congr 1
    funext i
    simp only [Function.comp_apply, List.length_cons]
    omega

theorem utf8EncodeChar_selfDelimiting : SelfDelimiting (fun _ => True) String.utf8EncodeChar := by
  intro a b s t _ _ h
  have hdecode : ∀ (c : Char) (rest : Bytes),
      ByteArray.utf8DecodeChar? (String.utf8EncodeChar c ++ rest).toByteArray 0 = some c := by
    intro c rest
    rw [List.toByteArray_append]
    exact ByteArray.utf8DecodeChar?_utf8EncodeChar_append
  have hchar : a = b := Option.some.inj ((hdecode a s).symm.trans (h ▸ hdecode b t))
  subst hchar
  exact ⟨rfl, List.append_cancel_left h⟩

theorem bytes_prefix_iff {s t : Text} : bytes s <+: bytes t ↔ s <+: t := by
  constructor
  · intro h
    induction s generalizing t with
    | nil => exact List.nil_prefix
    | cons a s ih =>
      obtain ⟨rest, hrest⟩ := h
      cases t with
      | nil => exact absurd hrest (by simp [String.utf8EncodeChar_ne_nil])
      | cons c t =>
        rw [bytes_cons, bytes_cons, List.append_assoc] at hrest
        obtain ⟨rfl, htail⟩ := utf8EncodeChar_selfDelimiting a c _ _ trivial trivial hrest
        exact List.cons_prefix_cons.mpr ⟨rfl, ih ⟨rest, htail⟩⟩
  · intro ⟨rest, hrest⟩
    exact ⟨bytes rest, by rw [← hrest, bytes_append]⟩

/-- **A search in the bytes finds the first occurrence in the text.** -/
theorem find_eq {needle : Text} (hne : needle ≠ []) (t : Text) :
    find needle t = (cut needle t).map fun p => byteLen p.1 := by
  obtain ⟨a, needle', rfl⟩ := List.exists_cons_of_ne_nil hne
  obtain ⟨first, needleBytes, hfirst, hstarts, -⟩ := utf8EncodeChar_parts a
  have hneedle : bytes (a :: needle') = first :: (needleBytes ++ bytes needle') := by simp [hfirst]
  induction t with
  | nil => simp [find, hneedle, indexOf, cut]
  | cons c t ih =>
    obtain ⟨lead, rest, hc, hlead, hrest⟩ := utf8EncodeChar_parts c
    have hprefix : (bytes (a :: needle')).isPrefixOf (bytes (c :: t)) =
        (a :: needle').isPrefixOf (c :: t) := by
      rw [Bool.eq_iff_iff, List.isPrefixOf_iff_prefix, List.isPrefixOf_iff_prefix,
        bytes_prefix_iff]
    have hbytes : bytes (c :: t) = lead :: (rest ++ bytes t) := by simp [hc]
    rw [find, hbytes, indexOf, ← hbytes, hprefix, cut]
    split
    · rfl
    · -- An occurrence starts with a byte that starts a character, and those of `c` do not.
      have hskip : first ∉ rest := fun hmem => by simp [hrest first hmem] at hstarts
      rw [hneedle, indexOf_append rest (bytes t) hskip, ← hneedle]
      show (Option.map _ (find (a :: needle') t)).map _ = _
      rw [ih, Option.map_map, Option.map_map, Option.map_map]
      congr 1
      funext p
      have hsize := congrArg List.length hc
      simp only [String.length_utf8EncodeChar, List.length_cons] at hsize
      simp only [Function.comp_apply, byteLen_cons]
      omega

end Griot.Lib.Text
