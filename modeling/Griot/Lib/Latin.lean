import Griot.Lib.Framing
import Griot.Lib.Scanner
import Griot.Lib.Text

/-! UTF-8 read one byte at a time.

Bytes that are taken for characters one by one leave ASCII as it is; every other
character becomes several, none of them ASCII and the first of them not blank. -/
namespace Griot.Lib

namespace Text

def isAscii (c : Char) : Bool := c.toNat < 128

def isAsciiWhitespace (c : Char) : Bool := isWhitespace c && isAscii c

end Text

/-- The bytes as characters, `b as char`. -/
def latin1 (bytes : Bytes) : Text := bytes.map Char.ofUInt8

theorem toNat_ofUInt8 (b : UInt8) : (Char.ofUInt8 b).toNat = b.toNat := UInt8.toNat_toUInt32 b

def latin1Char (c : Char) : Text := latin1 (String.utf8EncodeChar c)

theorem latin1_utf8 (s : String) : latin1 (utf8 s) = s.toList.flatMap latin1Char := by
  rw [latin1, utf8, List.map_flatMap]
  rfl

theorem latin1Char_ascii {c : Char} (h : Text.isAscii c = true) : latin1Char c = [c] := by
  have hlt : c.toNat < 128 := of_decide_eq_true h
  have hv : c.val.toNat ≤ 127 := Nat.le_of_lt_succ hlt
  rw [latin1Char, latin1, String.utf8EncodeChar, if_pos hv]
  simp only [List.map_cons, List.map_nil, List.cons.injEq, and_true]
  apply Char.toNat_inj.mp
  rw [toNat_ofUInt8]
  simp [UInt8.toNat_ofNat']
  omega

/-- A character that is not ASCII: the leading byte, and the continuation bytes. -/
theorem latin1Char_other {c : Char} (h : Text.isAscii c = false) :
    ∃ lead rest, latin1Char c = lead :: rest ∧ 192 ≤ lead.toNat ∧ lead.toNat < 256 ∧
      ∀ b ∈ rest, 128 ≤ b.toNat := by
  have hge : ¬c.toNat < 128 := of_decide_eq_false h
  have hv : ¬c.val.toNat ≤ 127 := fun hle => hge (Nat.lt_succ_of_le hle)
  rw [latin1Char, latin1, String.utf8EncodeChar, if_neg hv]
  split
  · refine ⟨_, _, rfl, ?_, ?_, ?_⟩
    · rw [toNat_ofUInt8]
      simp
      omega
    · rw [toNat_ofUInt8]
      exact UInt8.toNat_lt _
    · simp [toNat_ofUInt8]
      omega
  · split <;> refine ⟨_, _, rfl, ?_, ?_, ?_⟩
    · rw [toNat_ofUInt8]
      simp
      omega
    · rw [toNat_ofUInt8]
      exact UInt8.toNat_lt _
    · simp [toNat_ofUInt8]
      omega
    · rw [toNat_ofUInt8]
      simp
      omega
    · rw [toNat_ofUInt8]
      exact UInt8.toNat_lt _
    · simp [toNat_ofUInt8]
      omega

/-- It has two bytes at least. -/
theorem latin1Char_long {c : Char} (h : Text.isAscii c = false) :
    ∃ lead next rest, latin1Char c = lead :: next :: rest := by
  have hge : ¬c.toNat < 128 := of_decide_eq_false h
  have hv : ¬c.val.toNat ≤ 127 := fun hle => hge (Nat.lt_succ_of_le hle)
  rw [latin1Char, latin1, String.utf8EncodeChar, if_neg hv]
  split
  · exact ⟨_, _, _, rfl⟩
  · split <;> exact ⟨_, _, _, rfl⟩

theorem isAscii_eq_false {c : Char} : Text.isAscii c = false ↔ 128 ≤ c.toNat := by
  simp [Text.isAscii]

/-- UTF-8 as an encoding of characters by characters. -/
def utf8Encoding : Scanner.Encoding Char where
  plain := Text.isAscii
  expand := latin1Char
  expand_plain := fun _ h => latin1Char_ascii h
  expand_other := by
    intro c h b hb
    obtain ⟨lead, rest, hc, hlead, -, hrest⟩ := latin1Char_other h
    rw [hc, List.mem_cons] at hb
    rw [isAscii_eq_false]
    rcases hb with rfl | hb
    · omega
    · exact hrest b hb
  expand_ne_nil := by
    intro c
    cases h : Text.isAscii c with
    | true => simp [latin1Char_ascii h]
    | false =>
      obtain ⟨lead, rest, hc, -⟩ := latin1Char_other h
      simp [hc]

/-- No leading byte is blank. -/
theorem isWhitespace_lead {c : Char} (h : 192 ≤ c.toNat) (h' : c.toNat < 256) :
    Text.isWhitespace c = false := by
  simp [Text.isWhitespace]
  omega

/-- **Skipping blanks**: only ASCII ones are skipped. -/
theorem dropWhile_flatMap (s : Text) : (s.flatMap latin1Char).dropWhile Text.isWhitespace =
    (s.dropWhile Text.isAsciiWhitespace).flatMap latin1Char := by
  induction s with
  | nil => rfl
  | cons c s ih =>
    cases hc : Text.isAscii c with
    | true =>
      rw [List.flatMap_cons, latin1Char_ascii hc, List.singleton_append, List.dropWhile_cons,
        List.dropWhile_cons, Text.isAsciiWhitespace, hc, Bool.and_true, ih]
      split
      · rfl
      · rw [List.flatMap_cons, latin1Char_ascii hc]
        rfl
    | false =>
      obtain ⟨lead, rest, hlead, hge, hlt, -⟩ := latin1Char_other hc
      rw [List.dropWhile_cons_of_neg (p := Text.isAsciiWhitespace)
        (by simp [Text.isAsciiWhitespace, hc]), List.flatMap_cons, hlead, List.cons_append,
        List.dropWhile_cons_of_neg (by simp [isWhitespace_lead hge hlt])]

theorem toUpper_other {c : Char} (h : Text.isAscii c = false) : c.toUpper = c := by
  rw [isAscii_eq_false] at h
  refine dif_neg fun hlower => ?_
  have hle : c.toNat ≤ 122 := hlower.2
  omega

/-- **An ASCII word** is read off the bytes as it is off the characters. -/
theorem takeWhile_flatMap {w : Text} (hw : ∀ c ∈ w, Text.isAscii c = true) (s : Text) :
    Text.upper ((s.flatMap latin1Char).takeWhile (!Text.isWhitespace ·)) = w ↔
      Text.upper (s.takeWhile (!Text.isAsciiWhitespace ·)) = w := by
  induction s generalizing w with
  | nil => rfl
  | cons c s ih =>
    cases hc : Text.isAscii c with
    | true =>
      rw [List.flatMap_cons, latin1Char_ascii hc, List.singleton_append, List.takeWhile_cons,
        List.takeWhile_cons, Text.isAsciiWhitespace, hc, Bool.and_true]
      split
      · cases w with
        | nil => simp [Text.upper]
        | cons a w =>
          rw [List.forall_mem_cons] at hw
          have htail := ih hw.2
          simp only [Text.upper] at htail
          simp only [Text.upper, List.map_cons, List.cons.injEq, htail]
      · rfl
    | false =>
      -- The word would have to go on with a character that is not ASCII.
      obtain ⟨lead, rest, hlead, hge, hlt, -⟩ := latin1Char_other hc
      have hother : Text.isAscii lead = false := isAscii_eq_false.mpr (by omega)
      rw [List.flatMap_cons, hlead, List.cons_append,
        List.takeWhile_cons_of_pos (by simp [isWhitespace_lead hge hlt]),
        List.takeWhile_cons_of_pos (by simp [Text.isAsciiWhitespace, hc])]
      constructor
      · intro heq
        subst heq
        have := hw _ (List.mem_cons_self ..)
        rw [toUpper_other hother] at this
        exact absurd (hother.symm.trans this) (by simp)
      · intro heq
        subst heq
        have := hw _ (List.mem_cons_self ..)
        rw [toUpper_other hc] at this
        exact absurd (hc.symm.trans this) (by simp)

end Griot.Lib
