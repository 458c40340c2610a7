import Griot.Lib.Framing

/-! Byte strings in parts: streams that are read exactly, and spans of positions.

A stream gives some bytes and then ends. A reader of frames that bounds their length accepts
exactly the frames up to that length, none of them empty (`ByteStream.readFrame_ok_iff`). A span is
half-open; clipped to a length it shows the same positions of every byte string of that length
(`Span.slice_clip`), and spans one behind the other show one part (`Span.slice_append`). -/
namespace Griot.Lib

structure ByteStream (ε : Type) where
  bytes : Bytes
  /-- What a read past the bytes fails with. -/
  ending : ε

namespace ByteStream
variable {ε : Type}

/-- `read_exact` into a buffer of `n` bytes -/
def readExact (n : Nat) (stream : ByteStream ε) : Except ε (Bytes × ByteStream ε) :=
  if n ≤ stream.bytes.length then
    .ok (stream.bytes.take n, {stream with bytes := stream.bytes.drop n})
  else .error stream.ending

theorem readExact_append {n : Nat} {bytes : Bytes} (h : bytes.length = n) (rest : Bytes)
    (ending : ε) :
    readExact n ⟨bytes ++ rest, ending⟩ = .ok (bytes, ⟨rest, ending⟩) := by
  rw [readExact, if_pos (by simp [← h]), List.take_left' h, List.drop_left' h]

/-- What an exact read takes and what it leaves. -/
theorem readExact_ok_iff {n : Nat} {stream rest : ByteStream ε} {part : Bytes} :
    readExact n stream = .ok (part, rest) ↔
      part.length = n ∧ stream = ⟨part ++ rest.bytes, rest.ending⟩ := by
  constructor
  · intro h
    rw [readExact] at h
    split at h
    · obtain ⟨rfl, rfl⟩ := Prod.mk.inj (Except.ok.inj h)
      exact ⟨List.length_take_of_le ‹_›, by rw [List.take_append_drop]⟩
    · cases h
  · intro h
    obtain ⟨hlength, rfl⟩ := h
    exact readExact_append hlength rest.bytes rest.ending

end ByteStream

/-- `u32::from_be_bytes` -/
def ofU32be (bytes : Bytes) : Nat := bytes.foldl (fun n b => 256 * n + b.toNat) 0

theorem ofU32be_u32be {n : Nat} (h : n < 2 ^ 32) : ofU32be (u32be n) = n := by
  simp only [ofU32be, u32be, List.foldl_cons, List.foldl_nil, UInt8.toNat_ofNat']
  omega

theorem u32be_ofU32be {bytes : Bytes} (h : bytes.length = 4) :
    u32be (ofU32be bytes) = bytes ∧ ofU32be bytes < 2 ^ 32 := by
  obtain ⟨a, b, c, d, rfl⟩ : ∃ a b c d, bytes = [a, b, c, d] := by
    match bytes, h with
    | [a, b, c, d], _ => exact ⟨a, b, c, d, rfl⟩
  have ha := a.toNat_lt
  have hb := b.toNat_lt
  have hc := c.toNat_lt
  have hd := d.toNat_lt
  simp only [ofU32be, u32be, List.foldl_cons, List.foldl_nil, List.cons.injEq, ← UInt8.toNat_inj,
    UInt8.toNat_ofNat', and_true]
  refine ⟨⟨?_, ?_, ?_, ?_⟩, ?_⟩ <;> omega

/-! ### Frames -/

inductive FrameError (ε : Type) where
  | io (error : ε)
  | length (length : Nat)

namespace ByteStream
variable {ε : Type}

/-- A length as four big-endian bytes, from one up to a limit, and as many bytes. -/
def readFrame (limit : Nat) (stream : ByteStream ε) : Except (FrameError ε) (Bytes × ByteStream ε) :=
  match stream.readExact 4 with
  | .error e => .error (.io e)
  | .ok (lenBytes, stream) =>
    if ofU32be lenBytes = 0 ∨ limit < ofU32be lenBytes then .error (.length (ofU32be lenBytes))
    else (stream.readExact (ofU32be lenBytes)).mapError .io

/-- **What is accepted as a frame** is a frame, not empty and within the limit. -/
theorem readFrame_ok_iff {limit : Nat} (hlimit : limit < 2 ^ 32) {stream rest : ByteStream ε}
    {body : Bytes} : readFrame limit stream = .ok (body, rest) ↔
      (body ≠ [] ∧ body.length ≤ limit) ∧ stream = ⟨frame body ++ rest.bytes, rest.ending⟩ := by
  constructor
  · intro h
    rw [readFrame] at h
    cases hlen : stream.readExact 4 with
    | error e => simp [hlen] at h
    | ok read =>
      obtain ⟨lenBytes, behind⟩ := read
      obtain ⟨hfour, rfl⟩ := readExact_ok_iff.mp hlen
      simp only [hlen] at h
      split at h
      · cases h
      · rename_i hbounds
        obtain ⟨hpos, hle⟩ := not_or.mp hbounds
        cases hbody : behind.readExact (ofU32be lenBytes) with
        | error e => simp [hbody, Except.mapError] at h
        | ok read =>
          simp only [hbody, Except.mapError, Except.ok.injEq] at h
          obtain rfl := h
          obtain ⟨hlength, hbehind⟩ := readExact_ok_iff.mp hbody
          obtain ⟨hbytes, -⟩ := u32be_ofU32be hfour
          rw [hbehind, frame, hlength, hbytes, List.append_assoc]
          refine ⟨⟨fun hnil => hpos ?_, Nat.not_lt.mp hle⟩, rfl⟩
          rw [← hlength, hnil, List.length_nil]
  · intro h
    obtain ⟨⟨hne, hle⟩, rfl⟩ := h
    have hread : ofU32be (u32be body.length) = body.length := ofU32be_u32be (by omega)
    have hpos : body.length ≠ 0 := fun hzero => hne (List.length_eq_zero_iff.mp hzero)
    rw [readFrame, frame, List.append_assoc, readExact_append (length_u32be _)]
    simp only [hread]
    rw [if_neg (by omega), readExact_append rfl]
    rfl

end ByteStream

/-! ### Spans -/

structure Span where
  start : Nat
  stop : Nat
  deriving DecidableEq

namespace Span

def length (span : Span) : Nat := span.stop - span.start

/-- The part below `size`. -/
def clip (size : Nat) (span : Span) : Span := ⟨min span.start size, min span.stop size⟩

def slice {α : Type} (xs : List α) (span : Span) : List α := (xs.drop span.start).take span.length

theorem length_slice {α : Type} (xs : List α) (span : Span) :
    (span.slice xs).length = (span.clip xs.length).length := by
  simp only [slice, clip, length, List.length_take, List.length_drop]
  omega

theorem slice_clip {α : Type} (xs : List α) (span : Span) :
    (span.clip xs.length).slice xs = span.slice xs := by
  by_cases hstart : span.start ≤ xs.length
  · simp only [slice, clip, length, Nat.min_eq_left hstart]
    rw [List.take_eq_take_iff, List.length_drop]
    omega
  · have hlength := span.length_slice xs
    have hclip := (span.clip xs.length).length_slice xs
    simp only [clip, length] at hlength hclip
    rw [List.length_eq_zero_iff.mp (by omega : (span.slice xs).length = 0),
      List.length_eq_zero_iff.mp (by rw [clip]; omega : ((span.clip xs.length).slice xs).length = 0)]

/-- The first bytes of a slice that are as many as there are, are the slice. -/
theorem eq_slice_of_prefix {α : Type} {xs part : List α} {span : Span}
    (h : part <+: span.slice xs) (hlength : part.length = (span.clip xs.length).length) :
    part = (span.clip xs.length).slice xs := by
  rw [slice_clip]
  exact h.eq_of_length (by rw [hlength, length_slice])

/-- Spans one behind the other. -/
theorem slice_append {α : Type} (xs : List α) {a b c : Nat} (hab : a ≤ b) (hbc : b ≤ c) :
    (Span.mk a b).slice xs ++ (Span.mk b c).slice xs = (Span.mk a c).slice xs := by
  simp only [slice, length]
  rw [show c - a = (b - a) + (c - b) by omega, List.take_add, List.drop_drop, Nat.add_sub_cancel' hab]

theorem slice_all {α : Type} (xs : List α) : (Span.mk 0 xs.length).slice xs = xs := by
  simp [slice, length]

end Span
end Griot.Lib
