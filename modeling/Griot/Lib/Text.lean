import Mathlib.Data.List.Basic

/-! Text as a list of characters.

What Rust's `str` methods do: finding a substring (`cut`), trimming, splitting
and ASCII case. `scan` is a loop that keeps taking the next piece off the front
of what is left; it ends because every step shortens the text (`scan_eq`). -/
namespace Griot.Lib

abbrev Text := List Char

namespace Text

/-- The text before and after the first occurrence of `needle`. -/
def cut (needle : Text) : Text → Option (Text × Text)
  | [] => if needle = [] then some ([], []) else none
  | c :: s =>
    if needle.isPrefixOf (c :: s) then some ([], (c :: s).drop needle.length)
    else (cut needle s).map fun p => (c :: p.1, p.2)

/-- `s.contains(needle)`. -/
def contains (needle s : Text) : Bool := (cut needle s).isSome

theorem cut_eq {needle s before after : Text} (h : cut needle s = some (before, after)) :
    s = before ++ needle ++ after := by
  induction s generalizing before after with
  | nil =>
    rw [cut] at h
    split at h
    · rename_i hn
      obtain ⟨rfl, rfl⟩ := Prod.mk.inj (Option.some.inj h)
      simp [hn]
    · exact absurd h (by simp)
  | cons c s ih =>
    rw [cut] at h
    split at h
    · rename_i hp
      obtain ⟨rfl, rfl⟩ := Prod.mk.inj (Option.some.inj h)
      obtain ⟨rest, hrest⟩ := List.isPrefixOf_iff_prefix.mp hp
      rw [← hrest]
      simp
    · obtain ⟨⟨before', after'⟩, hcut, heq⟩ := Option.map_eq_some_iff.mp h
      obtain ⟨rfl, rfl⟩ := Prod.mk.inj heq
      rw [ih hcut]
      simp

theorem cut_length {needle s before after : Text} (h : cut needle s = some (before, after)) :
    needle.length + after.length ≤ s.length := by
  have := congrArg List.length (cut_eq h)
  simp only [List.length_append] at this
  omega

/-- The first occurrence of one character has none before it. -/
theorem cut_singleton_iff {c : Char} {s before after : Text} :
    cut [c] s = some (before, after) ↔ s = before ++ c :: after ∧ c ∉ before := by
  induction s generalizing before with
  | nil => simp [cut]
  | cons a s ih =>
    by_cases ha : c = a
    · subst ha
      cases before with
      | nil => simp [cut]
      | cons b before =>
        simp only [cut, List.isPrefixOf, beq_self_eq_true, Bool.and_self, ↓reduceIte,
          List.cons_append, List.cons.injEq, List.mem_cons, not_or]
        constructor
        · intro h
          cases h
        · intro h
          exact absurd h.1.1 h.2.1
    · cases before with
      | nil => simp [cut, ha, Ne.symm ha]
      | cons b before =>
        simp only [cut, List.isPrefixOf, beq_false_of_ne ha, Bool.false_and, Bool.false_eq_true,
          ↓reduceIte, Option.map_eq_some_iff, Prod.exists, Prod.mk.injEq, List.cons.injEq,
          List.cons_append, List.mem_cons, not_or]
        constructor
        · intro h
          obtain ⟨_, _, hcut, ⟨rfl, rfl⟩, rfl⟩ := h
          obtain ⟨heq, hnot⟩ := ih.mp hcut
          exact ⟨⟨rfl, heq⟩, ha, hnot⟩
        · intro h
          obtain ⟨⟨rfl, heq⟩, -, hnot⟩ := h
          exact ⟨before, after, ih.mpr ⟨heq, hnot⟩, ⟨rfl, rfl⟩, rfl⟩

theorem cut_singleton_eq_none {c : Char} {s : Text} : cut [c] s = none ↔ c ∉ s := by
  induction s with
  | nil => simp [cut]
  | cons a s ih =>
    by_cases ha : c = a
    · simp [cut, ha]
    · simp [cut, ha, ih]

/-! ### Whitespace -/

/-- The Unicode `White_Space` property. -/
def isWhitespace (c : Char) : Bool :=
  (0x09 ≤ c.toNat && c.toNat ≤ 0x0D) || (0x2000 ≤ c.toNat && c.toNat ≤ 0x200A) ||
    c.toNat ∈ [0x20, 0x85, 0xA0, 0x1680, 0x2028, 0x2029, 0x202F, 0x205F, 0x3000]

def trimEndMatches (p : Char → Bool) (s : Text) : Text := (s.reverse.dropWhile p).reverse

def trimMatches (p : Char → Bool) (s : Text) : Text := trimEndMatches p (s.dropWhile p)

def trim (s : Text) : Text := trimMatches isWhitespace s

/-- The characters that are not blank. -/
def solid (s : Text) : Text := s.filter (!isWhitespace ·)

@[simp] theorem solid_append (s t : Text) : solid (s ++ t) = solid s ++ solid t :=
  List.filter_append ..

theorem solid_dropWhile (s : Text) : solid (s.dropWhile isWhitespace) = solid s := by
  induction s with
  | nil => rfl
  | cons c s ih =>
    cases hc : isWhitespace c with
    | true =>
      rw [List.dropWhile_cons_of_pos hc, ih]
      simp [solid, hc]
    | false => rw [List.dropWhile_cons_of_neg (by simp [hc])]

/-- Only blanks are trimmed. -/
@[simp] theorem solid_trim (s : Text) : solid (trim s) = solid s := by
  have hreverse : ∀ t : Text, solid t.reverse = (solid t).reverse := fun t => List.filter_reverse ..
  rw [trim, trimMatches, trimEndMatches, hreverse, solid_dropWhile, hreverse, List.reverse_reverse,
    solid_dropWhile]

theorem trim_cons_blank {c : Char} (h : isWhitespace c = true) (s : Text) :
    trim (c :: s) = trim s := by
  rw [trim, trimMatches, List.dropWhile_cons_of_pos h]
  rfl

/-! ### ASCII case -/

/-- `to_ascii_uppercase`: only `a` to `z` change. -/
def upper (s : Text) : Text := s.map Char.toUpper

/-- `to_ascii_lowercase`: only `A` to `Z` change. -/
def lower (s : Text) : Text := s.map Char.toLower

/-- Only 26 characters change. -/
theorem toUpper_cases (c : Char) : c.toUpper = c ∨ ∃ n < 123, 97 ≤ n ∧ c = Char.ofNat n := by
  by_cases h : 'a'.val ≤ c.val ∧ c.val ≤ 'z'.val
  · exact .inr ⟨c.toNat, Nat.lt_succ_of_le h.2, h.1, (Char.ofNat_toNat c).symm⟩
  · exact .inl (dif_neg h)

theorem isWhitespace_toUpper (c : Char) : isWhitespace c.toUpper = isWhitespace c := by
  have hletters : ∀ n < 123, 97 ≤ n →
      isWhitespace (Char.ofNat n).toUpper = isWhitespace (Char.ofNat n) := by decide +kernel
  obtain h | ⟨n, hn, hle, rfl⟩ := toUpper_cases c
  · rw [h]
  · exact hletters n hn hle

theorem eq_space_of_toUpper {c : Char} (h : c.toUpper = ' ') : c = ' ' := by
  have hletters : ∀ n < 123, 97 ≤ n → (Char.ofNat n).toUpper ≠ ' ' := by decide +kernel
  obtain hsame | ⟨n, hn, hle, rfl⟩ := toUpper_cases c
  · rw [← hsame, h]
  · exact absurd h (hletters n hn hle)

theorem solid_upper (s : Text) : solid (upper s) = upper (solid s) := by
  rw [solid, upper, List.filter_map, upper, solid]
  congr 1
  exact List.filter_congr fun c _ => by simp [isWhitespace_toUpper]

/-! ### Loops over what is left of a text -/

section Scan
variable {β : Type} (next : Text → Option (β × Text))

def scanFuel : Nat → Text → List β
  | 0, _ => []
  | n + 1, s => match next s with
    | none => []
    | some (b, rest) => b :: scanFuel n rest

/-- Take pieces off the front until there is none. -/
def scan (s : Text) : List β := scanFuel next (s.length + 1) s

variable {next}

theorem scanFuel_eq (hnext : ∀ s b rest, next s = some (b, rest) → rest.length < s.length)
    (m n : Nat) (s : Text) (hm : s.length < m) (hn : s.length < n) :
    scanFuel next m s = scanFuel next n s := by
  induction m generalizing n s with
  | zero => exact absurd hm (by omega)
  | succ m ih =>
    cases n with
    | zero => exact absurd hn (by omega)
    | succ n =>
      rw [scanFuel, scanFuel]
      cases hs : next s with
      | none => rfl
      | some p =>
        have hlt := hnext s p.1 p.2 hs
        show p.1 :: scanFuel next m p.2 = p.1 :: scanFuel next n p.2
        rw [ih n p.2 (by omega) (by omega)]

/-- The loop, one step at a time: the fuel never runs out. -/
theorem scan_eq (hnext : ∀ s b rest, next s = some (b, rest) → rest.length < s.length) (s : Text) :
    scan next s = match next s with
      | none => []
      | some (b, rest) => b :: scan next rest := by
  rw [scan, scanFuel]
  cases hs : next s with
  | none => rfl
  | some p =>
    have hlt := hnext s p.1 p.2 hs
    show p.1 :: scanFuel next s.length p.2 = p.1 :: scan next p.2
    rw [scan, scanFuel_eq hnext _ (p.2.length + 1) p.2 (by omega) (by omega)]

variable (next) in
/-- A piece some step takes. -/
inductive Found : Text → β → Prop
  | here {s rest : Text} {b : β} : next s = some (b, rest) → Found s b
  | later {s rest : Text} {b b' : β} : next s = some (b, rest) → Found rest b' → Found s b'

/-- **The loop takes what its steps take.** -/
theorem mem_scan_iff (hnext : ∀ s b rest, next s = some (b, rest) → rest.length < s.length)
    (s : Text) (b : β) : b ∈ scan next s ↔ Found next s b := by
  induction hlength : s.length using Nat.strongRecOn generalizing s with
  | ind n ih =>
    rw [scan_eq hnext]
    cases hs : next s with
    | none =>
      refine ⟨fun h => absurd h List.not_mem_nil, fun h => ?_⟩
      cases h with
      | here h | later h _ => cases hs.symm.trans h
    | some p =>
      obtain ⟨b', rest⟩ := p
      have hrest := ih rest.length (hlength ▸ hnext s b' rest hs) rest rfl
      rw [List.mem_cons, hrest]
      constructor
      · intro h
        cases h with
        | inl h => exact .here (h ▸ hs)
        | inr h => exact .later hs h
      · intro h
        cases h with
        | here h => exact .inl (Prod.mk.inj (Option.some.inj (h.symm.trans hs))).1
        | later h hfound =>
          exact .inr ((Prod.mk.inj (Option.some.inj (h.symm.trans hs))).2 ▸ hfound)

end Scan
end Text
end Griot.Lib
