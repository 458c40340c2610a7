import Griot.Data.F64
import Griot.Lib.Text
import Mathlib.Data.List.TakeWhile

/-! Reading and writing numbers as text. -/
namespace Griot

open Lib

/-- An optional sign: whether it is a minus, and what follows. -/
def takeSign : Text → Bool × Text
  | '-' :: s => (true, s)
  | '+' :: s => (false, s)
  | s => (false, s)

def digitsValue (s : Text) : Nat := s.foldl (fun n c => 10 * n + (c.toNat - '0'.toNat)) 0

/-- One decimal digit or more. -/
def parseDigits (s : Text) : Option Nat :=
  if s ≠ [] ∧ s.all Char.isDigit then some (digitsValue s) else none

/-- `n.parse::<i64>()`: out of range is an error. -/
def parseI64 (s : Text) : Option Int64 :=
  let (negative, digits) := takeSign s
  (parseDigits digits).bind fun n =>
    let value : ℤ := if negative then -n else n
    if -2 ^ 63 ≤ value ∧ value < 2 ^ 63 then some (Int64.ofInt value) else none

/-- The exponent at the end of a number. -/
def parseExponent : Text → Option ℤ
  | [] => some 0
  | c :: s =>
    if c = 'e' ∨ c = 'E' then
      let (negative, digits) := takeSign s
      (parseDigits digits).map fun n => if negative then -(n : ℤ) else n
    else none

/-- `n.parse::<f64>()`. -/
def parseF64 (s : Text) : Option F64 :=
  let (negative, body) := takeSign s
  let name := body.map Char.toLower
  if name = "inf".toList ∨ name = "infinity".toList then some (.inf negative)
  else if name = "nan".toList then some .nan
  else
    let whole := body.takeWhile Char.isDigit
    let (fraction, rest) := match body.dropWhile Char.isDigit with
      | '.' :: r => (r.takeWhile Char.isDigit, r.dropWhile Char.isDigit)
      | r => ([], r)
    if whole = [] ∧ fraction = [] then none
    else (parseExponent rest).map fun exponent =>
      let value := F64.round (digitsValue (whole ++ fraction) *
        (10 : ℚ) ^ (exponent - (fraction.length : ℤ)))
      if negative then value.neg else value

/-- The number that a text denotes: digits, a fraction, an exponent. -/
def decimalValue (s : Text) : Option ℚ :=
  let (negative, body) := takeSign s
  let whole := body.takeWhile Char.isDigit
  let (fraction, rest) := match body.dropWhile Char.isDigit with
    | '.' :: r => (r.takeWhile Char.isDigit, r.dropWhile Char.isDigit)
    | r => ([], r)
  if whole = [] ∧ fraction = [] then none
  else (parseExponent rest).map fun exponent =>
    let value := digitsValue (whole ++ fraction) * (10 : ℚ) ^ (exponent - (fraction.length : ℤ))
    if negative then -value else value

/-- An integer that is read as one is the number its text denotes. -/
theorem decimalValue_of_parseI64 {s : Text} {i : Int64} (h : parseI64 s = some i) :
    decimalValue s = some (i.toInt : ℚ) := by
  rcases hsign : takeSign s with ⟨negative, digits⟩
  rw [parseI64, hsign] at h
  obtain ⟨n, hn, h⟩ := Option.bind_eq_some_iff.1 h
  obtain ⟨⟨hne, hall⟩, rfl⟩ : (digits ≠ [] ∧ digits.all Char.isDigit) ∧ digitsValue digits = n := by
    rw [parseDigits] at hn
    split at hn
    · exact ⟨‹_›, Option.some.inj hn⟩
    · cases hn
  have htake : digits.takeWhile Char.isDigit = digits :=
    List.takeWhile_eq_self_iff.2 (List.all_eq_true.1 hall)
  have hdrop : digits.dropWhile Char.isDigit = [] :=
    List.dropWhile_eq_nil_iff.2 (List.all_eq_true.1 hall)
  have hvalue : i.toInt = if negative then -(digitsValue digits : ℤ) else digitsValue digits := by
    dsimp only at h
    generalize (if negative then -(digitsValue digits : ℤ) else digitsValue digits) = value at h ⊢
    split at h
    · rename_i hrange
      obtain rfl := Option.some.inj h
      exact Int64.toInt_ofInt_of_le hrange.1 hrange.2
    · cases h
  rw [decimalValue, hsign, hvalue]
  cases negative <;> simp [htake, hdrop, hne, parseExponent]

/-- `format!("{:.6}", x)`. -/
def formatFixed6 (x : F64) : String :=
  let magnitude (q : ℚ) : String :=
    let n := (F64.roundHalfEven (|q| * 10 ^ 6)).toNat
    let fraction := (toString (n % 10 ^ 6)).toList
    toString (n / 10 ^ 6) ++ "." ++ String.ofList (List.replicate (6 - fraction.length) '0' ++ fraction)
  match x with
  | .fin q => if q < 0 then "-" ++ magnitude q else magnitude q
  | .negZero => "-" ++ magnitude 0
  | .inf negative => if negative then "-inf" else "inf"
  | .nan => "NaN"

/-- What is written with six decimals, as a text. -/
theorem formatFixed6_toList {q : ℚ} (h : 0 ≤ q) :
    (formatFixed6 (.fin q)).toList =
      Nat.toDigits 10 ((F64.roundHalfEven (q * 10 ^ 6)).toNat / 10 ^ 6) ++ '.' ::
        (List.replicate (6 - (Nat.toDigits 10
            ((F64.roundHalfEven (q * 10 ^ 6)).toNat % 10 ^ 6)).length) '0' ++
          Nat.toDigits 10 ((F64.roundHalfEven (q * 10 ^ 6)).toNat % 10 ^ 6)) := by
  have hdot : ".".toList = ['.'] := by decide
  simp only [formatFixed6, if_neg h.not_gt, abs_of_nonneg h, String.toList_append,
    String.toList_ofList, Nat.toString_eq_ofList_toDigits, hdot, List.append_assoc,
    List.singleton_append]

/-- Digits, a point, digits: a decimal number. -/
theorem decimalValue_digits {whole fraction : Text} (hne : whole ≠ [])
    (hwhole : ∀ c ∈ whole, c.isDigit = true) (hfraction : ∀ c ∈ fraction, c.isDigit = true) :
    decimalValue (whole ++ '.' :: fraction) =
      some ((digitsValue (whole ++ fraction) : ℚ) / 10 ^ fraction.length) := by
  have hpoint : ¬('.').isDigit = true := by decide
  have htake : (whole ++ '.' :: fraction).takeWhile Char.isDigit = whole := by
    rw [List.takeWhile_append_of_pos hwhole, List.takeWhile_cons_of_neg hpoint, List.append_nil]
  have hdrop : (whole ++ '.' :: fraction).dropWhile Char.isDigit = '.' :: fraction := by
    rw [List.dropWhile_append_of_pos hwhole, List.dropWhile_cons_of_neg hpoint]
  have hsign : takeSign (whole ++ '.' :: fraction) = (false, whole ++ '.' :: fraction) := by
    obtain ⟨c, rest, rfl⟩ := List.exists_cons_of_ne_nil hne
    have hc := hwhole c List.mem_cons_self
    rw [List.cons_append, takeSign]
    · rintro s ⟨rfl, -⟩
      exact absurd hc (by decide)
    · rintro s ⟨rfl, -⟩
      exact absurd hc (by decide)
  rw [decimalValue, hsign]
  simp only [htake, hdrop, List.takeWhile_eq_self_iff.2 hfraction,
    List.dropWhile_eq_nil_iff.2 hfraction, hne, false_and, if_false, parseExponent, Option.map_some,
    Bool.false_eq_true, zero_sub, zpow_neg, zpow_natCast, div_eq_mul_inv]

/-- **What is written is the nearest multiple of a millionth.** -/
theorem decimalValue_formatFixed6 {q : ℚ} (h : 0 ≤ q) :
    decimalValue (formatFixed6 (.fin q)).toList =
      some (((F64.roundHalfEven (q * 10 ^ 6)).toNat : ℚ) / 10 ^ 6) := by
  generalize hn : (F64.roundHalfEven (q * 10 ^ 6)).toNat = n
  have hdigit : ∀ m, ∀ c ∈ Nat.toDigits 10 m, c.isDigit = true :=
    fun m c hc => Nat.isDigit_of_mem_toDigits (by decide) (by decide) hc
  have hlength : (Nat.toDigits 10 (n % 10 ^ 6)).length ≤ 6 :=
    (Nat.length_toDigits_le_iff (by decide) (by decide)).2 (Nat.mod_lt _ (by decide))
  have hfraction : ∀ c ∈ List.replicate (6 - (Nat.toDigits 10 (n % 10 ^ 6)).length) '0' ++
      Nat.toDigits 10 (n % 10 ^ 6), c.isDigit = true := by
    intro c hc
    cases List.mem_append.mp hc with
    | inl hzero =>
      rw [List.eq_of_mem_replicate hzero]
      decide
    | inr hmem => exact hdigit _ c hmem
  rw [formatFixed6_toList h, hn, decimalValue_digits Nat.toDigits_ne_nil (hdigit _) hfraction]
  have hvalue : digitsValue (Nat.toDigits 10 (n / 10 ^ 6) ++
      (List.replicate (6 - (Nat.toDigits 10 (n % 10 ^ 6)).length) '0' ++
        Nat.toDigits 10 (n % 10 ^ 6))) = n := by
    show Nat.ofDigitChars 10 _ 0 = n
    rw [← List.append_assoc, Nat.ofDigitChars_append, Nat.ofDigitChars_append,
      Nat.ofDigitChars_ten_toDigits, Nat.ofDigitChars_replicate_zero,
      Nat.ofDigitChars_eq_ofDigitChars_zero, Nat.ofDigitChars_ten_toDigits, ← Nat.mul_assoc,
      ← Nat.pow_add, Nat.add_sub_cancel' hlength, Nat.div_add_mod]
  have hsix : (List.replicate (6 - (Nat.toDigits 10 (n % 10 ^ 6)).length) '0' ++
      Nat.toDigits 10 (n % 10 ^ 6)).length = 6 := by
    rw [List.length_append, List.length_replicate]
    omega
  rw [hvalue, hsix]

theorem F64.abs_roundHalfEven_sub_le (q : ℚ) : |(F64.roundHalfEven q : ℚ) - q| ≤ 1 / 2 := by
  have hlow := Int.floor_le q
  have hhigh := Int.lt_floor_add_one q
  rw [abs_le, F64.roundHalfEven]
  split
  · constructor <;> linarith
  · split
    · push_cast
      constructor <;> linarith
    · split
      · constructor <;> linarith
      · push_cast
        constructor <;> linarith

/-- A half is rounded down to zero. -/
theorem F64.roundHalfEven_pos_iff {q : ℚ} : 0 < F64.roundHalfEven q ↔ 1 / 2 < q := by
  have hround := abs_le.mp (F64.abs_roundHalfEven_sub_le q)
  constructor
  · intro h
    by_contra hle
    have hone : (1 : ℚ) ≤ F64.roundHalfEven q := by exact_mod_cast h
    have hhalf : q = 1 / 2 := by linarith
    rw [hhalf, F64.roundHalfEven] at h
    norm_num at h
  · intro h
    have : (0 : ℚ) < F64.roundHalfEven q := by linarith
    exact_mod_cast this

/-- **What is written is off by half a millionth at most**, and is zero up to that. -/
theorem formatFixed6_near {q : ℚ} (h : 0 ≤ q) :
    ∃ v, decimalValue (formatFixed6 (.fin q)).toList = some v ∧ |v - q| ≤ 1 / (2 * 10 ^ 6) ∧
      (0 < v ↔ 1 / (2 * 10 ^ 6) < q) := by
  obtain ⟨hlow, hhigh⟩ := abs_le.mp (F64.abs_roundHalfEven_sub_le (q * 10 ^ 6))
  have hpos := @F64.roundHalfEven_pos_iff (q * 10 ^ 6)
  have hvalue := decimalValue_formatFixed6 h
  have hscaled : 0 ≤ q * 10 ^ 6 := by positivity
  generalize F64.roundHalfEven (q * 10 ^ 6) = n at hlow hhigh hpos hvalue
  have hnonneg : 0 ≤ n := by
    have : (-1 : ℚ) < n := by linarith
    have : -1 < n := by exact_mod_cast this
    omega
  have hcast : (n.toNat : ℚ) = n := by exact_mod_cast Int.toNat_of_nonneg hnonneg
  rw [hcast] at hvalue
  refine ⟨_, hvalue, ?_, ?_⟩
  · rw [abs_le]
    constructor
    · linarith
    · linarith
  · constructor
    · intro hv
      have : (0 : ℚ) < n := (div_pos_iff_of_pos_right (by positivity)).mp hv
      have := hpos.mp (by exact_mod_cast this)
      linarith
    · intro hq
      have : 0 < n := hpos.mpr (by linarith)
      positivity

/-- `f.round() as i64`: halves away from zero, then clamped; NaN gives zero. -/
def F64.roundToI64 (x : F64) : Int64 :=
  let clamp (n : ℤ) : Int64 := Int64.ofInt (max (-2 ^ 63) (min n (2 ^ 63 - 1)))
  match x with
  | .fin q => clamp (if q < 0 then -⌊-q + 1 / 2⌋ else ⌊q + 1 / 2⌋)
  | .negZero => 0
  | .inf negative => if negative then clamp (-2 ^ 63) else clamp (2 ^ 63 - 1)
  | .nan => 0

end Griot
