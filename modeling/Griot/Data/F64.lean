import Mathlib.Algebra.Order.Field.Rat
import Mathlib.Algebra.Order.Floor.Ring
import Mathlib.Data.Int.Log
import Mathlib.Data.Rat.Floor
import Mathlib.Order.WithBot
import Mathlib.Tactic.Linarith

/-! Double-precision numbers.

A finite value is the rational it denotes, zero with its sign; there are two
infinities and one NaN. Comparisons and the special values follow IEEE 754.
`F64.round` is the nearest double, infinite past the largest. -/
namespace Griot

inductive F64 where
  | fin (q : ℚ)
  | negZero
  | inf (negative : Bool)
  | nan
  deriving DecidableEq

namespace F64

/-- `f64::EPSILON`. -/
def epsilon : ℚ := 1 / 2 ^ 52

theorem epsilon_pos : 0 < epsilon := by
  norm_num [epsilon]

/-- The rational a finite value denotes. -/
def toRat? : F64 → Option ℚ
  | .fin q => some q
  | .negZero => some 0
  | .inf _ => none
  | .nan => none

def isFinite (x : F64) : Bool := x.toRat?.isSome

def neg : F64 → F64
  | .fin q => if q = 0 then .negZero else .fin (-q)
  | .negZero => .fin 0
  | .inf s => .inf (!s)
  | .nan => .nan

/-- The sign bit; NaN has none. -/
def negative : F64 → Bool
  | .fin q => q < 0
  | .negZero => true
  | .inf s => s
  | .nan => false

/-- The zero with the given sign. -/
def zero (negative : Bool) : F64 := if negative then .negZero else .fin 0

/-- `x < y`; false as soon as one side is NaN. -/
def lt : F64 → F64 → Bool
  | .nan, _ => false
  | _, .nan => false
  | .inf s, .inf t => s && !t
  | .inf s, _ => s
  | _, .inf t => !t
  | x, y => x.toRat?.getD 0 < y.toRat?.getD 0

/-- `x <= y`; false as soon as one side is NaN. -/
def le : F64 → F64 → Bool
  | .nan, _ => false
  | _, .nan => false
  | x, y => !y.lt x

theorem lt_finite {x y : F64} {p q : ℚ} (hx : x.toRat? = some p) (hy : y.toRat? = some q) :
    x.lt y = decide (p < q) := by
  cases x <;> cases y <;> simp_all [toRat?, lt]

theorem le_finite {x y : F64} {p q : ℚ} (hx : x.toRat? = some p) (hy : y.toRat? = some q) :
    x.le y = decide (p ≤ q) := by
  have hlt : (!y.lt x) = decide (p ≤ q) := by
    rw [lt_finite hy hx, ← decide_not]
    simp only [not_lt]
  cases x <;> cases y <;> simp_all [toRat?, le]

theorem le_inf {x : F64} (h : x ≠ .nan) : x.le (.inf false) = true := by
  cases x <;> simp_all [le, lt]

theorem inf_le {x : F64} (h : x ≠ .nan) : (inf true).le x = true := by
  cases x <;> simp_all [le, lt]

theorem not_finite_cases {x : F64} (h : x.toRat? = none) : x = .nan ∨ ∃ s, x = .inf s := by
  cases x with
  | nan => exact .inl rfl
  | inf s => exact .inr ⟨s, rfl⟩
  | _ => cases h

theorem ne_nan_of_finite {x : F64} {p : ℚ} (h : x.toRat? = some p) : x ≠ .nan := by
  rintro rfl
  cases h

/-- Nearest integer, halves to even. -/
def roundHalfEven (q : ℚ) : ℤ :=
  let low := ⌊q⌋
  let rest := q - low
  if rest < 1 / 2 then low
  else if 1 / 2 < rest then low + 1
  else if low % 2 = 0 then low else low + 1

/-- The double nearest to `q`: 53 significant bits, smallest exponent `-1074`,
infinite from `2 ^ 1024` on. -/
def round (q : ℚ) : F64 :=
  if q = 0 then .fin 0
  else
    let exponent := max (Int.log 2 |q| - 52) (-1074)
    let magnitude := roundHalfEven (|q| / 2 ^ exponent) * (2 : ℚ) ^ exponent
    if 2 ^ 1024 ≤ magnitude then .inf (q < 0)
    else if magnitude = 0 then (if q < 0 then .negZero else .fin 0)
    else .fin (if q < 0 then -magnitude else magnitude)

/-- Between the doubles there are other rationals; these are the doubles. -/
def IsDouble (x : F64) : Prop := ∀ q, x = .fin q → round q = x

theorem roundHalfEven_intCast (n : ℤ) : roundHalfEven n = n := by
  simp [roundHalfEven]

/-- One needs no rounding. -/
theorem round_one : round 1 = .fin 1 := by
  have hlog : Int.log 2 (|1| : ℚ) = 0 := by simp
  have hmagnitude : roundHalfEven (|1| / 2 ^ (max (Int.log 2 (|1| : ℚ) - 52) (-1074) : ℤ)) *
      (2 : ℚ) ^ (max (Int.log 2 (|1| : ℚ) - 52) (-1074) : ℤ) = 1 := by
    rw [hlog, show (|1| : ℚ) / 2 ^ (max (0 - 52) (-1074) : ℤ) = ((2 ^ 52 : ℤ) : ℚ) by norm_num,
      roundHalfEven_intCast]
    norm_num
  rw [round, if_neg one_ne_zero]
  have hlarge : ¬(2 : ℚ) ^ 1024 ≤ 1 := not_le.mpr (one_lt_pow₀ (by norm_num) (by norm_num))
  simp only [hmagnitude, if_neg hlarge]
  norm_num

/-! ### Rounding once and for all -/

theorem roundHalfEven_nonneg {q : ℚ} (h : 0 ≤ q) : 0 ≤ roundHalfEven q := by
  have hfloor : 0 ≤ ⌊q⌋ := Int.floor_nonneg.mpr h
  simp only [roundHalfEven]
  split_ifs <;> omega

theorem roundHalfEven_le {q : ℚ} {n : ℤ} (h : q < n) : roundHalfEven q ≤ n := by
  have hfloor : ⌊q⌋ < n := Int.floor_lt.mpr h
  simp only [roundHalfEven]
  split_ifs <;> omega

/-- The exponent of the last place of a double near `q`. -/
def lastPlace (q : ℚ) : ℤ := max (Int.log 2 |q| - 52) (-1074)

/-- 53 binary places at most. -/
theorem lastPlace_bound (q : ℚ) : |q| / 2 ^ lastPlace q < 2 ^ 53 := by
  have hlog : |q| < (2 : ℚ) ^ (Int.log 2 |q| + 1) := Int.lt_zpow_succ_log_self (by norm_num) |q|
  rw [div_lt_iff₀ (zpow_pos (by norm_num) _), ← zpow_natCast, ← zpow_add₀ (by norm_num)]
  refine hlog.trans_le (zpow_le_zpow_right₀ (by norm_num) ?_)
  have hle : Int.log 2 |q| - 52 ≤ lastPlace q := le_max_left _ _
  push_cast
  omega

/-- A number of 53 binary places has no more. -/
theorem exact_at_lastPlace {k : ℤ} {e : ℤ} (hk : 0 < k) (hbound : k ≤ 2 ^ 53) (he : -1074 ≤ e) {q : ℚ}
    (hq : |q| = k * (2 : ℚ) ^ e) : ∃ n : ℤ, |q| / 2 ^ lastPlace q = n := by
  by_cases hle : lastPlace q ≤ e
  · refine ⟨k * 2 ^ (e - lastPlace q).toNat, ?_⟩
    rw [hq, mul_div_assoc, ← zpow_sub₀ (by norm_num)]
    push_cast
    rw [← zpow_natCast, Int.toNat_of_nonneg (by omega)]
  · -- Only the power of two itself reaches the next place.
    have hlog : e + 53 ≤ Int.log 2 |q| := by
      have hmax : lastPlace q = Int.log 2 |q| - 52 ∨ lastPlace q = -1074 := by
        unfold lastPlace
        omega
      omega
    have hpos : 0 < |q| := by
      rw [hq]
      exact mul_pos (by exact_mod_cast hk) (zpow_pos (by norm_num) _)
    have hge : (2 : ℚ) ^ (e + 53) ≤ |q| := (Int.zpow_le_iff_le_log (by norm_num) hpos).mpr hlog
    have hk' : k = 2 ^ 53 := by
      refine le_antisymm hbound ?_
      rw [hq, zpow_add₀ (by norm_num), mul_comm] at hge
      have hcast : ((2 : ℚ) ^ (53 : ℤ)) ≤ k := le_of_mul_le_mul_right hge (zpow_pos (by norm_num) _)
      exact_mod_cast hcast
    have hpower : |q| = (2 : ℚ) ^ (e + 53) := by
      rw [hq, hk', zpow_add₀ (by norm_num), mul_comm]
      norm_num
    have hlog' : Int.log 2 |q| = e + 53 := by
      rw [hpower]
      exact_mod_cast Int.log_zpow (b := 2) (R := ℚ) (by norm_num) (e + 53)
    refine ⟨2 ^ 52, ?_⟩
    have hplace : lastPlace q = e + 1 := by
      unfold lastPlace
      omega
    rw [hplace, hpower, ← zpow_sub₀ (by norm_num), show e + 53 - (e + 1) = 52 by ring]
    norm_num

/-- The magnitude of the double nearest to `q`. -/
def magnitude (q : ℚ) : ℚ := roundHalfEven (|q| / 2 ^ lastPlace q) * (2 : ℚ) ^ lastPlace q

theorem round_eq (q : ℚ) : round q =
    if q = 0 then .fin 0
    else if 2 ^ 1024 ≤ magnitude q then .inf (q < 0)
    else if magnitude q = 0 then (if q < 0 then .negZero else .fin 0)
    else .fin (if q < 0 then -magnitude q else magnitude q) := rfl

theorem magnitude_nonneg (q : ℚ) : 0 ≤ magnitude q := by
  have hzpow : (0 : ℚ) < 2 ^ lastPlace q := zpow_pos (by norm_num) _
  have hk := roundHalfEven_nonneg (div_nonneg (abs_nonneg q) hzpow.le)
  exact mul_nonneg (by exact_mod_cast hk) hzpow.le

/-- What was rounded stays as it is. -/
theorem magnitude_of_abs {q r : ℚ} (hne : magnitude q ≠ 0) (hr : |r| = magnitude q) :
    magnitude r = magnitude q := by
  have hzpow : (0 : ℚ) < 2 ^ lastPlace q := zpow_pos (by norm_num) _
  have hk := roundHalfEven_nonneg (div_nonneg (abs_nonneg q) hzpow.le)
  have hpos : 0 < roundHalfEven (|q| / 2 ^ lastPlace q) := by
    refine hk.lt_of_ne fun hzero => hne ?_
    rw [magnitude, ← hzero, Int.cast_zero, zero_mul]
  have hbound : roundHalfEven (|q| / 2 ^ lastPlace q) ≤ 2 ^ 53 :=
    roundHalfEven_le (by exact_mod_cast lastPlace_bound q)
  obtain ⟨n, hn⟩ := exact_at_lastPlace hpos hbound (le_max_right _ _) hr
  rw [magnitude, hn, roundHalfEven_intCast, ← hn, div_mul_cancel₀, hr]
  exact (zpow_pos (by norm_num) _).ne'

theorem round_ne_nan (q : ℚ) : round q ≠ .nan := by
  rw [round_eq]
  split_ifs <;> simp

/-- **Rounding twice is rounding once.** -/
theorem round_isDouble (q : ℚ) : (round q).IsDouble := by
  intro r hr
  have hround := round_eq q
  rw [hr] at hround ⊢
  split_ifs at hround with hzero hlarge htiny hnegative hnegative
  · rw [fin.inj hround]
    rfl
  · rw [fin.inj hround]
    rfl
  · have hpos := (magnitude_nonneg q).lt_of_ne (Ne.symm htiny)
    obtain rfl := fin.inj hround
    have hsame := magnitude_of_abs (r := -magnitude q) htiny (by rw [abs_neg, abs_of_pos hpos])
    rw [round_eq, hsame, if_neg (by linarith), if_neg hlarge, if_neg htiny, if_pos (by linarith)]
  · have hpos := (magnitude_nonneg q).lt_of_ne (Ne.symm htiny)
    obtain rfl := fin.inj hround
    have hsame := magnitude_of_abs (r := magnitude q) htiny (abs_of_pos hpos)
    rw [round_eq, hsame, if_neg htiny, if_neg hlarge, if_neg htiny, if_neg (by linarith)]

/-! ### The order -/

/-- Where a value stands in the order; NaN stands nowhere. -/
def place : F64 → Option (WithBot (WithTop ℚ))
  | .fin q => some ((q : WithTop ℚ) : WithBot (WithTop ℚ))
  | .negZero => some (((0 : ℚ) : WithTop ℚ) : WithBot (WithTop ℚ))
  | .inf true => some ⊥
  | .inf false => some ((⊤ : WithTop ℚ) : WithBot (WithTop ℚ))
  | .nan => none

theorem lt_iff {x y : F64} :
    x.lt y = true ↔ ∃ a b, x.place = some a ∧ y.place = some b ∧ a < b := by
  rcases x with p | _ | (_ | _) | _ <;> rcases y with q | _ | (_ | _) | _ <;>
    simp [lt, place, toRat?, -WithTop.coe_zero, -WithBot.coe_zero] <;>
    first | exact WithBot.coe_lt_coe.mpr (WithTop.coe_lt_top _) | exact decide_eq_true_iff

theorem le_iff {x y : F64} :
    x.le y = true ↔ ∃ a b, x.place = some a ∧ y.place = some b ∧ a ≤ b := by
  rcases x with p | _ | (_ | _) | _ <;> rcases y with q | _ | (_ | _) | _ <;>
    simp [le, lt, place, toRat?, -WithTop.coe_zero, -WithBot.coe_zero] <;>
    exact decide_eq_false_iff_not.trans not_lt

protected theorem lt_irrefl (x : F64) : x.lt x = false := by
  rw [Bool.eq_false_iff, ne_eq, lt_iff]
  rintro ⟨a, b, ha, hb, hlt⟩
  obtain rfl := Option.some.inj (ha.symm.trans hb)
  exact hlt.false

protected theorem le_trans {x y z : F64} (h : x.le y = true) (h' : y.le z = true) : x.le z = true := by
  obtain ⟨a, b, ha, hb, hab⟩ := le_iff.mp h
  obtain ⟨b', c, hb', hc, hbc⟩ := le_iff.mp h'
  obtain rfl := Option.some.inj (hb.symm.trans hb')
  exact le_iff.mpr ⟨a, c, ha, hc, hab.trans hbc⟩

protected theorem lt_of_le_of_lt {x y z : F64} (h : x.le y = true) (h' : y.lt z = true) : x.lt z = true := by
  obtain ⟨a, b, ha, hb, hab⟩ := le_iff.mp h
  obtain ⟨b', c, hb', hc, hbc⟩ := lt_iff.mp h'
  obtain rfl := Option.some.inj (hb.symm.trans hb')
  exact lt_iff.mpr ⟨a, c, ha, hc, hab.trans_lt hbc⟩

protected theorem lt_of_lt_of_le {x y z : F64} (h : x.lt y = true) (h' : y.le z = true) : x.lt z = true := by
  obtain ⟨a, b, ha, hb, hab⟩ := lt_iff.mp h
  obtain ⟨b', c, hb', hc, hbc⟩ := le_iff.mp h'
  obtain rfl := Option.some.inj (hb.symm.trans hb')
  exact lt_iff.mpr ⟨a, c, ha, hc, hab.trans_le hbc⟩

protected theorem le_of_lt {x y : F64} (h : x.lt y = true) : x.le y = true := by
  obtain ⟨a, b, ha, hb, hlt⟩ := lt_iff.mp h
  exact le_iff.mpr ⟨a, b, ha, hb, hlt.le⟩

theorem le_cases {x y : F64} (h : x.le y = true) :
    (∃ p q, x.toRat? = some p ∧ y.toRat? = some q ∧ p ≤ q) ∨ (x = .inf true ∧ y ≠ .nan) ∨
      (y = .inf false ∧ x ≠ .nan) := by
  cases hx : x.toRat? with
  | some p =>
    cases hy : y.toRat? with
    | some q => exact .inl ⟨p, q, rfl, rfl, by simpa [le_finite hx hy] using h⟩
    | none =>
      refine .inr (.inr ⟨?_, ne_nan_of_finite hx⟩)
      rcases y with _ | _ | (_ | _) | _ <;> cases x <;> simp_all [toRat?, le, lt]
  | none =>
    rcases x with _ | _ | (_ | _) | _ <;> rcases y with _ | _ | (_ | _) | _ <;>
      simp_all [toRat?, le, lt]

theorem toRat_of_alike {x y : F64} {p : ℚ} (hx : x.toRat? = some p) (hle : y.le x = true)
    (hge : x.le y = true) : y.toRat? = some p := by
  obtain ⟨p', q, hx', hy, hpq⟩ | ⟨rfl, -⟩ | ⟨rfl, -⟩ := le_cases hge
  · obtain rfl := Option.some.inj (hx.symm.trans hx')
    rw [le_finite hy hx, decide_eq_true_eq] at hle
    rw [hy, le_antisymm hle hpq]
  · cases hx
  · cases x <;> simp_all [toRat?, le, lt]

theorem lt_or_gt_or_alike {x y : F64} (hx : x ≠ .nan) (hy : y ≠ .nan) :
    x.lt y = true ∨ y.lt x = true ∨ (x.le y = true ∧ y.le x = true) := by
  cases hlt : x.lt y <;> cases hgt : y.lt x <;> cases x <;> cases y <;> simp_all [le]

/-- What is not negative is a rational or infinite. -/
theorem nonneg_cases {x : F64} (h : (fin 0).le x = true) :
    (∃ q, x.toRat? = some q ∧ 0 ≤ q) ∨ x = .inf false := by
  cases x with
  | fin q => exact .inl ⟨q, rfl, by simpa [le_finite (x := .fin 0) (y := .fin q) rfl rfl] using h⟩
  | negZero => exact .inl ⟨0, rfl, le_refl 0⟩
  | inf s =>
    cases s with
    | false => exact .inr rfl
    | true => exact absurd h (by decide)
  | nan => exact absurd h (by decide)

/-- Nothing finite is above what is not finite, or all of it is. -/
theorem lt_of_not_finite {x y z : F64} {p r : ℚ} (hx : x.toRat? = none) (hy : y.toRat? = some p)
    (hz : z.toRat? = some r) : x.lt y = x.lt z := by
  cases x <;> cases y <;> cases z <;> simp_all [toRat?, lt]

/-- What is finite and not at most zero is a positive rational. -/
theorem pos_of_finite {x : F64} (hfinite : x.isFinite = true) (h : x.le (.fin 0) = false) :
    ∃ q, x.toRat? = some q ∧ 0 < q := by
  obtain ⟨q, hq⟩ := Option.isSome_iff_exists.mp hfinite
  refine ⟨q, hq, ?_⟩
  simpa [le_finite hq (y := .fin 0) rfl] using h

theorem neg_finite {x : F64} {p : ℚ} (hx : x.toRat? = some p) : x.neg.toRat? = some (-p) := by
  cases x with
  | fin r =>
    obtain rfl : r = p := by simpa [toRat?] using hx
    rw [neg]
    split
    · rename_i h
      simp [toRat?, h]
    · rfl
  | negZero =>
    obtain rfl : 0 = p := by simpa [toRat?] using hx
    simp [neg, toRat?]
  | inf s => exact absurd hx (by simp [toRat?])
  | nan => exact absurd hx (by simp [toRat?])

end F64
end Griot
