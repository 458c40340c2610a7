import Griot.Data.F64

/-! Doubles in order.

Rounding keeps the order of what it rounds (`magnitude_mono`), so a double is on the same
side of a number and of the double nearest to it, or is that double (`lt_of_lt_round`,
`lt_of_round_lt`). `totalCmp` is the total order of IEEE 754, which tells the two zeros
apart and puts NaN last. -/
namespace Griot.F64

/-! ### Rounding is monotone -/

theorem roundHalfEven_bounds (q : ℚ) : ⌊q⌋ ≤ roundHalfEven q ∧ roundHalfEven q ≤ ⌊q⌋ + 1 := by
  simp only [roundHalfEven]
  split_ifs <;> omega

theorem roundHalfEven_mono {p q : ℚ} (h : p ≤ q) : roundHalfEven p ≤ roundHalfEven q := by
  have hfloor : ⌊p⌋ ≤ ⌊q⌋ := Int.floor_le_floor h
  obtain hlt | heq := hfloor.lt_or_eq
  · have hp := (roundHalfEven_bounds p).2
    have hq := (roundHalfEven_bounds q).1
    omega
  · -- Between the same two integers: `p` is not rounded up unless `q` is.
    have hrest : p - ⌊p⌋ ≤ q - ⌊q⌋ := by
      rw [heq]
      linarith
    simp only [roundHalfEven]
    split_ifs <;> first | omega | (exfalso; linarith)

theorem lastPlace_mono {p q : ℚ} (hp : 0 < p) (h : p ≤ q) : lastPlace p ≤ lastPlace q := by
  have hlog : Int.log 2 p ≤ Int.log 2 q := Int.log_mono_right hp h
  rw [lastPlace, lastPlace, abs_of_pos hp, abs_of_pos (hp.trans_le h)]
  omega

theorem magnitude_zero : magnitude 0 = 0 := by
  rw [magnitude, abs_zero, zero_div, show (0 : ℚ) = ((0 : ℤ) : ℚ) by norm_num,
    roundHalfEven_intCast, Int.cast_zero, zero_mul]

theorem magnitude_mono {p q : ℚ} (hp : 0 ≤ p) (h : p ≤ q) : magnitude p ≤ magnitude q := by
  obtain rfl | hpos := hp.eq_or_lt
  · rw [magnitude_zero]
    exact magnitude_nonneg q
  have hplace : (0 : ℚ) < 2 ^ lastPlace q := zpow_pos (by norm_num) _
  obtain hlt | heq := (lastPlace_mono hpos h).lt_or_eq
  · -- A power of two lies between them: the first of those with the places of `q`.
    have hbetween : roundHalfEven (|p| / 2 ^ lastPlace p) ≤ (2 ^ 53 : ℤ) :=
      roundHalfEven_le (by exact_mod_cast lastPlace_bound p)
    have hlog : lastPlace q = Int.log 2 |q| - 52 := by
      have hp' : -1074 ≤ lastPlace p := le_max_right _ _
      have hq : lastPlace q = Int.log 2 |q| - 52 ∨ lastPlace q = -1074 := by
        unfold lastPlace
        omega
      omega
    have hqpos : 0 < |q| := abs_pos.mpr (hpos.trans_le h).ne'
    have hpower : (2 ^ 52 : ℤ) * (2 : ℚ) ^ lastPlace q = (2 : ℚ) ^ (52 + lastPlace q) := by
      rw [zpow_add₀ (by norm_num)]
      norm_num
    have hreach : ((2 ^ 52 : ℤ) : ℚ) ≤ |q| / 2 ^ lastPlace q := by
      have hle : 52 + lastPlace q ≤ Int.log 2 |q| := by omega
      rw [le_div_iff₀ hplace, hpower]
      exact (Int.zpow_le_iff_le_log (by norm_num) hqpos).mpr hle
    have hround := roundHalfEven_mono hreach
    rw [roundHalfEven_intCast] at hround
    calc magnitude p ≤ (2 ^ 53 : ℤ) * (2 : ℚ) ^ lastPlace p :=
          mul_le_mul_of_nonneg_right (by exact_mod_cast hbetween) (zpow_pos (by norm_num) _).le
      _ = (2 : ℚ) ^ (53 + lastPlace p) := by
          rw [zpow_add₀ (by norm_num)]
          norm_num
      _ ≤ (2 : ℚ) ^ (52 + lastPlace q) := zpow_le_zpow_right₀ (by norm_num) (by omega)
      _ = (2 ^ 52 : ℤ) * (2 : ℚ) ^ lastPlace q := hpower.symm
      _ ≤ magnitude q := mul_le_mul_of_nonneg_right (by exact_mod_cast hround) hplace.le
  · rw [magnitude, magnitude, heq]
    refine mul_le_mul_of_nonneg_right ?_ hplace.le
    have hround : roundHalfEven (|p| / 2 ^ lastPlace q) ≤ roundHalfEven (|q| / 2 ^ lastPlace q) := by
      refine roundHalfEven_mono (div_le_div_of_nonneg_right ?_ hplace.le)
      rwa [abs_of_nonneg hp, abs_of_nonneg (hp.trans h)]
    exact_mod_cast hround

theorem round_of_nonneg {q : ℚ} (h : 0 ≤ q) :
    round q = if 2 ^ 1024 ≤ magnitude q then .inf false else .fin (magnitude q) := by
  have hlarge : ¬(2 : ℚ) ^ 1024 ≤ 0 := not_le.mpr (pow_pos (by norm_num) _)
  rw [round_eq]
  split
  · rename_i hzero
    rw [hzero, magnitude_zero, if_neg hlarge]
  · simp only [not_lt.mpr h, decide_false, if_false]
    split
    · rfl
    · split
      · rename_i htiny
        rw [htiny]
      · rfl

theorem magnitude_neg (q : ℚ) : magnitude (-q) = magnitude q := by
  simp only [magnitude, lastPlace, abs_neg]

theorem round_of_neg {q : ℚ} (h : q < 0) : round q =
    if 2 ^ 1024 ≤ magnitude q then .inf true
    else if magnitude q = 0 then .negZero else .fin (-magnitude q) := by
  rw [round_eq, if_neg h.ne]
  simp only [h, decide_true, if_true]

/-- **Rounding keeps the order**, infinities and zeros included. -/
theorem round_mono {p q : ℚ} (h : p ≤ q) : (round p).le (round q) = true := by
  have hfin {a b : ℚ} (hab : a ≤ b) : (fin a).le (fin b) = true := by
    rw [le_finite rfl rfl]
    exact decide_eq_true hab
  have hpos {a : ℚ} (ha : 0 ≤ a) : (fin 0).le (round a) = true := by
    rw [round_of_nonneg ha]
    split
    · rfl
    · exact hfin (magnitude_nonneg a)
  have hneg {a : ℚ} (ha : a < 0) : (round a).le (fin 0) = true := by
    rw [round_of_neg ha]
    split_ifs
    · rfl
    · rfl
    · exact hfin (by linarith [magnitude_nonneg a])
  obtain hp | hp := lt_or_ge p 0
  · obtain hq | hq := lt_or_ge q 0
    · have hmagnitude : magnitude q ≤ magnitude p := by
        rw [← magnitude_neg p, ← magnitude_neg q]
        exact magnitude_mono (by linarith) (by linarith)
      have hzero := magnitude_nonneg q
      rw [round_of_neg hp, round_of_neg hq]
      split_ifs with hlarge hlarge' htiny' htiny hlarge' htiny' hlarge' htiny'
      · rfl
      · rfl
      · rfl
      · exact absurd (hlarge'.trans hmagnitude) hlarge
      · rfl
      · exact absurd (le_antisymm (htiny ▸ hmagnitude) hzero) htiny'
      · exact absurd (hlarge'.trans hmagnitude) hlarge
      · exact (le_finite (y := .negZero) rfl rfl).trans (decide_eq_true (by linarith))
      · exact hfin (by linarith)
    · exact F64.le_trans (hneg hp) (hpos hq)
  · have hmagnitude := magnitude_mono hp h
    rw [round_of_nonneg hp, round_of_nonneg (hp.trans h)]
    split_ifs with hlarge hlarge' hlarge'
    · rfl
    · exact absurd (hlarge.trans hmagnitude) hlarge'
    · rfl
    · exact hfin hmagnitude

/-! ### Doubles beside a number -/

/-- What is not negative and a double is its own magnitude, and not too large. -/
theorem magnitude_of_isDouble {v : ℚ} (hv : IsDouble (.fin v)) (h : 0 ≤ v) :
    magnitude v = v ∧ v < 2 ^ 1024 := by
  have hround := hv v rfl
  rw [round_of_nonneg h] at hround
  split at hround
  · cases hround
  · rename_i hsmall
    have hmagnitude := fin.inj hround
    exact ⟨hmagnitude, hmagnitude ▸ not_le.mp hsmall⟩

theorem lt_of_lt_round {v d : ℚ} (hv : IsDouble (.fin v)) (hd : 0 ≤ d)
    (h : (fin v).lt (round d) = true) : v < d := by
  by_contra hle
  have hle : d ≤ v := not_lt.mp hle
  obtain ⟨hmagnitude, hsmall⟩ := magnitude_of_isDouble hv (hd.trans hle)
  have hmono := magnitude_mono hd hle
  rw [hmagnitude] at hmono
  rw [round_of_nonneg hd, if_neg (not_le.mpr (hmono.trans_lt hsmall)),
    lt_finite (x := .fin v) (y := .fin (magnitude d)) rfl rfl, decide_eq_true_eq] at h
  exact absurd h (not_lt.mpr hmono)

theorem lt_of_round_lt {v d : ℚ} (hv : IsDouble (.fin v)) (hd : 0 ≤ d)
    (h : (round d).lt (.fin v) = true) : d < v := by
  by_contra hle
  have hle : v ≤ d := not_lt.mp hle
  have hpos := magnitude_nonneg d
  rw [round_of_nonneg hd] at h
  split at h
  · cases h
  · rw [lt_finite (x := .fin (magnitude d)) (y := .fin v) rfl rfl, decide_eq_true_eq] at h
    obtain ⟨hmagnitude, -⟩ := magnitude_of_isDouble hv (hpos.trans h.le)
    have hmono := magnitude_mono (hpos.trans h.le) hle
    rw [hmagnitude] at hmono
    exact absurd h (not_lt.mpr hmono)

/-! ### The total order -/

/-- `totalOrder` of IEEE 754, of a positive NaN. -/
def totalLt : F64 → F64 → Bool
  | .nan, _ => false
  | _, .nan => true
  | .negZero, .negZero => false
  | .negZero, .fin q => 0 ≤ q
  | .fin p, .negZero => p < 0
  | x, y => x.lt y

def totalCmp (x y : F64) : Ordering :=
  if x.totalLt y then .lt else if y.totalLt x then .gt else .eq

/-- A double against a number, the number taken exactly; NaN against nothing. -/
def exactCmp (x : F64) (d : ℚ) : Option Ordering :=
  if x = .nan then none else if x.lt (.fin d) then some .lt
  else if (fin d).lt x then some .gt else some .eq

end Griot.F64
