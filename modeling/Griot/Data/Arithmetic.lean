import Griot.Data.Rounding
import Mathlib.Logic.Function.Iterate

/-! Arithmetic on doubles.

The special values follow IEEE 754. What else a sum, a product or a quotient comes to is
rounded once, in a way that is a parameter: a `Rounding` keeps the order of what it rounds, the
doubles, and what it has rounded (`Rounding.nearest` rounds as the machine does,
`Rounding.exact` not at all). That much is enough to know that what a subtraction has moved never
comes back by the same subtraction (`Rounding.sub_iterate_eq_iff`). -/
namespace Griot.F64

/-- How the results of arithmetic are rounded. -/
structure Rounding where
  round : ℚ → F64
  mono : ∀ {p q : ℚ}, p ≤ q → (round p).le (round q) = true
  keeps : ∀ {q : ℚ}, IsDouble (.fin q) → round q = .fin q
  stable : ∀ {p q : ℚ}, round p = .fin q → round q = .fin q

namespace Rounding
variable (r : Rounding)

def add : F64 → F64 → F64
  | .nan, _ => .nan
  | _, .nan => .nan
  | .inf s, .inf t => if s = t then .inf s else .nan
  | .inf s, _ => .inf s
  | _, .inf t => .inf t
  | .negZero, .negZero => .negZero
  | x, y => r.round (x.toRat?.getD 0 + y.toRat?.getD 0)

def sub (x y : F64) : F64 := r.add x y.neg

def mul (x y : F64) : F64 :=
  let sign := x.negative != y.negative
  match x, y with
  | .nan, _ => .nan
  | _, .nan => .nan
  | .inf _, .inf _ => .inf sign
  | .inf _, y => if y.toRat? = some 0 then .nan else .inf sign
  | x, .inf _ => if x.toRat? = some 0 then .nan else .inf sign
  | x, y =>
    let product := x.toRat?.getD 0 * y.toRat?.getD 0
    if product = 0 then zero sign else r.round product

def div (x y : F64) : F64 :=
  let sign := x.negative != y.negative
  match x, y with
  | .nan, _ => .nan
  | _, .nan => .nan
  | .inf _, .inf _ => .nan
  | .inf _, _ => .inf sign
  | _, .inf _ => zero sign
  | x, y =>
    let dividend := x.toRat?.getD 0
    let divisor := y.toRat?.getD 0
    if divisor = 0 then (if dividend = 0 then .nan else .inf sign)
    else if dividend = 0 then zero sign
    else r.round (dividend / divisor)

/-! ### Without rounding, and to the nearest double -/

/-- Arithmetic without rounding. -/
def exact : Rounding where
  round := .fin
  mono h := by rw [le_finite (x := .fin _) (y := .fin _) rfl rfl]; exact decide_eq_true h
  keeps _ := rfl
  stable _ := rfl

/-- The rounding of IEEE 754. -/
def nearest : Rounding where
  round := F64.round
  mono := round_mono
  keeps h := h _ rfl
  stable h := (round_isDouble _ _ h).trans h

theorem exact_add {x y : F64} {p q : ℚ} (hx : x.toRat? = some p) (hy : y.toRat? = some q) :
    (exact.add x y).toRat? = some (p + q) := by
  cases x <;> cases y <;> simp_all [toRat?, add, exact]

theorem exact_sub {x y : F64} {p q : ℚ} (hx : x.toRat? = some p) (hy : y.toRat? = some q) :
    (exact.sub x y).toRat? = some (p - q) := by
  rw [sub_eq_add_neg]
  exact exact_add hx (neg_finite hy)

/-- To take off something positive raises nothing. -/
theorem lt_exact_sub {x z : F64} {q : ℚ} (hq : 0 < q) (h : x.lt z = false) :
    x.lt (exact.sub z (.fin q)) = false := by
  cases hz : z.toRat? with
  | some p =>
    have hsub := exact_sub hz (y := .fin q) rfl
    cases hx : x.toRat? with
    | some p' =>
      rw [lt_finite hx hz, decide_eq_false_iff_not, not_lt] at h
      rw [lt_finite hx hsub, decide_eq_false_iff_not, not_lt]
      linarith
    | none => rwa [lt_of_not_finite hx hsub hz]
  | none =>
    have hsame : exact.sub z (.fin q) = z := by
      cases z <;> simp_all [toRat?, sub, neg, add, hq.ne']
    rwa [hsame]

/-! ### Subtracting over and over -/

/-- Infinity stays infinite. -/
theorem inf_add (s : Bool) {y : F64} {q : ℚ} (hy : y.toRat? = some q) :
    r.add (.inf s) y = .inf s := by
  cases y <;> simp_all [toRat?, add]

theorem inf_sub (s : Bool) {y : F64} {q : ℚ} (hy : y.toRat? = some q) :
    r.sub (.inf s) y = .inf s :=
  r.inf_add s (neg_finite hy)

/-- A difference is the rounded one, but for the zero that keeps its sign. -/
theorem sub_cases {x y : F64} {p q : ℚ} (hx : x.toRat? = some p) (hy : y.toRat? = some q) :
    r.sub x y = r.round (p - q) ∨ x = .negZero ∧ y = .fin 0 ∧ r.sub x y = .negZero := by
  cases y with
  | fin q' =>
    obtain rfl : q' = q := by simpa [toRat?] using hy
    by_cases hzero : q' = 0
    · subst hzero
      cases x <;> simp_all [toRat?, sub, neg, add]
    · cases x <;> simp_all [toRat?, sub, neg, add, sub_eq_add_neg]
  | negZero =>
    obtain rfl : 0 = q := by simpa [toRat?] using hy
    obtain rfl : p = x.toRat?.getD 0 := by simp [hx]
    cases x <;> simp_all [toRat?, sub, neg, add]
  | inf s => exact absurd hy (by simp [toRat?])
  | nan => exact absurd hy (by simp [toRat?])

/-- A difference stands where the rounded one does. -/
theorem sub_alike {x y : F64} {p q : ℚ} (hx : x.toRat? = some p) (hy : y.toRat? = some q) :
    (r.sub x y).le (r.round (p - q)) = true ∧ (r.round (p - q)).le (r.sub x y) = true := by
  obtain heq | ⟨rfl, rfl, heq⟩ := r.sub_cases hx hy
  · rw [heq]
    exact ⟨r.mono le_rfl, r.mono le_rfl⟩
  · obtain rfl : 0 = p := by simpa [toRat?] using hx
    obtain rfl : 0 = q := by simpa [toRat?] using hy
    rw [heq, sub_zero, r.keeps (fun q hq => by rw [← fin.inj hq]; rfl)]
    exact ⟨rfl, rfl⟩

theorem round_ne_nan (q : ℚ) : r.round q ≠ .nan := by
  intro hnan
  have hle := r.mono (le_refl q)
  rw [hnan] at hle
  cases hle

theorem sub_ne_nan {x y : F64} {q : ℚ} (hx : x ≠ .nan) (hy : y.toRat? = some q) :
    r.sub x y ≠ .nan := by
  cases hfinite : x.toRat? with
  | some p =>
    obtain heq | ⟨-, -, heq⟩ := r.sub_cases hfinite hy
    · rw [heq]
      exact r.round_ne_nan _
    · simp [heq]
  | none =>
    obtain ⟨s, rfl⟩ := (not_finite_cases hfinite).resolve_left hx
    simp [r.inf_sub s hy]

/-- Subtracting the same keeps the order. -/
theorem sub_mono {x y z : F64} {q : ℚ} (hy : y.toRat? = some q) (h : x.le z = true) :
    (r.sub x y).le (r.sub z y) = true := by
  obtain ⟨p, p', hx, hz, hle⟩ | ⟨rfl, hz⟩ | ⟨rfl, hx⟩ := le_cases h
  · have hround := r.mono (sub_le_sub_right hle q)
    exact F64.le_trans (F64.le_trans (r.sub_alike hx hy).1 hround) (r.sub_alike hz hy).2
  · rw [r.inf_sub true hy]
    exact inf_le (r.sub_ne_nan hz hy)
  · rw [r.inf_sub false hy]
    exact le_inf (r.sub_ne_nan hx hy)

/-- A difference that stands where the first number does is not moved any more. -/
theorem sub_sub_of_alike {x y : F64} {p q : ℚ} (hx : x.toRat? = some p) (hy : y.toRat? = some q)
    (hle : (r.sub x y).le x = true) (hge : x.le (r.sub x y) = true) :
    r.sub (r.sub x y) y = r.sub x y := by
  obtain heq | ⟨rfl, rfl, heq⟩ := r.sub_cases hx hy
  · have hvalue := toRat_of_alike hx hle hge
    obtain heq' | ⟨hnegative, -, heq'⟩ := r.sub_cases hvalue hy
    · rw [heq', heq]
    · rw [heq', hnegative]
  · rw [heq, heq]

/-- What is not finite subtracts once and for all. -/
theorem sub_sub_of_not_finite (x : F64) {y : F64} (hy : y.toRat? = none) :
    r.sub (r.sub x y) y = r.sub x y := by
  cases y with
  | fin q => cases hy
  | negZero => cases hy
  | nan => cases x <;> rfl
  | inf s =>
    cases x with
    | inf t => cases s <;> cases t <;> rfl
    | _ => cases s <;> rfl

/-- **What a subtraction has moved never comes back by the same subtraction**: the values it can
take from then on avoid the first one. Rounded or not, subtracting keeps the order, so that what
has gone down stays below, and what has gone up above. -/
theorem sub_never_returns {x y : F64} (h : r.sub x y ≠ x) :
    ∃ S : F64 → Prop, S (r.sub x y) ∧ (∀ z, S z → S (r.sub z y)) ∧ ¬ S x := by
  cases hy : y.toRat? with
  | none =>
    refine ⟨fun z => z = r.sub x y, rfl, ?_, Ne.symm h⟩
    rintro z rfl
    exact r.sub_sub_of_not_finite x hy
  | some q =>
    cases hx : x.toRat? with
    | none =>
      obtain rfl | ⟨s, rfl⟩ := not_finite_cases hx
      · exact absurd rfl h
      · exact absurd (r.inf_sub s hy) h
    | some p =>
      obtain hdown | hup | ⟨hle, hge⟩ := 
        lt_or_gt_or_alike (r.sub_ne_nan (ne_nan_of_finite hx) hy) (ne_nan_of_finite hx)
      · refine ⟨fun z => z.lt x = true, hdown, ?_, by simp [F64.lt_irrefl]⟩
        intro z hz
        exact F64.lt_of_le_of_lt (r.sub_mono hy (F64.le_of_lt hz)) hdown
      · refine ⟨fun z => x.lt z = true, hup, ?_, by simp [F64.lt_irrefl]⟩
        intro z hz
        exact F64.lt_of_lt_of_le hup (r.sub_mono hy (F64.le_of_lt hz))
      · refine ⟨fun z => z = r.sub x y, rfl, ?_, Ne.symm h⟩
        rintro z rfl
        exact r.sub_sub_of_alike hx hy hle hge

/-- Subtracting over and over comes back only where subtracting once changes nothing. -/
theorem sub_iterate_eq_iff (x y : F64) (n : Nat) :
    (fun z => r.sub z y)^[n + 1] x = x ↔ r.sub x y = x := by
  constructor
  · intro hreturns
    by_contra hmoved
    obtain ⟨S, hfirst, hclosed, hnot⟩ := r.sub_never_returns hmoved
    have hall : ∀ m z, S z → S ((fun z => r.sub z y)^[m] z) := by
      intro m
      induction m with
      | zero => exact fun _ hz => hz
      | succ m ih => exact fun z hz => ih (r.sub z y) (hclosed z hz)
    rw [Function.iterate_succ_apply] at hreturns
    have hend := hall n (r.sub x y) hfirst
    rw [hreturns] at hend
    exact hnot hend
  · exact fun hfixed => Function.iterate_fixed hfixed (n + 1)

/-- What is not finite is not rounded. -/
theorem sub_eq_exact {x y : F64} (h : x.toRat? = none ∨ y.toRat? = none) :
    r.sub x y = exact.sub x y := by
  cases y with
  | fin q =>
    rw [sub, sub, neg]
    split <;> cases x <;> simp_all [toRat?, add]
  | _ => cases x <;> simp_all [toRat?, sub, neg, add]

/-- A subtraction that ends in the exact difference of other numbers has an exact start. -/
theorem sub_eq_exact_of_eq {x y z : F64} (h : r.sub z y = exact.sub x y) :
    r.sub x y = exact.sub x y := by
  cases hx : x.toRat? with
  | none => exact r.sub_eq_exact (.inl hx)
  | some p =>
    cases hy : y.toRat? with
    | none => exact r.sub_eq_exact (.inr hy)
    | some q =>
      obtain hexact | ⟨rfl, rfl, -⟩ := exact.sub_cases hx hy
      · -- The last difference is the exact one, so that one is not rounded.
        change exact.sub x y = .fin (p - q) at hexact
        rw [hexact] at h
        have hround : r.round (p - q) = .fin (p - q) := by
          cases hz : z.toRat? with
          | some a =>
            obtain heq | ⟨-, -, heq⟩ := r.sub_cases hz hy
            · exact r.stable (heq.symm.trans h)
            · cases heq.symm.trans h
          | none =>
            obtain rfl | ⟨s, rfl⟩ := not_finite_cases hz
            · cases h
            · rw [r.inf_sub s hy] at h
              cases h
        obtain heq | ⟨rfl, rfl, -⟩ := r.sub_cases hx hy
        · rw [heq, hround, hexact]
        · cases hexact
      · rfl

/-- Subtractions that come to the exact difference: the first one does, and the others change
nothing. -/
theorem sub_iterate_eq_exact_iff (x y : F64) (n : Nat) :
    (fun z => r.sub z y)^[n + 1] x = exact.sub x y ↔
      r.sub x y = exact.sub x y ∧ (n = 0 ∨ r.sub (r.sub x y) y = r.sub x y) := by
  constructor
  · intro h
    have hfirst : r.sub x y = exact.sub x y := by
      rw [Function.iterate_succ_apply'] at h
      exact r.sub_eq_exact_of_eq h
    refine ⟨hfirst, ?_⟩
    cases n with
    | zero => exact .inl rfl
    | succ n =>
      rw [Function.iterate_succ_apply, ← hfirst, r.sub_iterate_eq_iff] at h
      exact .inr h
  · intro ⟨hfirst, hrest⟩
    rw [Function.iterate_succ_apply, ← hfirst]
    obtain rfl | hfixed := hrest
    · rfl
    · exact Function.iterate_fixed hfixed n

end Rounding
end Griot.F64
