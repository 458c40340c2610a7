import Griot.Budget.Tracker
import Griot.Lib.Ledger
import Mathlib.Tactic.Linarith
import Mathlib.Tactic.Ring

/-! The tracker keeps accounts.

Amounts are taken off exactly here. A tracker mirrors a log of debits when every
recorded amount is the seed less what the log takes. A debit is granted exactly when it is
affordable, and keeps the mirror (`Mirrors.consume`), so the log of granted debits is
sound: no key is overspent by more than one `f64::EPSILON` (`Mirrors.spent_le`). -/
namespace Griot.Budget

open Lib

variable {α : Type} (key : α → Key) (amount : α → ℚ)

/-- What the seeds allow a key; an infinite seed is no limit. -/
def allowance (seeds : Dict Key F64) (k : Key) : Option ℚ :=
  ((seeds.lookup k).getD (.fin 0)).toRat?

/-- No seeded amount is negative. -/
def NonNegative (seeds : Dict Key F64) : Prop :=
  ∀ k x, seeds.lookup k = some x → (F64.fin 0).le x = true

theorem NonNegative.cases {seeds : Dict Key F64} (h : NonNegative seeds) (k : Key) :
    (∃ q, allowance seeds k = some q ∧ 0 ≤ q) ∨
      (allowance seeds k = none ∧ (seeds.lookup k).getD (.fin 0) = .inf false) := by
  have hseed : (F64.fin 0).le ((seeds.lookup k).getD (.fin 0)) = true := by
    cases hk : seeds.lookup k with
    | none => rfl
    | some x => exact h k x hk
  rcases F64.nonneg_cases hseed with hq | hinf
  · exact .inl hq
  · exact .inr ⟨by rw [allowance, hinf]; rfl, hinf⟩

theorem NonNegative.allowance_nonneg {seeds : Dict Key F64} (h : NonNegative seeds) (k : Key)
    (q : ℚ) (hq : allowance seeds k = some q) : 0 ≤ q := by
  rcases h.cases k with ⟨q', hq', hnonneg⟩ | ⟨hnone, -⟩
  · obtain rfl : q = q' := Option.some.inj (hq.symm.trans hq')
    exact hnonneg
  · exact absurd (hq.symm.trans hnone) (by simp)

/-- An enforcing tracker that records the seeds less the debits of a log, all of which
were affordable. -/
structure Mirrors (seeds : Dict Key F64) (t : PrivacyBudgetTracker) (log : List α) : Prop where
  enabled : t.enabled = true
  limited : ∀ k q, allowance seeds k = some q →
    (t.balance k).toRat? = some (q - spent key amount k log)
  unlimited : ∀ k, allowance seeds k = none → t.balance k = .inf false
  sound : Sound key amount F64.epsilon (allowance seeds) log

variable {key amount}

theorem Mirrors.start {seeds : Dict Key F64} (h : NonNegative seeds) :
    Mirrors key amount seeds (.withEnforcement true seeds) ([] : List α) where
  enabled := rfl
  limited := fun k q hq => by
    rw [spent_nil, sub_zero]
    exact hq
  unlimited := fun k hk => by
    rcases h.cases k with ⟨q, hq, -⟩ | ⟨-, hinf⟩
    · exact absurd (hk.symm.trans hq) (by simp)
    · exact hinf
  sound := trivial

/-- The account of a key no debit names is the same after the debit. -/
theorem spent_cons_of_ne {k : Key} {a : α} (h : k ≠ key a) (log : List α) :
    spent key amount k (a :: log) = spent key amount k log := by
  rw [spent_cons, if_neg (Ne.symm h)]

/-- **A debit is granted when it is affordable**: otherwise it changes nothing. -/
theorem Mirrors.consume {seeds : Dict Key F64} {t : PrivacyBudgetTracker} {log : List α}
    (h : Mirrors key amount seeds t log) (tenantId column : String) {epsilon : F64} {a : α}
    (hkey : key a = (tenantId, column)) (hamount : epsilon.toRat? = some (amount a)) :
    (∃ remaining, t.consume .exact tenantId column epsilon = (.error remaining, t)) ∨
    ∃ t', t.consume .exact tenantId column epsilon = (.ok (), t') ∧
      Mirrors key amount seeds t' (a :: log) ∧ ∀ k, k ≠ key a → t'.balance k = t.balance k := by
  rcases t.consume_cases .exact h.enabled tenantId column epsilon with ⟨-, hrefused⟩ | ⟨hcovered, hgranted⟩
  · exact .inl ⟨_, hrefused⟩
  refine .inr ⟨_, hgranted, ?_, ?_⟩
  · rw [← hkey] at hcovered ⊢
    have hslack := F64.Rounding.exact_sub hamount (y := .fin F64.epsilon) rfl
    refine ⟨h.enabled, fun k q hq => ?_, fun k hk => ?_, fun q hq => ?_, h.sound⟩
    · rw [PrivacyBudgetTracker.balance_record]
      split
      · rename_i heq
        subst heq
        rw [spent_cons, if_pos rfl, F64.Rounding.exact_sub (h.limited _ q hq) hamount]
        congr 1
        ring
      · rename_i hne
        rw [spent_cons_of_ne hne, h.limited k q hq]
    · rw [PrivacyBudgetTracker.balance_record]
      split
      · rename_i heq
        subst heq
        rw [h.unlimited _ hk, F64.Rounding.inf_sub _ _ hamount]
      · exact h.unlimited k hk
    · rw [F64.lt_finite (h.limited _ q hq) hslack, decide_eq_false_iff_not, not_lt] at hcovered
      linarith
  · intro k hk
    rw [PrivacyBudgetTracker.balance_record, if_neg (hkey ▸ hk)]

/-- **No key is overspent** by more than one tolerance. -/
theorem Mirrors.spent_le {seeds : Dict Key F64} (hseeds : NonNegative seeds)
    {t : PrivacyBudgetTracker} {log : List α} (h : Mirrors key amount seeds t log) (k : Key) :
    (F64.fin (spent key amount k log)).le
      (F64.Rounding.exact.add ((seeds.lookup k).getD (.fin 0)) (.fin F64.epsilon)) = true := by
  rcases hseeds.cases k with ⟨q, hq, -⟩ | ⟨-, hinf⟩
  · rw [F64.le_finite rfl (F64.Rounding.exact_add hq rfl), decide_eq_true_eq]
    exact h.sound.spent_le F64.epsilon_pos.le hseeds.allowance_nonneg hq
  · rw [hinf, F64.Rounding.inf_add _ _ (q := F64.epsilon) rfl]
    exact F64.le_inf (by simp)

/-- The remaining amount never falls below the tolerance. -/
theorem Mirrors.remaining_ge {seeds : Dict Key F64} (hseeds : NonNegative seeds)
    {t : PrivacyBudgetTracker} {log : List α} (h : Mirrors key amount seeds t log)
    (tenantId column : String) :
    (F64.fin (-F64.epsilon)).le (t.remaining tenantId column) = true := by
  have hremaining : t.remaining tenantId column = t.balance (tenantId, column) := by
    rw [PrivacyBudgetTracker.remaining, h.enabled]
    rfl
  rw [hremaining]
  rcases hseeds.cases (tenantId, column) with ⟨q, hq, -⟩ | ⟨hnone, -⟩
  · have hspent := h.sound.spent_le F64.epsilon_pos.le hseeds.allowance_nonneg hq
    rw [F64.le_finite rfl (h.limited _ q hq), decide_eq_true_eq]
    linarith
  · rw [h.unlimited _ hnone]
    exact F64.le_inf (by simp)

end Griot.Budget
