import Griot.Data.Arithmetic
import Griot.Lib.Dict
import Mathlib.Data.Prod.Lex
import Mathlib.Data.String.Basic

/-! The privacy budget tracker.

One table of remaining epsilon per tenant and column, shared by everything that
debits. A debit is granted when the remaining amount covers it up to
`f64::EPSILON`; a refused one changes nothing. Enforcement is off by default,
and then every debit is granted and none is recorded. -/
namespace Griot.Budget

open Lib

/-- A tenant and a column. -/
abbrev Key := String × String

structure PrivacyBudgetTracker where
  enabled : Bool
  budgets : Dict Key F64

namespace PrivacyBudgetTracker

/-- Permissive mode. -/
def new : PrivacyBudgetTracker := ⟨false, .empty⟩

def withEnforcement (enforce : Bool) (initialBudgets : Dict Key F64) : PrivacyBudgetTracker :=
  ⟨enforce, initialBudgets⟩

/-- The recorded amount, `0.0` where none is. -/
def balance (t : PrivacyBudgetTracker) (key : Key) : F64 := (t.budgets.lookup key).getD (.fin 0)

/-- The tracker with another recorded amount. -/
def record (t : PrivacyBudgetTracker) (key : Key) (amount : F64) : PrivacyBudgetTracker :=
  {t with budgets := t.budgets.insert key amount}

theorem balance_record (t : PrivacyBudgetTracker) (key key' : Key) (amount : F64) :
    (t.record key amount).balance key' = if key' = key then amount else t.balance key' := by
  rw [balance, record, Dict.lookup_insert]
  split <;> rfl

/-- A debit: an error carries the remaining amount that did not cover it. -/
def consume (r : F64.Rounding) (t : PrivacyBudgetTracker) (tenantId column : String)
    (epsilon : F64) : Except F64 Unit × PrivacyBudgetTracker :=
  if !t.enabled then (.ok (), t)
  else
    let key := (tenantId, column)
    let remaining := t.balance key
    if remaining.lt (r.sub epsilon (.fin F64.epsilon)) then (.error remaining, t)
    else (.ok (), t.record key (r.sub remaining epsilon))

/-- Without enforcement there is no end to the budget. -/
def remaining (t : PrivacyBudgetTracker) (tenantId column : String) : F64 :=
  if !t.enabled then .inf false else t.balance (tenantId, column)

/-- What a debit does when enforcement is on: it is refused and changes nothing, or it is
covered up to the tolerance and taken off. -/
theorem consume_cases (r : F64.Rounding) {t : PrivacyBudgetTracker} (ht : t.enabled = true)
    (tenantId column : String) (epsilon : F64) :
    ((t.balance (tenantId, column)).lt (r.sub epsilon (.fin F64.epsilon)) = true ∧
      t.consume r tenantId column epsilon = (.error (t.balance (tenantId, column)), t)) ∨
    ((t.balance (tenantId, column)).lt (r.sub epsilon (.fin F64.epsilon)) = false ∧
      t.consume r tenantId column epsilon =
        (.ok (), t.record (tenantId, column) (r.sub (t.balance (tenantId, column)) epsilon))) := by
  rw [consume, ht]
  cases hlt : (t.balance (tenantId, column)).lt (r.sub epsilon (.fin F64.epsilon)) with
  | true => exact .inl ⟨rfl, by simp [hlt]⟩
  | false => exact .inr ⟨rfl, by simp [hlt]⟩

end PrivacyBudgetTracker
end Griot.Budget
