import Mathlib.Algebra.BigOperators.Group.List.Basic
import Mathlib.Algebra.Order.Group.Defs
import Mathlib.Tactic.Abel

/-! Accounts debited up to a tolerance.

Every account has a seed or is unlimited (`none`). A debit is affordable when it is no
more than what is left and the tolerance. The tolerance is given afresh on every
debit, but what is left has then already fallen below zero by what was taken of
it, so it does not add up: a log in which every debit was affordable when it was
made spends at most the seed and one tolerance (`Sound.spent_le`). One account spends
what all of them do exactly when every debit is its own (`spent_eq_sum_iff`). -/
namespace Griot.Lib

variable {α κ K : Type*} [DecidableEq κ] [AddCommGroup K] [LinearOrder K] [IsOrderedAddMonoid K]
variable (key : α → κ) (amount : α → K)

/-- What a log takes from an account. The newest debit comes first. -/
def spent (k : κ) : List α → K
  | [] => 0
  | a :: log => if key a = k then amount a + spent k log else spent k log

omit [LinearOrder K] [IsOrderedAddMonoid K] in
@[simp] theorem spent_nil (k : κ) : spent key amount k [] = 0 := rfl

omit [LinearOrder K] [IsOrderedAddMonoid K] in
theorem spent_cons (k : κ) (a : α) (log : List α) :
    spent key amount k (a :: log) =
      if key a = k then amount a + spent key amount k log else spent key amount k log := rfl

omit [LinearOrder K] [IsOrderedAddMonoid K] in
theorem spent_eq_sum_filter (k : κ) (log : List α) :
    spent key amount k log = ((log.filter fun a => key a = k).map amount).sum := by
  induction log with
  | nil => rfl
  | cons a log ih =>
    rw [spent_cons, List.filter_cons]
    by_cases hk : key a = k
    · simp [hk, ih]
    · simp [hk, ih]

/-- The debit is covered by what the log leaves of its account, up to the slack. -/
def Affordable (slack : K) (seed : κ → Option K) (log : List α) (a : α) : Prop :=
  ∀ s, seed (key a) = some s → amount a ≤ s - spent key amount (key a) log + slack

/-- Every debit was affordable when it was made. -/
def Sound (slack : K) (seed : κ → Option K) : List α → Prop
  | [] => True
  | a :: log => Affordable key amount slack seed log a ∧ Sound slack seed log

/-! ### Of all the accounts, one -/

section Positive
variable {key amount} {log : List α}

theorem spent_le_sum (hpos : ∀ a ∈ log, 0 < amount a) (k : κ) :
    spent key amount k log ≤ (log.map amount).sum := by
  induction log with
  | nil => exact le_refl _
  | cons a log ih =>
    obtain ⟨ha, hlog⟩ := List.forall_mem_cons.mp hpos
    rw [spent_cons, List.map_cons, List.sum_cons]
    split
    · exact add_le_add_right (ih hlog) _
    · exact (ih hlog).trans (le_add_of_nonneg_left ha.le)

/-- One account spends the sum of a log exactly when the log has no other account's debits. -/
theorem spent_eq_sum_iff (hpos : ∀ a ∈ log, 0 < amount a) {k : κ} :
    spent key amount k log = (log.map amount).sum ↔ ∀ a ∈ log, key a = k := by
  induction log with
  | nil => simp
  | cons a log ih =>
    obtain ⟨ha, hlog⟩ := List.forall_mem_cons.mp hpos
    rw [spent_cons, List.map_cons, List.sum_cons, List.forall_mem_cons]
    split
    · rename_i hk
      rw [add_right_inj, ih hlog]
      exact (and_iff_right hk).symm
    · rename_i hk
      have hlt : spent key amount k log < amount a + (log.map amount).sum :=
        (spent_le_sum hlog k).trans_lt (lt_add_of_pos_left _ ha)
      exact iff_of_false hlt.ne fun h => hk h.1

end Positive

variable {key amount} {slack : K} {seed : κ → Option K}

/-- **The tolerance does not add up.** -/
theorem Sound.spent_le (hslack : 0 ≤ slack) (hseed : ∀ k s, seed k = some s → 0 ≤ s)
    {log : List α} (h : Sound key amount slack seed log) {k : κ} {s : K} (hs : seed k = some s) :
    spent key amount k log ≤ s + slack := by
  induction log with
  | nil => exact add_nonneg (hseed k s hs) hslack
  | cons a log ih =>
    rw [spent_cons]
    split
    · rename_i hk
      have hafford := h.1 s (by rw [hk, hs])
      rw [hk] at hafford
      calc amount a + spent key amount k log
          ≤ s - spent key amount k log + slack + spent key amount k log := by gcongr
        _ = s + slack := by abel
    · exact ih h.2

end Griot.Lib
