import Mathlib.Data.List.Basic
import Mathlib.Data.Set.Function

/-! Joins on keys that may be missing.

Two rows join when both have a key and the keys are equal: a missing key joins nothing. What is
done to rows and keys joins the same rows, in the same order, as long as it keeps the keys apart
(`join_map`). -/
namespace Griot.Lib
variable {α β κ κ' : Type}

def Joins (k k' : Option κ) : Prop := k.isSome ∧ k = k'

instance [DecidableEq κ] (k k' : Option κ) : Decidable (Joins k k') :=
  inferInstanceAs (Decidable (k.isSome ∧ k = k'))

/-- The nested loops, the left rows outside. -/
def join [DecidableEq κ] (key : α → Option κ) (key' : β → Option κ) (rows : List α) (rows' : List β) :
    List (α × β) :=
  rows.flatMap fun a => (rows'.filter fun b => decide (Joins (key a) (key' b))).map fun b => (a, b)

/-- Relabelled apart, keys join as before. -/
theorem joins_map {f : κ → κ'} {used : Set κ} (hf : used.InjOn f) {k k' : Option κ}
    (hk : ∀ x ∈ k, x ∈ used) (hk' : ∀ x ∈ k', x ∈ used) :
    Joins (k.map f) (k'.map f) ↔ Joins k k' := by
  cases k with
  | none => simp [Joins]
  | some x =>
    cases k' with
    | none => simp [Joins]
    | some y =>
      have hiff := hf.eq_iff (hk x rfl) (hk' y rfl)
      simp [Joins, hiff]

/-- **Rows that are changed together with their keys** join as before. -/
theorem join_map {α' β' : Type} [DecidableEq κ] [DecidableEq κ'] {key : α → Option κ}
    {key' : β → Option κ} {newKey : α' → Option κ'} {newKey' : β' → Option κ'} {f : κ → κ'}
    {used : Set κ} (hf : used.InjOn f) {g : α → α'} {g' : β → β'} {rows : List α} {rows' : List β}
    (hkey : ∀ a ∈ rows, newKey (g a) = (key a).map f ∧ ∀ x ∈ key a, x ∈ used)
    (hkey' : ∀ b ∈ rows', newKey' (g' b) = (key' b).map f ∧ ∀ x ∈ key' b, x ∈ used) :
    join newKey newKey' (rows.map g) (rows'.map g') =
      (join key key' rows rows').map (Prod.map g g') := by
  rw [join, join, List.flatMap_map, List.map_flatMap]
  refine List.flatMap_congr fun a ha => ?_
  obtain ⟨hnew, hused⟩ := hkey a ha
  have hfilter : ((rows'.map g').filter fun b => decide (Joins (newKey (g a)) (newKey' b))) =
      (rows'.filter fun b => decide (Joins (key a) (key' b))).map g' := by
    rw [List.filter_map]
    refine congrArg _ (List.filter_congr fun b hb => ?_)
    obtain ⟨hnew', hused'⟩ := hkey' b hb
    exact decide_eq_decide.mpr (by rw [hnew, hnew', joins_map hf hused hused'])
  rw [hfilter, List.map_map, List.map_map]
  rfl

end Griot.Lib
