import Mathlib.Data.List.Basic

/-! Tables held by column, read by row.

Row `i` takes cell `i` of every column. Selecting rows — filtering, slicing — is
gathering the same positions from every column (`rows_gather`); changing cells
column by column changes every row alike (`rows_zipWith`); choosing columns
chooses the same places of every row (`rows_select`). -/
namespace Griot.Lib

variable {α : Type} [Inhabited α]

def cell (column : List α) (i : Nat) : α := column.getD i default

def row (columns : List (List α)) (i : Nat) : List α := columns.map (cell · i)

def rowsOf (n : Nat) (columns : List (List α)) : List (List α) := (List.range n).map (row columns)

/-- The cells at the given positions. -/
def gather (positions : List Nat) (column : List α) : List α := positions.map (cell column)

@[simp] theorem length_gather (positions : List Nat) (column : List α) :
    (gather positions column).length = positions.length := by
  simp [gather]

theorem mem_gather {positions : List Nat} {column : List α} {x : α}
    (hin : ∀ i ∈ positions, i < column.length) (h : x ∈ gather positions column) : x ∈ column := by
  obtain ⟨i, hi, rfl⟩ := List.mem_map.mp h
  simp [cell, hin i hi]

theorem rows_gather (positions : List Nat) (columns : List (List α)) :
    rowsOf positions.length (columns.map (gather positions)) = positions.map (row columns) := by
  apply List.ext_getElem (by simp [rowsOf])
  intro j hj hj'
  simp only [rowsOf, List.getElem_map, List.getElem_range, row, List.map_map]
  apply List.map_congr_left
  intro column _
  simp only [List.length_map] at hj'
  simp [cell, gather, hj']

/-- Gathering the positions whose rows satisfy `p` filters the rows. -/
theorem rows_filter (n : Nat) (columns : List (List α)) (p : List α → Bool) :
    ((List.range n).filter fun i => p (row columns i)).map (row columns) =
      (rowsOf n columns).filter p := by
  rw [rowsOf, List.filter_map]
  rfl

/-- Gathering the first positions takes the first rows. -/
theorem rows_take (n k : Nat) (columns : List (List α)) :
    ((List.range n).take k).map (row columns) = (rowsOf n columns).take k := by
  rw [rowsOf, List.map_take]

theorem row_zipWith {β : Type} (f : β → α → α) (marks : List β) (columns : List (List α)) (i : Nat)
    (hlen : ∀ c ∈ columns, i < c.length) :
    row (List.zipWith (fun m c => c.map (f m)) marks columns) i =
      List.zipWith f marks (row columns i) := by
  induction columns generalizing marks with
  | nil => simp [row]
  | cons c columns ih =>
    cases marks with
    | nil => rfl
    | cons m marks =>
      have hi : i < c.length := hlen c (List.mem_cons_self ..)
      have htail := ih marks fun c hc => hlen c (List.mem_cons_of_mem _ hc)
      simp only [row] at htail
      simp only [row, List.zipWith_cons_cons, List.map_cons, htail]
      simp [cell, hi]

omit [Inhabited α] in
theorem length_of_mem_zipWith {β : Type} {f : β → α → α} {marks : List β} {n : Nat}
    {columns : List (List α)} (hlen : ∀ c ∈ columns, c.length = n) {c : List α}
    (h : c ∈ List.zipWith (fun m c => c.map (f m)) marks columns) : c.length = n := by
  obtain ⟨i, hi, rfl⟩ := List.getElem_of_mem h
  rw [List.getElem_zipWith, List.length_map]
  exact hlen _ (List.getElem_mem _)

theorem rows_zipWith {β : Type} (f : β → α → α) (marks : List β) (n : Nat)
    (columns : List (List α)) (hlen : ∀ c ∈ columns, c.length = n) :
    rowsOf n (List.zipWith (fun m c => c.map (f m)) marks columns) =
      (rowsOf n columns).map (List.zipWith f marks) := by
  simp only [rowsOf, List.map_map]
  apply List.map_congr_left
  intro i hi
  exact row_zipWith f marks columns i fun c hc => by rw [hlen c hc]; exact List.mem_range.mp hi

/-- The places `indices` of a row; a place out of range is dropped. -/
def select {γ : Type} (indices : List Nat) (row : List γ) : List γ :=
  indices.filterMap (row[·]?)

theorem map_select {γ δ : Type} (f : γ → δ) (indices : List Nat) (row : List γ) :
    (select indices row).map f = select indices (row.map f) := by
  simp only [select, List.map_filterMap, List.getElem?_map]

theorem rows_select (indices : List Nat) (n : Nat) (columns : List (List α)) :
    rowsOf n (select indices columns) = (rowsOf n columns).map (select indices) := by
  simp only [rowsOf, List.map_map]
  apply List.map_congr_left
  intro i _
  exact map_select (cell · i) indices columns

end Griot.Lib
