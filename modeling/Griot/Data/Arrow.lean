import Griot.Data.Number
import Griot.Lib.Columns
import Griot.Lib.Framing
import Griot.Lib.Streams
import Mathlib.Data.List.Forall2

/-! Arrow types, arrays and record batches.

An array cannot hold a value of another type, and a record batch cannot disagree
with its schema: both carry the proof. `RecordBatch.tryNew` is the only way the
operators build one. A type the operators do not tell apart is `other`, its
values the bytes they are stored as. -/
namespace Griot

open Lib

inductive DataType where
  | boolean
  | int64
  | float64
  | utf8
  | largeUtf8
  | other (name : String)
  deriving DecidableEq

namespace DataType

/-- The `{:?}` form. -/
def debug : DataType → String
  | boolean => "Boolean"
  | int64 => "Int64"
  | float64 => "Float64"
  | utf8 => "Utf8"
  | largeUtf8 => "LargeUtf8"
  | other name => name

end DataType

inductive Value where
  | null
  | boolean (b : Bool)
  | int64 (i : Int64)
  | float64 (x : F64)
  | utf8 (s : String)
  | other (raw : Bytes)
  deriving DecidableEq, Inhabited

namespace Value

/-- A null belongs to every type. -/
def hasType : Value → DataType → Bool
  | null, _ => true
  | boolean _, .boolean => true
  | int64 _, .int64 => true
  | float64 _, .float64 => true
  | utf8 _, .utf8 => true
  | utf8 _, .largeUtf8 => true
  | other _, .other _ => true
  | _, _ => false

def isNull : Value → Bool
  | null => true
  | _ => false

@[simp] theorem isNull_iff (v : Value) : v.isNull = true ↔ v = .null := by
  cases v <;> simp [isNull]

end Value

/-- A row: one value per column. -/
abbrev Row := List Value

structure Field where
  name : String
  dataType : DataType
  nullable : Bool
  deriving DecidableEq

abbrev Schema := List Field

structure ArrayRef where
  dataType : DataType
  cells : List Value
  typed : ∀ v ∈ cells, v.hasType dataType

/-- Change every cell, and with it the type. -/
def ArrayRef.map (a : ArrayRef) (dataType : DataType) (f : Value → Value)
    (h : ∀ v, v.hasType a.dataType → (f v).hasType dataType) : ArrayRef where
  dataType := dataType
  cells := a.cells.map f
  typed := fun v hv => by
    obtain ⟨w, hw, rfl⟩ := List.mem_map.mp hv
    exact h w (a.typed w hw)

/-- Change every cell, knowing its position. -/
def ArrayRef.mapIdx (a : ArrayRef) (dataType : DataType) (f : Nat → Value → Value)
    (h : ∀ i v, (f i v).hasType dataType) : ArrayRef where
  dataType := dataType
  cells := a.cells.mapIdx f
  typed := fun v hv => by
    obtain ⟨i, hi, rfl⟩ := List.mem_mapIdx.mp hv
    exact h i _

/-- The cells at some positions of the array. -/
def ArrayRef.take (a : ArrayRef) (positions : List Nat)
    (h : ∀ i ∈ positions, i < a.cells.length) : ArrayRef where
  dataType := a.dataType
  cells := gather positions a.cells
  typed := fun v hv => a.typed v (mem_gather h hv)

/-- A column of `numRows` cells that a field admits. -/
structure Admits (numRows : Nat) (field : Field) (column : ArrayRef) : Prop where
  length_eq : column.cells.length = numRows
  no_nulls : field.nullable = false → .null ∉ column.cells
  type_eq : column.dataType = field.dataType

instance (numRows : Nat) (field : Field) (column : ArrayRef) :
    Decidable (Admits numRows field column) :=
  decidable_of_iff (column.cells.length = numRows ∧
      (field.nullable = false → .null ∉ column.cells) ∧ column.dataType = field.dataType)
    ⟨fun ⟨h₁, h₂, h₃⟩ => ⟨h₁, h₂, h₃⟩, fun ⟨h₁, h₂, h₃⟩ => ⟨h₁, h₂, h₃⟩⟩

structure RecordBatch where
  schema : Schema
  columns : List ArrayRef
  numRows : Nat
  fits : List.Forall₂ (Admits numRows) schema columns

namespace RecordBatch

theorem forall₂_iff (numRows : Nat) (schema : Schema) (columns : List ArrayRef) :
    List.Forall₂ (Admits numRows) schema columns ↔
      schema.length = columns.length ∧ ∀ p ∈ schema.zip columns, Admits numRows p.1 p.2 := by
  rw [List.forall₂_iff_zip]
  simp

instance (numRows : Nat) (schema : Schema) (columns : List ArrayRef) :
    Decidable (List.Forall₂ (Admits numRows) schema columns) :=
  decidable_of_iff _ (forall₂_iff numRows schema columns).symm

/-- `RecordBatch::try_new`: the first column gives the number of rows, so there
must be one; every column must fit its field. -/
def tryNew (schema : Schema) (columns : List ArrayRef) : Except String RecordBatch :=
  match columns with
  | [] => .error "must either specify a row count or at least one column"
  | first :: _ =>
    if h : List.Forall₂ (Admits first.cells.length) schema columns then
      .ok ⟨schema, columns, first.cells.length, h⟩
    else .error "columns do not fit the schema"

/-- A batch that is built has the schema and the columns it was built from. -/
theorem tryNew_ok {schema : Schema} {columns : List ArrayRef} {b : RecordBatch}
    (h : tryNew schema columns = .ok b) : b.schema = schema ∧ b.columns = columns := by
  cases columns with
  | nil => exact absurd h (by simp [tryNew])
  | cons first rest =>
    simp only [tryNew] at h
    split at h
    · obtain rfl := Except.ok.inj h
      exact ⟨rfl, rfl⟩
    · exact absurd h (by simp)

/-- A batch that is built has a column. -/
theorem tryNew_columns {schema : Schema} {columns : List ArrayRef} {b : RecordBatch}
    (h : tryNew schema columns = .ok b) : ∃ c, c ∈ b.columns := by
  cases hcolumns : b.columns with
  | nil =>
    rw [← (tryNew_ok h).2, hcolumns] at h
    exact absurd h (by simp [tryNew])
  | cons c rest => exact ⟨c, List.mem_cons_self ..⟩

/-- The rows of a batch. -/
def rows (b : RecordBatch) : List Row := rowsOf b.numRows (b.columns.map ArrayRef.cells)

theorem length_column (b : RecordBatch) {c : ArrayRef} (h : c ∈ b.columns) :
    c.cells.length = b.numRows := by
  obtain ⟨i, hi, rfl⟩ := List.getElem_of_mem h
  have hi' : i < b.schema.length := b.fits.length_eq ▸ hi
  exact (b.fits.get hi' hi).length_eq

/-- The rows at some positions of the batch, in that order. -/
def takeRows (b : RecordBatch) (positions : List Nat) (h : ∀ i ∈ positions, i < b.numRows) :
    RecordBatch where
  schema := b.schema
  columns := b.columns.attach.map fun c =>
    c.1.take positions fun i hi => (h i hi).trans_eq (b.length_column c.2).symm
  numRows := positions.length
  fits := by
    rw [forall₂_iff, List.length_map, List.length_attach]
    refine ⟨b.fits.length_eq, fun p hp => ?_⟩
    obtain ⟨i, hi, rfl⟩ := List.getElem_of_mem hp
    simp only [List.length_zip, List.length_map, List.length_attach, lt_min_iff] at hi
    have hfit := b.fits.get hi.1 hi.2
    simp only [List.get_eq_getElem] at hfit
    simp only [List.getElem_zip, List.getElem_map, List.getElem_attach]
    refine ⟨length_gather .., fun hn hm => ?_, hfit.type_eq⟩
    exact hfit.no_nulls hn (mem_gather (fun j hj => by rw [hfit.length_eq]; exact h j hj) hm)

theorem rows_takeRows (b : RecordBatch) (positions : List Nat)
    (h : ∀ i ∈ positions, i < b.numRows) :
    (b.takeRows positions h).rows = positions.map (row (b.columns.map ArrayRef.cells)) := by
  have hcells : (b.takeRows positions h).columns.map ArrayRef.cells =
      (b.columns.map ArrayRef.cells).map (gather positions) := by
    simp [takeRows, ArrayRef.take, Function.comp_def]
  rw [rows, hcells]
  exact rows_gather positions _

/-- `filter_record_batch`: the rows where the predicate array is true. -/
def filterRows (b : RecordBatch) (p : Row → Bool) : RecordBatch :=
  b.takeRows ((List.range b.numRows).filter fun i => p (row (b.columns.map ArrayRef.cells) i))
    fun _ hi => List.mem_range.mp (List.mem_of_mem_filter hi)

theorem rows_filterRows (b : RecordBatch) (p : Row → Bool) :
    (b.filterRows p).rows = b.rows.filter p := by
  rw [filterRows, rows_takeRows, rows_filter]
  rfl

/-- `slice(0, n)`. -/
def slice (n : Nat) (b : RecordBatch) : RecordBatch :=
  b.takeRows ((List.range b.numRows).take n)
    fun _ hi => List.mem_range.mp (List.mem_of_mem_take hi)

theorem rows_slice (n : Nat) (b : RecordBatch) : (b.slice n).rows = b.rows.take n := by
  rw [slice, rows_takeRows, rows_take]
  rfl

/-- The columns at some places, as many rows as before. -/
def project (b : RecordBatch) (indices : List Nat) : RecordBatch where
  schema := select indices b.schema
  columns := select indices b.columns
  numRows := b.numRows
  fits := by
    induction indices with
    | nil => exact .nil
    | cons i indices ih =>
      simp only [select, List.filterMap_cons] at ih ⊢
      by_cases hi : i < b.schema.length
      · have hi' : i < b.columns.length := b.fits.length_eq ▸ hi
        rw [List.getElem?_eq_getElem hi, List.getElem?_eq_getElem hi']
        exact .cons (b.fits.get hi hi') ih
      · have hi' : ¬i < b.columns.length := b.fits.length_eq ▸ hi
        rw [List.getElem?_eq_none (not_lt.mp hi), List.getElem?_eq_none (not_lt.mp hi')]
        exact ih

theorem rows_project (b : RecordBatch) (indices : List Nat) :
    (b.project indices).rows = b.rows.map (select indices) := by
  rw [rows, rows, ← rows_select, project, map_select]

/-- Record batches as batches of rows. -/
def batching : Batching RecordBatch Row := ⟨rows, slice, rows_slice⟩

end RecordBatch
end Griot
