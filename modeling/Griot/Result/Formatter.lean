import Griot.Data.Json
import Griot.Lib.Columns
import Griot.Lib.Streams

/-! Results as lines of JSON.

Each row of a result becomes an object under the names of the fields, on a line of its own. What a
cell becomes is decided by the type of its column; `serde_json` prints the object, `base64` encodes
bytes. -/
namespace Griot.Result

open Lib

/-! ### Columns -/

inductive TimeUnit where
  | second
  | millisecond
  | microsecond
  | nanosecond
  deriving DecidableEq

inductive ColumnType where
  | null
  | boolean
  | int8
  | int16
  | int32
  | int64
  | uint8
  | uint16
  | uint32
  | uint64
  | float16
  | float32
  | float64
  | utf8
  | largeUtf8
  | utf8View
  | date32
  | date64
  | timestamp (unit : TimeUnit) (zone : Option String)
  | time32 (unit : TimeUnit)
  | time64 (unit : TimeUnit)
  | duration (unit : TimeUnit)
  | interval (unit : String)
  | binary
  | largeBinary
  | binaryView
  | fixedSizeBinary (size : Nat)
  /-- Lists, structs, unions, dictionaries, decimals. -/
  | complex (name : String)
  deriving DecidableEq

inductive Cell where
  | null
  | boolean (b : Bool)
  /-- Of dates and times the number of days or units. -/
  | integer (i : ℤ)
  | float (x : F64)
  | text (s : String)
  | bytes (b : Bytes)
  /-- What the formatter does not look at. -/
  | raw (b : Bytes)
  deriving DecidableEq, Inhabited

namespace ColumnType

/-- The least and the greatest number of a type of numbers, dates or times. -/
def bounds : ColumnType → Option (ℤ × ℤ)
  | int8 => some (-2 ^ 7, 2 ^ 7 - 1)
  | int16 => some (-2 ^ 15, 2 ^ 15 - 1)
  | int32 | date32 | time32 _ => some (-2 ^ 31, 2 ^ 31 - 1)
  | int64 | date64 | timestamp _ _ | time64 _ | duration _ => some (-2 ^ 63, 2 ^ 63 - 1)
  | uint8 => some (0, 2 ^ 8 - 1)
  | uint16 => some (0, 2 ^ 16 - 1)
  | uint32 => some (0, 2 ^ 32 - 1)
  | uint64 => some (0, 2 ^ 64 - 1)
  | _ => none

def isFloat : ColumnType → Bool
  | float16 | float32 | float64 => true
  | _ => false

def isText : ColumnType → Bool
  | utf8 | largeUtf8 | utf8View => true
  | _ => false

def isBinary : ColumnType → Bool
  | binary | largeBinary | binaryView | fixedSizeBinary _ => true
  | _ => false

def isRaw : ColumnType → Bool
  | interval _ | complex _ => true
  | _ => false

end ColumnType

/-- The cell is null or of the type; shorter floats are doubles too. -/
inductive HasType : ColumnType → Cell → Prop
  | null {t : ColumnType} : HasType t .null
  | boolean (b : Bool) : HasType .boolean (.boolean b)
  | integer {t : ColumnType} {least greatest i : ℤ} : t.bounds = some (least, greatest) → least ≤ i →
    i ≤ greatest → HasType t (.integer i)
  | float {t : ColumnType} {x : F64} : t.isFloat = true → x.IsDouble → HasType t (.float x)
  | text {t : ColumnType} (s : String) : t.isText = true → HasType t (.text s)
  | bytes {t : ColumnType} {b : Bytes} : t.isBinary = true →
    (∀ size, t = .fixedSizeBinary size → b.length = size) → HasType t (.bytes b)
  | raw {t : ColumnType} (b : Bytes) : t.isRaw = true → HasType t (.raw b)

structure Field where
  name : String
  dataType : ColumnType
  nullable : Bool

abbrev Schema := List Field

/-- A cell that the column of a field may have. -/
def Field.Admits (field : Field) (cell : Cell) : Prop :=
  HasType field.dataType cell ∧ (field.nullable = false → cell ≠ .null)

structure RecordBatch where
  schema : Schema
  columns : List (List Cell)
  numRows : Nat
  fits : List.Forall₂ (fun field column => column.length = numRows ∧ ∀ cell ∈ column, field.Admits cell)
    schema columns

def RecordBatch.rows (batch : RecordBatch) : List (List Cell) := rowsOf batch.numRows batch.columns

/-! ### Cells -/

inductive FormatterError where
  | json (message : String)
  deriving DecidableEq

/-- `downcast_ref` and `value`. -/
def Cell.asBoolean : Cell → Option Bool
  | .boolean b => some b
  | _ => none

def Cell.asInteger : Cell → Option ℤ
  | .integer i => some i
  | _ => none

def Cell.asFloat : Cell → Option F64
  | .float x => some x
  | _ => none

def Cell.asText : Cell → Option String
  | .text s => some s
  | _ => none

def Cell.asBytes : Cell → Option Bytes
  | .bytes b => some b
  | _ => none

def downcast {α : Type} (typeName colName : String) (value : Option α) : Except FormatterError α :=
  match value with
  | some a => .ok a
  | none => .error (.json s!"downcast {typeName} failed for col '{colName}'")

/-- `Number::from_f64`, null for what is not finite. -/
def fromF64 : F64 → Json
  | .fin q => .number q
  | .negZero => .negZero
  | .inf _ | .nan => .null

/-- The `{:?}` form of a `&dyn Any`, whatever stands behind it. -/
def debugAny : String := "Any \x7b .. \x7d"

variable (serde : SerdeJson) (encode64 : Bytes → String)

def columnValueAt (cell : Cell) (colName : String) (dataType : ColumnType) :
    Except FormatterError Json :=
  if cell = .null then .ok .null
  else match dataType with
    | .null => .ok .null
    | .boolean => (downcast "Boolean" colName cell.asBoolean).map .bool
    | .int8 | .int16 | .int32 => .ok (.integer (cell.asInteger.getD 0))
    | .int64 => (downcast "Int64" colName cell.asInteger).map .integer
    | .uint8 | .uint16 | .uint32 | .uint64 => .ok (.integer (cell.asInteger.getD 0))
    | .float32 => .ok (fromF64 (cell.asFloat.getD (.fin 0)))
    | .float64 => (downcast "Float64" colName cell.asFloat).map fromF64
    | .utf8 => (downcast "Utf8" colName cell.asText).map .string
    | .largeUtf8 => (downcast "LargeUtf8" colName cell.asText).map .string
    -- The array is printed in place of the cell.
    | .date32 | .date64 | .timestamp _ _ | .time32 _ | .time64 _ | .duration _ | .interval _ =>
      .ok (.string debugAny)
    | .binary | .largeBinary => .ok (.string (encode64 (cell.asBytes.getD [])))
    | .fixedSizeBinary _ => .ok (.string (encode64 []))
    | .float16 => .ok (fromF64 (cell.asFloat.getD (.fin 0)))
    | .utf8View => (downcast "Utf8View" colName cell.asText).map .string
    | .binaryView => .ok (.string (encode64 (cell.asBytes.getD [])))
    | .complex _ => .ok .null

/-! ### Rows -/

/-- One turn of the loop over the columns: of a repeated name the last value stays. -/
def insertCell (obj : Dict String Json) (column : Field × Cell) :
    Except FormatterError (Dict String Json) := do
  let value ← columnValueAt encode64 column.2 column.1.name column.1.dataType
  return obj.insert column.1.name value

/-- The line of a row: the map is printed in the order of its keys. -/
def formatRow (schema : Schema) (row : List Cell) : Except FormatterError Bytes := do
  let obj ← (schema.zip row).foldlM (insertCell encode64) .empty
  return serde.toVec (.object obj.entries) ++ [10]

def formatBatch (out : Bytes) (batch : RecordBatch) : Except FormatterError Bytes :=
  batch.rows.foldlM (fun out row => (formatRow serde encode64 batch.schema row).map (out ++ ·)) out

def formatJson (batches : List RecordBatch) : Except FormatterError Bytes :=
  batches.foldlM (formatBatch serde encode64) []

end Griot.Result
