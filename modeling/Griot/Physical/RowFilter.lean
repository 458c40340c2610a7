import Griot.Data.Arithmetic
import Griot.Data.Arrow
import Griot.Policy
import Griot.Sql.Filter

/-! The row filter operator, batch by batch.

The filter text of the bundle becomes an expression, the expression a predicate
over rows, and a batch keeps the rows on which the predicate is true. What
cannot be read, planned or evaluated is an error of the batch. -/
namespace Griot.Physical

open Lib Sql Logical

/-- A planned expression: evaluated on a batch it fails or gives every row its value. -/
structure PhysicalExpr where
  dataType : DataType
  valueAt : Row → Value
  fails : List Row → Option String

/-- The predicate is true of the row, neither false nor null. -/
def PhysicalExpr.holds (predicate : PhysicalExpr) (row : Row) : Bool :=
  predicate.valueAt row = .boolean true

/-- What the engine below does: planning expressions, casting to text, hashing, rounding. -/
structure Engine where
  sql : SqlEngine
  /-- `DFSchema::try_from`. -/
  dfSchema : Schema → Except String Unit
  createPhysicalExpr : Expr → Schema → Except String PhysicalExpr
  /-- `cast` of a column to text fails. -/
  castFails : DataType → List Value → Option String
  /-- The text of a value that is not null; a value without one becomes null. -/
  render : DataType → Value → Option String
  /-- The SHA-256 digest as lower-case hexadecimal. -/
  sha256Hex : Bytes → String
  rounding : F64.Rounding

/-- An operator's part of a bundle: nothing in no bytes, an error in bytes that do not parse. -/
def bundleData {α : Type} (operator : String) (ofJson : Json → Option α) (default : α)
    (serde : SerdeJson) (bundle : ContractBundleHandle) : Except PhysicalError α :=
  if bundle.rawBytes.isEmpty then .ok default
  else match (serde.fromSlice bundle.rawBytes).bind ofJson with
    | some data => .ok data
    | none => .error (.contractBundleMalformed (operator ++ " bundle JSON parse error"))

theorem bundleData_ok {α : Type} {operator : String} {ofJson : Json → Option α} {default data : α}
    {serde : SerdeJson} {bundle : ContractBundleHandle}
    (h : bundleData operator ofJson default serde bundle = .ok data) :
    data = default ∨ ∃ doc, ofJson doc = some data := by
  rw [bundleData] at h
  split at h
  · exact .inl (Except.ok.inj h).symm
  · split at h
    · rename_i read hread
      obtain rfl := Except.ok.inj h
      obtain ⟨doc, -, hdoc⟩ := Option.bind_eq_some_iff.mp hread
      exact .inr ⟨doc, hdoc⟩
    · cases h

theorem bundleData_of_document {α : Type} {operator : String} {ofJson : Json → Option α}
    {default : α} {serde : SerdeJson} {bundle : ContractBundleHandle} {doc : Json}
    (h : serde.fromSlice bundle.rawBytes = some doc) {data : α} (hdata : ofJson doc = some data) :
    bundleData operator ofJson default serde bundle = .ok data := by
  have hne : bundle.rawBytes.isEmpty = false := by
    rw [List.isEmpty_eq_false_iff]
    intro hnil
    rw [hnil, serde.fromSlice_nil] at h
    exact absurd h (by simp)
  simp [bundleData, hne, h, hdata]

theorem bundleData_of_unreadable {α : Type} {operator : String} {ofJson : Json → Option α}
    {default : α} {serde : SerdeJson} {bundle : ContractBundleHandle} {doc : Json}
    (h : serde.fromSlice bundle.rawBytes = some doc) (hdata : ofJson doc = none) :
    bundleData operator ofJson default serde bundle =
      .error (.contractBundleMalformed (operator ++ " bundle JSON parse error")) := by
  have hne : bundle.rawBytes.isEmpty = false := by
    rw [List.isEmpty_eq_false_iff]
    intro hnil
    rw [hnil, serde.fromSlice_nil] at h
    exact absurd h (by simp)
  simp [bundleData, hne, h, hdata]

structure RowFilterBundleData where
  rowFilter : Option String

def RowFilterBundleData.ofJson (doc : Json) : Option RowFilterBundleData := do
  guard (doc.fits 1)
  let rowFilter ← doc.fieldOr 0 "row_filter" (Json.asOption Json.asString) (some none)
  return ⟨rowFilter⟩

/-- The operator apart from its input. -/
structure RowFilterExec where
  bundle : ContractBundleHandle
  rowFilterExpr : Option String

namespace RowFilterExec

def parseRowFilter (serde : SerdeJson) (bundle : ContractBundleHandle) :
    Except PhysicalError (Option String) :=
  (bundleData "RowFilterExec" RowFilterBundleData.ofJson ⟨none⟩ serde bundle).map
    RowFilterBundleData.rowFilter

/-- `parse_filter_expr_to_df`. -/
def parseFilterExprToDf (engine : Engine) (exprStr : String) : Except PhysicalError Expr :=
  (filterToDf engine.sql (sqlAstToDfExpr engine.sql) exprStr).mapError fun reason =>
    .contractBundleMalformed ("RowFilterExec: " ++ reason)

/-- The predicate of a filter over the rows of a schema. -/
def compileFilter (engine : Engine) (schema : Schema) (filterExprStr : String) :
    Except PhysicalError PhysicalExpr := do
  (engine.dfSchema schema).mapError fun e =>
    PhysicalError.internal ("DFSchema conversion error: " ++ e)
  let dfExpr ← parseFilterExprToDf engine filterExprStr
  (engine.createPhysicalExpr dfExpr schema).mapError fun e =>
    PhysicalError.internal ("PhysicalExpr compilation error: " ++ e)

def evaluate (predicate : PhysicalExpr) (batch : RecordBatch) : Except PhysicalError RecordBatch :=
  match predicate.fails batch.rows with
  | some e => .error (.internal ("predicate evaluation error: " ++ e))
  | none =>
    if predicate.dataType ≠ .boolean then
      .error (.internal "predicate did not evaluate to BooleanArray")
    else .ok (batch.filterRows predicate.holds)

def applyFilterToBatch (engine : Engine) (batch : RecordBatch) (filterExprStr : String) :
    Except PhysicalError RecordBatch := do
  let predicate ← compileFilter engine batch.schema filterExprStr
  evaluate predicate batch

/-- What the operator does to one batch. -/
def onBatch (engine : Engine) (op : RowFilterExec) (batch : RecordBatch) :
    Except DataFusionError RecordBatch :=
  match op.rowFilterExpr with
  | none => .ok batch
  | some filter =>
    if filter = "" then .ok batch
    else (applyFilterToBatch engine batch filter).mapError (.operator "RowFilterExec")

end RowFilterExec
end Griot.Physical
