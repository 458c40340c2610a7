import Griot.Logical.Masking
import Griot.Physical.RowFilter

/-! The masking operator, batch by batch.

A column with a policy other than `noop` is masked cell by cell: nulls stay,
strings are replaced, other types are replaced by a value of their own or, under
a policy that makes strings, go through text. A type that a policy has no value
for is an error. -/
namespace Griot.Physical

open Lib Logical

structure MaskingBundleData where
  columnMasking : Dict String String

def MaskingBundleData.ofJson (doc : Json) : Option MaskingBundleData := do
  guard (doc.fits 1)
  let columnMasking ← doc.fieldOr 0 "column_masking" (Json.asMap Json.asString) (some .empty)
  return ⟨columnMasking⟩

/-- The operator apart from its input. -/
structure MaskingExec where
  bundle : ContractBundleHandle
  columnPolicies : Dict String MaskPolicy
  outputSchema : Schema

namespace MaskingExec

/-- `parse_policy_str`: a token that names no policy is an error. -/
def parsePolicyStr (s column : String) : Except PhysicalError MaskPolicy :=
  match MaskPolicy.ofToken? s with
  | some policy => .ok policy
  | none => .error (.unknownMaskPolicy s column)

def parseMaskingBundle (serde : SerdeJson) (bundle : ContractBundleHandle) :
    Except PhysicalError (Dict String MaskPolicy) := do
  let data ← bundleData "MaskingExec" MaskingBundleData.ofJson ⟨.empty⟩ serde bundle
  data.columnMasking.traverse fun col policyStr => parsePolicyStr policyStr col

/-- A column without an entry is left as it is. -/
def policyForColumn (op : MaskingExec) (columnName : String) : MaskPolicy :=
  (op.columnPolicies.lookup columnName).getD .noop

def isStringProducing : MaskPolicy → Bool
  | .hashSha256 | .tokenize | .partialMask => true
  | _ => false

def maskedFieldType (inputType : DataType) (policy : MaskPolicy) : DataType :=
  if policy = .noop then inputType
  else match inputType with
    | .utf8 => .utf8
    | .largeUtf8 => .utf8
    | other => if isStringProducing policy then .utf8 else other

@[simp] theorem maskedFieldType_noop (inputType : DataType) :
    maskedFieldType inputType .noop = inputType := rfl

theorem maskedFieldType_string {inputType : DataType} {policy : MaskPolicy}
    (hstring : inputType = .utf8 ∨ inputType = .largeUtf8) (hpolicy : policy ≠ .noop) :
    maskedFieldType inputType policy = .utf8 := by
  unfold maskedFieldType
  rw [if_neg hpolicy]
  rcases hstring with rfl | rfl <;> rfl

theorem maskedFieldType_other {inputType : DataType} {policy : MaskPolicy}
    (hstring : ¬(inputType = .utf8 ∨ inputType = .largeUtf8)) (hpolicy : policy ≠ .noop) :
    maskedFieldType inputType policy = if isStringProducing policy then .utf8 else inputType := by
  unfold maskedFieldType
  rw [if_neg hpolicy]
  cases inputType <;> simp_all

def maskedField (columnPolicies : Dict String MaskPolicy) (field : Field) : Field :=
  match columnPolicies.lookup field.name with
  | some policy => {field with dataType := maskedFieldType field.dataType policy}
  | none => field

def maskedOutputSchema (inputSchema : Schema) (columnPolicies : Dict String MaskPolicy) : Schema :=
  inputSchema.map (maskedField columnPolicies)

def maskedSchemaForBundle (serde : SerdeJson) (inputSchema : Schema) (bundle : ContractBundleHandle) :
    Except PhysicalError Schema :=
  (parseMaskingBundle serde bundle).map (maskedOutputSchema inputSchema)

def maskStringValue (engine : Engine) (value : String) : MaskPolicy → String
  | .redact => "***"
  | .hashSha256 | .tokenize => engine.sha256Hex (utf8 value)
  | .partialMask => "***" ++ String.ofList (value.toList.drop (value.length - 4))
  | .null => ""
  | .noop => value

/-- The `{:?}` form of a policy. -/
def debugPolicy : MaskPolicy → String
  | .redact => "Redact"
  | .hashSha256 => "HashSha256"
  | .partialMask => "Partial"
  | .null => "Null"
  | .noop => "Noop"
  | .tokenize => "Tokenize"

/-- The masked text, or null where there is none. -/
def maskText (engine : Engine) (policy : MaskPolicy) : Option String → Value
  | some s => .utf8 (maskStringValue engine s policy)
  | none => .null

theorem maskText_typed (engine : Engine) (policy : MaskPolicy) (text : Option String) :
    (maskText engine policy text).hasType .utf8 = true := by
  cases text <;> rfl

/-- The text of a string cell. -/
def textOf : Value → Option String
  | .utf8 s => some s
  | _ => none

/-- The text a cell is cast to. -/
def castText (engine : Engine) (dataType : DataType) (v : Value) : Option String :=
  if v.isNull then none else engine.render dataType v

def unsupported (colName : String) (dataType : DataType) (policy : MaskPolicy) : PhysicalError :=
  .maskTypeUnsupported colName (dataType.debug ++ " with policy " ++ debugPolicy policy)

/-- A string column, masked: always `Utf8`. -/
def maskStrings (engine : Engine) (col : ArrayRef) (policy : MaskPolicy) : ArrayRef :=
  col.map .utf8 (fun v => maskText engine policy (textOf v)) fun _ _ => maskText_typed ..

def maskViaUtf8Cast (engine : Engine) (col : ArrayRef) (colName : String) (policy : MaskPolicy) :
    Except PhysicalError ArrayRef :=
  match engine.castFails col.dataType col.cells with
  | some e => .error (.maskTypeUnsupported colName (col.dataType.debug ++ " with policy " ++
      debugPolicy policy ++ " (not castable to Utf8 for masking: " ++ e ++ ")"))
  | none => .ok (col.map .utf8 (fun v => maskText engine policy (castText engine col.dataType v))
      fun _ _ => maskText_typed ..)

/-- The value that stands for every cell of a type. -/
def substitute : (dataType : DataType) → Option {v : Value // v.hasType dataType = true}
  | .int64 => some ⟨.int64 0, rfl⟩
  | .float64 => some ⟨.float64 (.fin 0), rfl⟩
  | .boolean => some ⟨.boolean false, rfl⟩
  | _ => none

/-- Every cell that is not null replaced by the same value. -/
def replaceCells (col : ArrayRef) (v : {v : Value // v.hasType col.dataType = true}) : ArrayRef :=
  col.map col.dataType (fun w => if w.isNull then .null else v) fun w _ => by
    split
    · rfl
    · exact v.2

def applyMaskToColumn (engine : Engine) (col : ArrayRef) (colName : String) (policy : MaskPolicy) :
    Except PhysicalError ArrayRef :=
  if policy = .noop then .ok col
  else if col.dataType = .utf8 ∨ col.dataType = .largeUtf8 then .ok (maskStrings engine col policy)
  else if isStringProducing policy then maskViaUtf8Cast engine col colName policy
  else match substitute col.dataType with
    | some v => .ok (replaceCells col v)
    | none => .error (unsupported colName col.dataType policy)

def maskField (engine : Engine) (columnPolicies : Dict String MaskPolicy) (field : Field)
    (col : ArrayRef) : Except PhysicalError ArrayRef :=
  match columnPolicies.lookup field.name with
  | some policy => if policy ≠ .noop then applyMaskToColumn engine col field.name policy else .ok col
  | none => .ok col

/-- The columns masked in order, up to the first that fails. -/
def maskColumns (engine : Engine) (columnPolicies : Dict String MaskPolicy) :
    List Field → List ArrayRef → Except PhysicalError (List ArrayRef)
  | field :: fields, col :: cols => do
    let masked ← maskField engine columnPolicies field col
    return masked :: (← maskColumns engine columnPolicies fields cols)
  | _, _ => .ok []

def applyMaskingToBatch (engine : Engine) (batch : RecordBatch)
    (columnPolicies : Dict String MaskPolicy) (outputSchema : Schema) :
    Except PhysicalError RecordBatch := do
  let columns ← maskColumns engine columnPolicies batch.schema batch.columns
  (RecordBatch.tryNew outputSchema columns).mapError fun e =>
    .internal ("RecordBatch reconstruction error: " ++ e)

/-- What the operator does to one batch. -/
def onBatch (engine : Engine) (op : MaskingExec) (batch : RecordBatch) :
    Except DataFusionError RecordBatch :=
  if op.columnPolicies.isEmpty then .ok batch
  else (applyMaskingToBatch engine batch op.columnPolicies op.outputSchema).mapError
    (.operator "MaskingExec")

end MaskingExec
end Griot.Physical
