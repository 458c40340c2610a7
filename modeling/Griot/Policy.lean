import Griot.Data.Error
import Griot.Data.Json

/-! The resolved policy and its bundle.

`ResolvedPolicy` is what a contract source produces for one caller. The physical
operators do not read it: they read the JSON bundle it is serialised to
(`toBundleHandle`), each its own part. -/
namespace Griot

open Lib

/-- What to do to a column's values at read time. -/
inductive MaskAction where
  | redact
  | hashSha256
  | tokenize
  | partialMask
  | null
  | noop
  deriving DecidableEq

namespace MaskAction

/-- The token the masking operator expects in the bundle. -/
def asBundleStr : MaskAction → String
  | redact => "redact"
  | hashSha256 => "hash_sha256"
  | tokenize => "tokenize"
  | partialMask => "partial"
  | null => "null"
  | noop => "noop"

end MaskAction

structure DpParam where
  sensitivity : F64
  epsilon : F64
  deriving DecidableEq

/-- Why a caller may not read: the arguments of the message. -/
inductive DenyReason where
  /-- purpose '{}' not permitted (allowed: {:?}) -/
  | purposeNotPermitted (purpose : String) (allowed : List String)
  /-- purpose '{}' is not permitted by contract '{}' (allowed: {:?}) -/
  | purposeNotPermittedBy (purpose contractId : String) (allowed : List String)
  deriving DecidableEq

inductive Decision where
  | allow
  | deny (reason : DenyReason)
  deriving DecidableEq

structure ResolvedPolicy where
  contractId : String
  contractVersion : String
  /-- The owning tenant. -/
  tenantId : String
  decision : Decision
  columnMasks : Dict String MaskAction
  rowFilter : Option String
  dpColumns : Dict String DpParam

/-- The identity and intent of whoever runs a query. -/
structure Caller where
  id : String
  purpose : String
  tenant : String
  tier : String
  classification : String

/-- `Caller::new`: bronze tier, cleared for internal data. -/
def Caller.new (id purpose tenant : String) : Caller :=
  ⟨id, purpose, tenant, "bronze", "internal"⟩

/-- A contract bundle as the operators receive it. -/
structure ContractBundleHandle where
  rawBytes : Bytes
  contractId : String
  tenantId : String

namespace ContractBundleHandle

/-- The document of a bundle; the optimizer rules take no bytes and bytes that do
not parse alike. -/
def document (bundle : ContractBundleHandle) (serde : SerdeJson) : Option Json :=
  if bundle.rawBytes.isEmpty then none else serde.fromSlice bundle.rawBytes

theorem document_just (text : String) (doc : Json) (h : text ≠ "") (contractId tenantId : String) :
    (ContractBundleHandle.mk (utf8 text) contractId tenantId).document (.just text doc h) =
      some doc := by
  have hne : (utf8 text).isEmpty = false := by
    rw [List.isEmpty_eq_false_iff]
    exact fun hnil => h (utf8_inj (t := "") hnil)
  simp [document, hne, SerdeJson.just_fromSlice]

end ContractBundleHandle

namespace ResolvedPolicy

def allowAll (contractId contractVersion tenantId : String) : ResolvedPolicy :=
  ⟨contractId, contractVersion, tenantId, .allow, .empty, none, .empty⟩

def hasDp (p : ResolvedPolicy) : Bool := !p.dpColumns.isEmpty

/-- A double as JSON: what is not finite is written as `null`. -/
def numberValue : F64 → Json
  | .fin q => .number q
  | .negZero => .negZero
  | .inf _ => .null
  | .nan => .null

/-- The `column_masking` member: `noop` masks are omitted. -/
def columnMasking (p : ResolvedPolicy) : List (String × Json) :=
  (p.columnMasks.entries.filter fun e => e.2 ≠ .noop).map fun e =>
    (e.1, .string e.2.asBundleStr)

/-- The `dp_columns` member. -/
def dpValue (p : ResolvedPolicy) : List (String × Json) :=
  p.dpColumns.entries.map fun e =>
    (e.1, .object [("epsilon", numberValue e.2.epsilon),
      ("sensitivity", numberValue e.2.sensitivity)])

/-- The document `to_bundle_bytes` writes. -/
def toBundleValue (p : ResolvedPolicy) : Json :=
  .object [
    ("column_masking", .object p.columnMasking),
    ("contract_id", .string p.contractId),
    ("contract_version", .string p.contractVersion),
    ("dp_columns", .object p.dpValue),
    ("row_filter", match p.rowFilter with | some s => .string s | none => .null)]

def toBundleBytes (serde : SerdeJson) (p : ResolvedPolicy) : Bytes := serde.toVec p.toBundleValue

def toBundleHandle (serde : SerdeJson) (p : ResolvedPolicy) : ContractBundleHandle :=
  ⟨p.toBundleBytes serde, p.contractId, p.tenantId⟩

end ResolvedPolicy
end Griot
