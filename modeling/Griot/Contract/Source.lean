import Griot.Platform.Source

/-! Contracts from JSON documents.

A source holds one contract for each dataset, read from a list of documents; of two documents
for one dataset the later one stays. The contract is evaluated for a caller when it is asked for:
whoever states a purpose that is not allowed is turned away, the owner sees everything, and only
for the others are the masks of the columns read. -/
namespace Griot

open Lib Platform

namespace MaskAction

/-- Unknown tokens are an error. -/
def parse (s : String) : Except ContractError MaskAction :=
  match String.ofList (Text.lower s.toList) with
  | "redact" => .ok redact
  | "hash_sha256" | "hash" => .ok hashSha256
  | "tokenize" => .ok tokenize
  | "partial" => .ok partialMask
  | "null" => .ok null
  | "noop" | "none" => .ok noop
  | other => .error (.policy other)

end MaskAction

/-! ### Documents -/

structure JsonBinding where
  /-- Path to a local Parquet file. -/
  parquet : String

structure JsonColumn where
  name : String
  mask : Option String

structure JsonContract where
  contractId : String
  version : String
  dataset : String
  binding : JsonBinding
  ownerTenant : String
  purposes : List String
  columns : List JsonColumn
  rowFilter : Option String
  dpColumns : Dict String DpParam

def DpParam.ofJson (doc : Json) : Option DpParam := do
  guard (doc.fits 2)
  return ⟨← required 0 "sensitivity" Json.asF64 doc, ← required 1 "epsilon" Json.asF64 doc⟩

def JsonBinding.ofJson (doc : Json) : Option JsonBinding := do
  guard (doc.fits 1)
  return ⟨← required 0 "parquet" Json.asString doc⟩

def JsonColumn.ofJson (doc : Json) : Option JsonColumn := do
  guard (doc.fits 2)
  return ⟨← required 0 "name" Json.asString doc,
    ← doc.fieldOr 1 "mask" (Json.asOption Json.asString) (some none)⟩

def JsonContract.ofJson (doc : Json) : Option JsonContract := do
  guard (doc.fits 9)
  return ⟨← required 0 "contract_id" Json.asString doc, ← required 1 "version" Json.asString doc,
    ← required 2 "dataset" Json.asString doc, ← required 3 "binding" JsonBinding.ofJson doc,
    ← required 4 "owner_tenant" Json.asString doc,
    ← doc.fieldOr 5 "purposes" (Json.asVec Json.asString) (some []),
    ← doc.fieldOr 6 "columns" (Json.asVec JsonColumn.ofJson) (some []),
    ← doc.fieldOr 7 "row_filter" (Json.asOption Json.asString) (some none),
    ← doc.fieldOr 8 "dp_columns" (Json.asMap DpParam.ofJson) (some .empty)⟩

/-! ### Policies -/

namespace JsonContract

/-- One turn of the loop over the columns: `noop` leaves no mask. -/
def insertMask (columnMasks : Dict String MaskAction) (col : JsonColumn) :
    Except ContractError (Dict String MaskAction) :=
  match col.mask with
  | none => .ok columnMasks
  | some mask => do
    let action ← MaskAction.parse mask
    return if action ≠ .noop then columnMasks.insert col.name action else columnMasks

def columnMasks (contract : JsonContract) : Except ContractError (Dict String MaskAction) :=
  contract.columns.foldlM insertMask .empty

/-- The purpose gate. -/
def allows (contract : JsonContract) (caller : Caller) : Prop :=
  contract.purposes = [] ∨ caller.purpose ∈ contract.purposes

instance (contract : JsonContract) (caller : Caller) : Decidable (contract.allows caller) :=
  inferInstanceAs (Decidable (_ ∨ _))

/-- What the contract comes to for a caller. -/
def resolve (contract : JsonContract) (caller : Caller) : Except ContractError ResolvedPolicy :=
  if ¬ contract.allows caller then
    .ok ⟨contract.contractId, contract.version, contract.ownerTenant,
      .deny (.purposeNotPermittedBy caller.purpose contract.contractId contract.purposes),
      .empty, none, .empty⟩
  else if caller.tenant = contract.ownerTenant then
    .ok (.allowAll contract.contractId contract.version contract.ownerTenant)
  else do
    let columnMasks ← contract.columnMasks
    return ⟨contract.contractId, contract.version, contract.ownerTenant, .allow, columnMasks,
      contract.rowFilter, contract.dpColumns⟩

end JsonContract

/-! ### The source -/

structure JsonContractSource where
  contracts : Dict String JsonContract

inductive BindingError where
  | notFound (dataset : String)
  /-- An error of the layer below. -/
  | load (message : String)

/-- A file of a directory: its extension, and its text unless it cannot be read. -/
structure DirEntry where
  extension : Option String
  text : Except String String

namespace JsonContractSource
variable (serde : SerdeJson)

/-- `serde_json::from_str`; the wording of the message is the parser's. -/
def parseContract (doc : String) : Except ContractError JsonContract :=
  match (serde.fromSlice (utf8 doc)).bind JsonContract.ofJson with
  | some contract => .ok contract
  | none => .error (.parse "contract")

def insertContract (contracts : Dict String JsonContract) (doc : String) :
    Except ContractError (Dict String JsonContract) := do
  let c ← parseContract serde doc
  return contracts.insert c.dataset c

def fromJsonStrs (docs : List String) : Except ContractError JsonContractSource := do
  let contracts ← docs.foldlM (insertContract serde) .empty
  return ⟨contracts⟩

/-- One turn of the loop over the directory. -/
def readEntry (docs : List String) (entry : Except String DirEntry) :
    Except ContractError (List String) :=
  match entry with
  | .error e => .error (.parse e)
  | .ok entry =>
    if entry.extension = some "json" then match entry.text with
      | .error e => .error (.parse e)
      | .ok text => .ok (docs ++ [text])
    else .ok docs

/-- The entries come in the order the operating system lists them. -/
def fromDir (entries : Except String (List (Except String DirEntry))) :
    Except ContractError JsonContractSource :=
  match entries with
  | .error e => .error (.parse e)
  | .ok entries => do
    let docs ← entries.foldlM readEntry []
    fromJsonStrs serde docs

variable (source : JsonContractSource)

def get (dataset : String) : Except ContractError JsonContract :=
  match source.contracts.lookup dataset with
  | some contract => .ok contract
  | none => .error (.notFound dataset)

/-- `ContractSource::resolve` -/
def resolve (dataset : String) (caller : Caller) : Except ContractError ResolvedPolicy := do
  let contract ← source.get dataset
  contract.resolve caller

/-- `BindingResolver::resolve` -/
def resolveBinding {Provider : Type} (loadParquetAsProvider : String → Except BindingError Provider)
    (dataset : String) : Except BindingError Provider :=
  match source.contracts.lookup dataset with
  | some contract => loadParquetAsProvider contract.binding.parquet
  | none => .error (.notFound dataset)

end JsonContractSource
end Griot
