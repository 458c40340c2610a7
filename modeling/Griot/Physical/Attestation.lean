import Griot.Physical.RowFilter

/-! The attestation operator: what it takes from its bundle and puts in its envelope.

The contract named in an envelope is the handle's, the version the one in the handle's
document; the id in the document is read and not looked at. -/
namespace Griot.Physical

open Lib

structure AttestationBundleData where
  contractId : String
  contractVersion : String
  deriving DecidableEq

def AttestationBundleData.ofJson (doc : Json) : Option AttestationBundleData := do
  guard (doc.fits 2)
  let contractId ← doc.fieldOr 0 "contract_id" Json.asString (some "")
  let contractVersion ← doc.fieldOr 1 "contract_version" Json.asString (some "")
  return ⟨contractId, contractVersion⟩

/-- The operator apart from its input. -/
structure AttestationExec where
  bundle : ContractBundleHandle
  /-- The SHA-256 digest of the query's text as hexadecimal. -/
  querySha : String
  contractVersion : String

/-- The envelope but for the privacy loss. -/
structure AttestationEnvelope where
  querySha : String
  contractId : String
  contractVersion : String
  resultHash : String
  rulesApplied : List String
  timestampUtc : String
  engineVersion : String
  signature : Bytes

/-- What an envelope is made with: the Arrow writer, two digests, the clock and the build. -/
structure Stamp where
  /-- The batches as an Arrow file, or the writer's error. -/
  serialize : List RecordBatch → Except String Bytes
  /-- 16 hexadecimal digits. -/
  xxh64Hex : Bytes → String
  sha256 : Bytes → Bytes
  timestampUtc : String
  engineVersion : String

namespace AttestationExec

/-- Empty where there are no bytes. -/
def extractContractVersion (serde : SerdeJson) (bundle : ContractBundleHandle) :
    Except PhysicalError String :=
  (bundleData "AttestationExec" AttestationBundleData.ofJson ⟨"", ""⟩ serde bundle).map
    AttestationBundleData.contractVersion

/-- `AttestationExec::new` but for the input, which it takes as it is. -/
def ofBundle (serde : SerdeJson) (sha256Hex : Bytes → String) (bundle : ContractBundleHandle)
    (querySql : String) : Except PhysicalError AttestationExec :=
  if bundle.contractId = "" then .error .missingContractReference
  else do
    let contractVersion ← extractContractVersion serde bundle
    if contractVersion = "" then .error .missingContractReference
    else .ok ⟨bundle, sha256Hex (utf8 querySql), contractVersion⟩

/-- Nothing is hashed in place of batches that cannot be written. -/
def computeResultHash (stamp : Stamp) (batches : List RecordBatch) :
    Except PhysicalError String :=
  if batches.isEmpty then .ok (stamp.xxh64Hex [])
  else match stamp.serialize batches with
    | .error e => .error (.attestationSerializationFailed e)
    | .ok [] => .error (.attestationSerializationFailed
        "IPC serialization produced empty buffer after finish()")
    | .ok buf => .ok (stamp.xxh64Hex buf)

def buildPlaceholderSignature (stamp : Stamp) (querySha resultHash : String) : Bytes :=
  stamp.sha256 (utf8 querySha ++ utf8 resultHash)

/-- The envelope of `execute_attested`, for the enforcement operators below. -/
def envelope (stamp : Stamp) (op : AttestationExec) (rulesApplied : List String)
    (resultHash : String) : AttestationEnvelope :=
  { querySha := op.querySha
    contractId := op.bundle.contractId
    contractVersion := op.contractVersion
    resultHash
    rulesApplied
    timestampUtc := stamp.timestampUtc
    engineVersion := stamp.engineVersion
    signature := buildPlaceholderSignature stamp op.querySha resultHash }

end AttestationExec
end Griot.Physical
