import Griot.Lib.StableSort
import Griot.Lib.Text
import Griot.Policy
import Mathlib.Data.Prod.Lex

/-! Signed bundles of the contract authority, and the policy they map to.

The signature covers a digest of the bundle: every field length-prefixed, the
lists sorted. The policy is read off the lists as they stand: the owner from the
first entry of the resolution map, the purposes from the first module named for
them, the masks and the row filter from the first template for other readers. -/
namespace Griot.Platform

open Lib

/-! ### The bundle -/

structure BundleManifest where
  contractId : String
  contractVersion : UInt64
  compiledAtUnixMs : UInt64
  deriving DecidableEq

structure WasmModule where
  name : String
  bytes : Bytes
  deriving DecidableEq

structure RegoBundle where
  name : String
  source : String
  deriving DecidableEq

structure SqlTemplate where
  name : String
  template : String
  deriving DecidableEq

structure ResolutionMapEntry where
  /-- `tenant/contract` -/
  datasetId : String
  operation : String
  checkRef : String
  deriving DecidableEq

structure ResolutionMap where
  entries : List ResolutionMapEntry
  deriving DecidableEq

structure CompiledBundle where
  manifest : BundleManifest
  wasmModules : List WasmModule
  regoBundles : List RegoBundle
  sqlTemplates : List SqlTemplate
  resolutionMap : ResolutionMap
  deriving DecidableEq

structure SignedBundleMetadata where
  bundleHashHex : String
  signedAtUnixMs : UInt64
  keyGeneration : UInt32
  deriving DecidableEq

structure SignedBundleFile where
  bundle : CompiledBundle
  signatureHex : String
  metadata : SignedBundleMetadata
  deriving DecidableEq

/-! ### Reading a bundle -/

/-- A required field. -/
def required {α : Type} (i : Nat) (name : String) (read : Json → Option α) (doc : Json) : Option α :=
  doc.fieldOr i name read none

def asU64 (doc : Json) : Option UInt64 := (doc.asUnsigned 64).map UInt64.ofNat

def BundleManifest.ofJson (doc : Json) : Option BundleManifest := do
  guard (doc.fits 3)
  return ⟨← required 0 "contract_id" Json.asString doc, ← required 1 "contract_version" asU64 doc,
    ← required 2 "compiled_at_unix_ms" asU64 doc⟩

def WasmModule.ofJson (doc : Json) : Option WasmModule := do
  guard (doc.fits 2)
  return ⟨← required 0 "name" Json.asString doc, ← required 1 "bytes"
    (Json.asVec fun byte => (byte.asUnsigned 8).map UInt8.ofNat) doc⟩

def RegoBundle.ofJson (doc : Json) : Option RegoBundle := do
  guard (doc.fits 2)
  return ⟨← required 0 "name" Json.asString doc, ← required 1 "source" Json.asString doc⟩

def SqlTemplate.ofJson (doc : Json) : Option SqlTemplate := do
  guard (doc.fits 2)
  return ⟨← required 0 "name" Json.asString doc, ← required 1 "template" Json.asString doc⟩

def ResolutionMapEntry.ofJson (doc : Json) : Option ResolutionMapEntry := do
  guard (doc.fits 3)
  return ⟨← required 0 "dataset_id" Json.asString doc, ← required 1 "operation" Json.asString doc,
    ← required 2 "check_ref" Json.asString doc⟩

def ResolutionMap.ofJson (doc : Json) : Option ResolutionMap := do
  guard (doc.fits 1)
  return ⟨← required 0 "entries" (Json.asVec ResolutionMapEntry.ofJson) doc⟩

def CompiledBundle.ofJson (doc : Json) : Option CompiledBundle := do
  guard (doc.fits 5)
  return ⟨← required 0 "manifest" BundleManifest.ofJson doc,
    ← required 1 "wasm_modules" (Json.asVec WasmModule.ofJson) doc,
    ← required 2 "rego_bundles" (Json.asVec RegoBundle.ofJson) doc,
    ← required 3 "sql_templates" (Json.asVec SqlTemplate.ofJson) doc,
    ← required 4 "resolution_map" ResolutionMap.ofJson doc⟩

def SignedBundleMetadata.ofJson (doc : Json) : Option SignedBundleMetadata := do
  guard (doc.fits 3)
  return ⟨← required 0 "bundle_hash_hex" Json.asString doc,
    ← required 1 "signed_at_unix_ms" asU64 doc,
    ← required 2 "key_generation" (fun n => (n.asUnsigned 32).map UInt32.ofNat) doc⟩

def SignedBundleFile.ofJson (doc : Json) : Option SignedBundleFile := do
  guard (doc.fits 3)
  return ⟨← required 0 "bundle" CompiledBundle.ofJson doc,
    ← required 1 "signature_hex" Json.asString doc,
    ← required 2 "metadata" SignedBundleMetadata.ofJson doc⟩

/-! ### The digest -/

def WasmModule.encode (m : WasmModule) : Bytes := frame (utf8 m.name) ++ frame m.bytes

def RegoBundle.encode (r : RegoBundle) : Bytes := frame (utf8 r.name) ++ frame (utf8 r.source)

def SqlTemplate.encode (t : SqlTemplate) : Bytes := frame (utf8 t.name) ++ frame (utf8 t.template)

def ResolutionMapEntry.encode (e : ResolutionMapEntry) : Bytes :=
  frame (utf8 e.datasetId) ++ frame (utf8 e.operation) ++ frame (utf8 e.checkRef)

/-- Entries are sorted by dataset, then by operation. -/
def ResolutionMapEntry.key (e : ResolutionMapEntry) : String ×ₗ String :=
  toLex (e.datasetId, e.operation)

def BundleManifest.encode (m : BundleManifest) : Bytes :=
  frame (utf8 m.contractId) ++ frame (u64le m.contractVersion) ++ frame (u64le m.compiledAtUnixMs)

/-- What `canonical_digest` feeds the hasher. -/
def digestInput (bundle : CompiledBundle) : Bytes :=
  bundle.manifest.encode ++
    (counted WasmModule.encode (sortBy WasmModule.name bundle.wasmModules) ++
      (counted RegoBundle.encode (sortBy RegoBundle.name bundle.regoBundles) ++
        (counted SqlTemplate.encode (sortBy SqlTemplate.name bundle.sqlTemplates) ++
          counted ResolutionMapEntry.encode
            (sortBy ResolutionMapEntry.key bundle.resolutionMap.entries))))

/-- The hash, the hexadecimal codec and the signature scheme of the layer below. -/
structure Crypto where
  VerifyingKey : Type
  Signature : Type
  sha256 : Bytes → Bytes
  hexDecode : String → Option Bytes
  fromDer : Bytes → Option Signature
  verify : VerifyingKey → Bytes → Signature → Bool

def canonicalDigest (crypto : Crypto) (bundle : CompiledBundle) : Bytes :=
  crypto.sha256 (digestInput bundle)

def canonicalSigningPayload (crypto : Crypto) (bundleHash : Bytes) (keyGeneration : UInt32)
    (signedAtUnixMs : UInt64) (metadataBundleHash : Bytes) : Bytes :=
  crypto.sha256 (frame (utf8 "t03:bundle-signing-payload:v1") ++ frame bundleHash ++
    frame (u32le keyGeneration) ++ frame (u64le signedAtUnixMs) ++ frame metadataBundleHash)

structure VerifyError where
  message : String
  deriving DecidableEq

namespace SignedBundleFile

def fromJson (serde : SerdeJson) (bytes : Bytes) : Except VerifyError SignedBundleFile :=
  match (serde.fromSlice bytes).bind ofJson with
  | some file => .ok file
  | none => .error ⟨"bundle JSON parse"⟩

def verify (crypto : Crypto) (file : SignedBundleFile) (vk : crypto.VerifyingKey) :
    Except VerifyError Unit :=
  let recomputed := canonicalDigest crypto file.bundle
  match crypto.hexDecode file.metadata.bundleHashHex with
  | none => .error ⟨"bundle_hash_hex decode"⟩
  | some recorded =>
    if recomputed ≠ recorded then
      .error ⟨"recomputed bundle digest does not match metadata.bundle_hash"⟩
    else
      let payload := canonicalSigningPayload crypto recomputed file.metadata.keyGeneration
        file.metadata.signedAtUnixMs recorded
      match crypto.hexDecode file.signatureHex with
      | none => .error ⟨"sig hex"⟩
      | some sigDer => match crypto.fromDer sigDer with
        | none => .error ⟨"invalid DER signature"⟩
        | some sig =>
          if crypto.verify vk payload sig then .ok ()
          else .error ⟨"signature verification failed"⟩

/-- The tenant of the first entry, up to the first slash of its dataset id. -/
def ownerTenant (file : SignedBundleFile) : Option String :=
  file.bundle.resolutionMap.entries.head?.map fun e =>
    String.ofList (e.datasetId.toList.takeWhile (· ≠ '/'))

end SignedBundleFile

/-! ### The mapping -/

/-- `s.contains(needle)` -/
def nameContains (needle name : String) : Bool := Text.contains needle.toList name.toList

/-- The next `declared_purpose` and, if one follows, the quoted text after it. -/
def nextPurpose (rest : Text) : Option (Option String × Text) :=
  match Text.cut "declared_purpose".toList rest with
  | none => none
  | some (_, after) => match Text.cut ['"'] after with
    | none => some (none, after)
    | some (_, tail) => match Text.cut ['"'] tail with
      | none => some (none, after)
      | some (quoted, rest) => some (some (String.ofList quoted), rest)

def purposesOf (source : String) : List String :=
  (Text.scan nextPurpose source.toList).filterMap id

/-- The purposes named in the first module whose name speaks of purposes. -/
def allowedPurposes (bundle : CompiledBundle) : Option (List String) :=
  (bundle.regoBundles.find? fun r => nameContains "purpose" r.name).map fun r => purposesOf r.source

/-- The next call of `func` and its argument, trimmed and unquoted. -/
def nextArgument (func : String) (rest : Text) : Option (String × Text) :=
  match Text.cut func.toList rest with
  | none => none
  | some (_, after) => match Text.cut [')'] after with
    | none => none
    | some (argument, rest) =>
      some (String.ofList (Text.trimMatches (· = '"') (Text.trim argument)), rest)

/-- The masking functions of a template, with what they do. -/
def maskFunctions : List (String × MaskAction) :=
  [("sha256_hex(", .hashSha256), ("mask_hash_sha256(", .hashSha256), ("mask_redact(", .redact),
    ("mask_tokenize(", .tokenize)]

def masksFromSql (sql : String) : Dict String MaskAction :=
  .ofList (maskFunctions.flatMap fun f =>
    ((Text.scan (nextArgument f.1) sql.toList).filter (· ≠ "")).map (·, f.2))

/-- What follows `WHERE`, unless it is trivial. -/
def rowFilterFromSql (sql : String) : Option String :=
  match Text.cut " WHERE ".toList (Text.upper sql.toList) with
  | none => none
  | some (before, _) =>
    let clause := Text.trim (sql.toList.drop (before.length + " WHERE ".length))
    let normalised := clause.filter fun c => !Text.isWhitespace c
    if normalised = [] ∨ normalised = "1=1".toList then none else some (String.ofList clause)

/-- The template for other readers, else any template for reading. -/
def nonOwnerTemplate (bundle : CompiledBundle) : Option String :=
  ((bundle.sqlTemplates.find? fun t => nameContains "non-owner" t.name).or
    (bundle.sqlTemplates.find? fun t => nameContains "read" t.name)).map SqlTemplate.template

/-- The purpose gate: the reason to turn the caller away, if there is one. -/
def purposeGate (bundle : CompiledBundle) (caller : Caller) : Option DenyReason :=
  match allowedPurposes bundle with
  | none => none
  | some allowed =>
    if allowed ≠ [] ∧ caller.purpose ∉ allowed then some (.purposeNotPermitted caller.purpose allowed)
    else none

def mapBundleToPolicy (file : SignedBundleFile) (caller : Caller) : ResolvedPolicy :=
  let contractId := file.bundle.manifest.contractId
  let version := toString file.bundle.manifest.contractVersion.toNat
  let owner := file.ownerTenant.getD ""
  match purposeGate file.bundle caller with
  | some reason => ⟨contractId, version, owner, .deny reason, .empty, none, .empty⟩
  | none =>
    if owner ≠ "" ∧ caller.tenant = owner then .allowAll contractId version owner
    else
      let (columnMasks, rowFilter) := match nonOwnerTemplate file.bundle with
        | some t => (masksFromSql t, rowFilterFromSql t)
        | none => (.empty, none)
      ⟨contractId, version, owner, .allow, columnMasks, rowFilter, .empty⟩

end Griot.Platform
