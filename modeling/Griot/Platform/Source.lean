import Griot.Platform.Mapping

/-! The platform source of contracts.

`resolve` asks the contract authority for the bundle of a dataset, checks what
comes back and maps it. The authority is whatever answers a request. What is
checked never mentions the dataset, so the policy is the dataset's own exactly
when no acceptable bundle of another contract is delivered (`resolve_governs_iff`),
and any such bundle can be replayed for any dataset (`replay_governs`). -/
namespace Griot.Platform

open Lib

/-- Errors of contract sources. -/
inductive ContractError where
  | notFound (dataset : String)
  | parse (message : String)
  | policy (value : String)
  | platform (message : String)
  deriving DecidableEq

/-! ### The authority -/

structure Request where
  url : String
  header : Option (String × String)

/-- A status as it prints. -/
structure StatusCode where
  code : Nat
  text : String

def StatusCode.isSuccess (status : StatusCode) : Bool := 200 ≤ status.code && status.code < 300

inductive Answer where
  /-- The request failed. -/
  | unsent (error : String)
  /-- The body could not be read. -/
  | unread (status : StatusCode) (error : String)
  | response (status : StatusCode) (body : Bytes)

/-- Whoever answers. -/
abbrev Authority := Request → Answer

/-! ### The source -/

section Source
variable (crypto : Crypto) (serde : SerdeJson)

structure PlatformBundleSource where
  baseUrl : String
  verifyingKey : Option crypto.VerifyingKey
  authHeader : Option (String × String)

namespace PlatformBundleSource
variable {crypto}

def new (baseUrl : String) : PlatformBundleSource crypto := ⟨baseUrl, none, none⟩

def withVerifyingKey (source : PlatformBundleSource crypto) (vk : crypto.VerifyingKey) :
    PlatformBundleSource crypto :=
  { source with verifyingKey := some vk }

variable (source : PlatformBundleSource crypto) (authority : Authority)

def url (contractId : String) : String :=
  String.ofList (Text.trimEndMatches (· = '/') source.baseUrl.toList) ++ "/v1/contracts/" ++
    contractId ++ "/bundle"

def request (contractId : String) : Request := ⟨source.url contractId, source.authHeader⟩

/-- The signature check, where there is a key to check against. -/
def checkSignature (file : SignedBundleFile) : Except VerifyError Unit :=
  match source.verifyingKey with
  | some vk => file.verify crypto vk
  | none => .ok ()

omit authority in
theorem checkSignature_withVerifyingKey (vk : crypto.VerifyingKey) (file : SignedBundleFile) :
    (source.withVerifyingKey vk).checkSignature file = file.verify crypto vk := rfl

def fetch (contractId : String) : Except ContractError SignedBundleFile :=
  match authority (source.request contractId) with
  | .unsent e => .error (.platform ("fetch " ++ source.url contractId ++ ": " ++ e))
  | .unread _ e => .error (.platform ("read body " ++ source.url contractId ++ ": " ++ e))
  | .response status body =>
    if !status.isSuccess then
      .error (.platform ("T03 returned " ++ status.text ++ " for " ++ source.url contractId))
    else match SignedBundleFile.fromJson serde body with
      | .error e => .error (.platform e.message)
      | .ok file => match source.checkSignature file with
        | .error e => .error (.platform ("bundle signature: " ++ e.message))
        | .ok () => .ok file

/-- On the platform a dataset reference is a contract id. -/
def resolve (dataset : String) (caller : Caller) : Except ContractError ResolvedPolicy :=
  (source.fetch serde authority dataset).map (mapBundleToPolicy · caller)

/-! ### What comes back -/

/-- The answer carries a bundle that parses and whose signature is accepted. -/
structure Delivers (answer : Answer) (file : SignedBundleFile) : Prop where
  response : ∃ status body, answer = .response status body ∧ status.isSuccess = true ∧
    SignedBundleFile.fromJson serde body = .ok file
  signed : source.checkSignature file = .ok ()

variable {serde source authority}

/-- `fetch` returns what is delivered, and nothing else. -/
theorem fetch_ok_iff {contractId : String} {file : SignedBundleFile} :
    source.fetch serde authority contractId = .ok file ↔
      source.Delivers serde (authority (source.request contractId)) file := by
  constructor
  · intro h
    rw [fetch] at h
    split at h
    · exact absurd h (by simp)
    · exact absurd h (by simp)
    · rename_i status body hanswer
      split at h
      · exact absurd h (by simp)
      · rename_i hstatus
        split at h
        · exact absurd h (by simp)
        · rename_i file' hparse
          split at h
          · exact absurd h (by simp)
          · rename_i hsigned
            obtain rfl := Except.ok.inj h
            exact ⟨⟨status, body, hanswer, by simpa using hstatus, hparse⟩, hsigned⟩
  · intro ⟨⟨status, body, hanswer, hstatus, hparse⟩, hsigned⟩
    simp [fetch, hanswer, hstatus, hparse, hsigned]

theorem resolve_ok_iff {dataset : String} {caller : Caller} {policy : ResolvedPolicy} :
    source.resolve serde authority dataset caller = .ok policy ↔
      ∃ file, source.fetch serde authority dataset = .ok file ∧
        policy = mapBundleToPolicy file caller := by
  rw [resolve]
  cases source.fetch serde authority dataset with
  | error e => simp [Except.map]
  | ok file => simp [Except.map, eq_comm]

variable (serde source authority)

/-- Every policy resolved for the dataset is mapped from the bundle of that contract. -/
def Governs (dataset : String) (caller : Caller) : Prop :=
  ∀ policy, source.resolve serde authority dataset caller = .ok policy →
    ∃ file, source.fetch serde authority dataset = .ok file ∧
      policy = mapBundleToPolicy file caller ∧ file.bundle.manifest.contractId = dataset

/-- **When the dataset's own contract governs it**: the answer to its request carries no
acceptable bundle of another contract. -/
theorem resolve_governs_iff (dataset : String) (caller : Caller) :
    source.Governs serde authority dataset caller ↔
      ∀ file, source.Delivers serde (authority (source.request dataset)) file →
        file.bundle.manifest.contractId = dataset := by
  constructor
  · intro h file hdelivers
    have hfetch := fetch_ok_iff.mpr hdelivers
    obtain ⟨file', hfetch', -, hid⟩ := h _ (resolve_ok_iff.mpr ⟨file, hfetch, rfl⟩)
    rw [hfetch] at hfetch'
    obtain rfl := Except.ok.inj hfetch'
    exact hid
  · intro h policy hresolve
    obtain ⟨file, hfetch, rfl⟩ := resolve_ok_iff.mp hresolve
    exact ⟨file, hfetch, rfl, h file (fetch_ok_iff.mp hfetch)⟩

/-- **Replay**: an authority that answers everything with one acceptable bundle makes it
govern every dataset. -/
theorem replay_governs {status : StatusCode} {body : Bytes} {file : SignedBundleFile}
    (hdelivers : source.Delivers serde (.response status body) file) (dataset : String)
    (caller : Caller) :
    source.resolve serde (fun _ => .response status body) dataset caller =
      .ok (mapBundleToPolicy file caller) :=
  resolve_ok_iff.mpr ⟨file, fetch_ok_iff.mpr hdelivers, rfl⟩

end PlatformBundleSource
end Source

/-! ### A bundle of another contract -/

/-- The hexadecimal codec, with a hash that keeps its input and a scheme whose only
signature of a payload is the payload. -/
def Crypto.transparent : Crypto where
  VerifyingKey := Unit
  Signature := Bytes
  sha256 := id
  hexDecode := fun s => unhex s.toList
  fromDer := some
  verify := fun _ payload sig => payload = sig
where
  digit (c : Char) : Option Nat :=
    if '0' ≤ c ∧ c ≤ '9' then some (c.toNat - '0'.toNat)
    else if 'a' ≤ c ∧ c ≤ 'f' then some (c.toNat - 'a'.toNat + 10)
    else if 'A' ≤ c ∧ c ≤ 'F' then some (c.toNat - 'A'.toNat + 10)
    else none
  unhex : List Char → Option Bytes
    | [] => some []
    | [_] => none
    | c :: d :: s => do return UInt8.ofNat (16 * (← digit c) + (← digit d)) :: (← unhex s)

def Crypto.transparent.key : Crypto.transparent.VerifyingKey := ()

def hexEncode (bytes : Bytes) : String :=
  String.ofList (bytes.flatMap fun b => [Nat.digitChar (b.toNat / 16), Nat.digitChar (b.toNat % 16)])

theorem Crypto.transparent.digit_digitChar :
    ∀ n < 16, Crypto.transparent.digit (Nat.digitChar n) = some n := by
  decide

theorem Crypto.transparent.hexDecode_hexEncode (bytes : Bytes) :
    Crypto.transparent.hexDecode (hexEncode bytes) = some bytes := by
  show unhex (hexEncode bytes).toList = some bytes
  rw [hexEncode, String.toList_ofList]
  induction bytes with
  | nil => rfl
  | cons b bytes ih =>
    have hb := b.toNat_lt
    rw [List.flatMap_cons, List.cons_append, List.cons_append, List.nil_append, unhex,
      digit_digitChar _ (by omega), digit_digitChar _ (by omega), ih]
    show some (UInt8.ofNat (16 * (b.toNat / 16) + b.toNat % 16) :: bytes) = _
    rw [Nat.div_add_mod, UInt8.ofNat_toNat]

/-- A bundle, signed. -/
def sign (bundle : CompiledBundle) : SignedBundleFile :=
  let hash := canonicalDigest .transparent bundle
  ⟨bundle, hexEncode (canonicalSigningPayload .transparent hash 1 0 hash), ⟨hexEncode hash, 0, 1⟩⟩

theorem verify_sign (bundle : CompiledBundle) :
    (sign bundle).verify .transparent Crypto.transparent.key = .ok () := by
  simp only [sign, SignedBundleFile.verify, Crypto.transparent.hexDecode_hexEncode]
  simp [Crypto.transparent]

/-- An empty bundle of `other_v1`, signed. -/
def otherBundle : SignedBundleFile := sign ⟨⟨"other_v1", 1, 1⟩, [], [], [], ⟨[]⟩⟩

def otherDocument : Json := .object [
  ("bundle", .object [
    ("manifest", .object [("contract_id", .string "other_v1"), ("contract_version", .integer 1),
      ("compiled_at_unix_ms", .integer 1)]),
    ("wasm_modules", .array []), ("rego_bundles", .array []), ("sql_templates", .array []),
    ("resolution_map", .object [("entries", .array [])])]),
  ("signature_hex", .string otherBundle.signatureHex),
  ("metadata", .object [("bundle_hash_hex", .string otherBundle.metadata.bundleHashHex),
    ("signed_at_unix_ms", .integer 0), ("key_generation", .integer 1)])]

def otherSource : PlatformBundleSource .transparent :=
  (PlatformBundleSource.new "https://t03.internal").withVerifyingKey Crypto.transparent.key

def otherText : String :=
  "\x7b\"bundle\":\x7b\"manifest\":\x7b\"contract_id\":\"other_v1\",\"contract_version\":1," ++
  "\"compiled_at_unix_ms\":1\x7d,\"wasm_modules\":[],\"rego_bundles\":[],\"sql_templates\":[]," ++
  "\"resolution_map\":\x7b\"entries\":[]\x7d\x7d,\"signature_hex\":\"" ++
  otherBundle.signatureHex ++ "\",\"metadata\":\x7b\"bundle_hash_hex\":\"" ++
  otherBundle.metadata.bundleHashHex ++ "\",\"signed_at_unix_ms\":0,\"key_generation\":1\x7d\x7d"

theorem otherText_ne : otherText ≠ "" := by
  intro h
  obtain ⟨-, htail⟩ := String.append_eq_empty_iff.mp h
  revert htail
  decide +kernel

def otherReader : SerdeJson := .just otherText otherDocument otherText_ne

def otherAnswer : Answer := .response ⟨200, "200 OK"⟩ (utf8 otherText)

theorem otherBundle_delivered : otherSource.Delivers otherReader otherAnswer otherBundle := by
  have hsigned : otherSource.checkSignature otherBundle = .ok () := by
    rw [otherSource, PlatformBundleSource.checkSignature_withVerifyingKey, otherBundle, verify_sign]
  refine ⟨⟨⟨200, "200 OK"⟩, utf8 otherText, rfl, rfl, ?_⟩, hsigned⟩
  rw [SignedBundleFile.fromJson, otherReader, SerdeJson.just_fromSlice]
  rfl

/-- Asked for `demo_v1`, the authority answers with `other_v1`, which then governs. -/
theorem otherBundle_governs : ¬otherSource.Governs otherReader (fun _ => otherAnswer) "demo_v1"
    (Caller.new "eve" "analytics" "globex") := by
  intro h
  obtain ⟨file, hfetch, -, hid⟩ := h _ (otherSource.replay_governs otherReader
    otherBundle_delivered "demo_v1" (Caller.new "eve" "analytics" "globex"))
  have hother : otherSource.fetch otherReader (fun _ => otherAnswer) "demo_v1" = .ok otherBundle :=
    PlatformBundleSource.fetch_ok_iff.mpr otherBundle_delivered
  rw [hother] at hfetch
  obtain rfl := Except.ok.inj hfetch
  exact absurd hid (by decide)

end Griot.Platform
