import Griot.Engine.Documents
import Griot.Platform.Authentic

/-! Queries over the platform.

The policy of a dataset comes over the network, and whoever answers there may say anything. As
long as the key of the source is trusted, a query reads of every table what a published bundle
reveals to the caller and nothing more (`platform_governed`); and what is answered beyond the
content of published bundles, be it their order, makes no difference (`platform_hides`). Which of
the published bundles governs a name is up to whoever answers. -/
namespace Griot

open Lib Physical Platform

section Platform
variable {crypto : Crypto}

/-- The engine over the contract authority, which may be another at every call. -/
def GriotEngine.ofPlatform (serde : SerdeJson) (source : PlatformBundleSource crypto)
    (authorities : Nat → Authority) (binding : BindingResolver) : GriotEngine where
  source := fun call dataset caller => source.resolve serde (authorities call) dataset caller
  binding := binding

@[simp] theorem GriotEngine.ofPlatform_source (serde : SerdeJson) (source : PlatformBundleSource crypto)
    (authorities : Nat → Authority) (binding : BindingResolver) (call : Nat) (name : String)
    (caller : Caller) : (GriotEngine.ofPlatform serde source authorities binding).source call name caller =
      source.resolve serde (authorities call) name caller := rfl

/-! ### What a bundle reveals -/

/-- The caller's tenant is the one that the bundle names. -/
def Platform.CompiledBundle.OwnedBy (bundle : CompiledBundle) (caller : Caller) : Prop :=
  caller.tenant ≠ "" ∧ (unsigned bundle).ownerTenant = some caller.tenant

/-- The policy for everyone else. -/
def Platform.CompiledBundle.otherPolicy (bundle : CompiledBundle) : ResolvedPolicy :=
  ⟨bundle.manifest.contractId, toString bundle.manifest.contractVersion.toNat,
    (unsigned bundle).ownerTenant.getD "", .allow, (nonOwnerView bundle).1, (nonOwnerView bundle).2, .empty⟩

/-- The rows that a bundle reveals to a caller whom its gate lets in. -/
inductive Revealed (engine : Engine) (bundle : CompiledBundle) (caller : Caller) (schema : Schema)
    (sel : Selection) (rows : List Row) : List Row → Prop
  | owner (h : bundle.OwnedBy caller) :
      Revealed engine bundle caller schema sel rows (sel.first (rows.map sel.project))
  | other (h : ¬ bundle.OwnedBy caller) : Revealed engine bundle caller schema sel rows
      (governedRows engine bundle.otherPolicy schema sel rows)

theorem dpColumns_mapBundleToPolicy (file : SignedBundleFile) (caller : Caller) :
    (mapBundleToPolicy file caller).dpColumns = .empty := by
  unfold mapBundleToPolicy
  cases purposeGate file.bundle caller with
  | some reason => rfl
  | none =>
    simp only
    split <;> rfl

theorem mapBundleToPolicy_owner {bundle : CompiledBundle} {caller : Caller}
    (hgate : purposeGate bundle caller = none) (h : bundle.OwnedBy caller) :
    mapBundleToPolicy (unsigned bundle) caller = .allowAll bundle.manifest.contractId
      (toString bundle.manifest.contractVersion.toNat) caller.tenant := by
  obtain ⟨hne, howner⟩ := h
  have hgate' : purposeGate (unsigned bundle).bundle caller = none := hgate
  simp [mapBundleToPolicy, hgate', howner, hne]
  rfl

theorem mapBundleToPolicy_other {bundle : CompiledBundle} {caller : Caller}
    (hgate : purposeGate bundle caller = none) (h : ¬ bundle.OwnedBy caller) :
    mapBundleToPolicy (unsigned bundle) caller = bundle.otherPolicy := by
  have hgate' : purposeGate (unsigned bundle).bundle caller = none := hgate
  have howner : ¬((unsigned bundle).ownerTenant.getD "" ≠ "" ∧
      caller.tenant = (unsigned bundle).ownerTenant.getD "") := by
    intro hsame
    cases htenant : (unsigned bundle).ownerTenant with
    | none => simp [htenant] at hsame
    | some owner =>
      rw [htenant, Option.getD_some] at hsame
      exact h ⟨hsame.2 ▸ hsame.1, by rw [htenant, hsame.2]⟩
  simp only [mapBundleToPolicy, hgate', if_neg howner]
  rfl

/-- What the mapped policy lets through is what the bundle reveals. -/
theorem Platform.CompiledBundle.revealed {engine : Engine} {bundle : CompiledBundle} {caller : Caller}
    (hgate : purposeGate bundle caller = none) {schema : Schema}
    {items : List (Except DataFusionError RecordBatch)}
    (hitems : ∀ {batch}, .ok batch ∈ items → batch.schema = schema)
    (draws : Nat → Nat → Nat → LaplaceNoiseExec.Draw) (sel : Selection) :
    Revealed engine bundle caller schema sel (items.flatMap itemRows)
      (governedStream engine (mapBundleToPolicy (unsigned bundle) caller) schema draws sel items) := by
  by_cases howner : bundle.OwnedBy caller
  · rw [mapBundleToPolicy_owner hgate howner, governedStream_allowAll hitems]
    exact .owner howner
  · rw [mapBundleToPolicy_other hgate howner, governedStream_eq _ _ _ rfl]
    exact .other howner

/-! ### Queries -/

section Queries
variable {around : Surroundings} {source : PlatformBundleSource crypto} {authorities : Nat → Authority}
  {binding : BindingResolver} {caller : Caller} {vk : crypto.VerifyingKey}
  {published : Set CompiledBundle}

/-- Two answers for a name that differ in nothing published, and tables that show the same. -/
inductive AnswersAlike (around : Surroundings) (source : PlatformBundleSource crypto)
    (caller : Caller) (name : String) (authority authority' : Authority) :
    Except BindingError TableProvider → Except BindingError TableProvider → Prop
  | failed {e : ContractError} (h : source.fetch around.serde authority name = .error e)
      (h' : source.fetch around.serde authority' name = .error e)
      (bound bound' : Except BindingError TableProvider) :
      AnswersAlike around source caller name authority authority' bound bound'
  | same {file file' : SignedBundleFile} (h : source.fetch around.serde authority name = .ok file)
      (h' : source.fetch around.serde authority' name = .ok file')
      (hdigest : digestInput file'.bundle = digestInput file.bundle)
      {bound bound' : Except BindingError TableProvider}
      (halike : (mapBundleToPolicy file caller).decision = .allow →
        BindingsAlike around.engine (mapBundleToPolicy file caller) bound bound') :
      AnswersAlike around source caller name authority authority' bound bound'

theorem enginesAlike_ofPlatform {authorities' : Nat → Authority} {binding' : BindingResolver}
    {names : Set String} (hkey : source.verifyingKey = some vk)
    (htrust : Trusts crypto vk published (Arriving around.serde source authorities))
    (hcovered : ∀ bundle ∈ published, bundle.Covered)
    (hserde : ∀ bundle ∈ published, purposeGate bundle caller = none →
      around.serde.fromSlice (around.serde.toVec (mapBundleToPolicy (unsigned bundle) caller).toBundleValue) =
        some (mapBundleToPolicy (unsigned bundle) caller).toBundleValue)
    (halike : ∀ name ∈ names, ∀ call, AnswersAlike around source caller name (authorities call)
      (authorities' call) (binding call name) (binding' call name)) :
    EnginesAlike around (.ofPlatform around.serde source authorities binding)
      (.ofPlatform around.serde source authorities' binding') caller caller names where
  source name hname call := by
    rw [GriotEngine.ofPlatform_source, GriotEngine.ofPlatform_source]
    cases halike name hname call with
    | failed h h' => rw [PlatformBundleSource.resolve, PlatformBundleSource.resolve, h, h']
    | @same file file' h h' hdigest =>
      obtain ⟨bundle, hbundle, hpublished⟩ := fetch_published hkey htrust h
      have hmaps := (hcovered bundle hbundle).maps hpublished caller
      have hmaps' := (hcovered bundle hbundle).maps (hdigest.trans hpublished) caller
      rw [PlatformBundleSource.resolve, PlatformBundleSource.resolve, h, h', Except.map, Except.map,
        hmaps, hmaps']
  binding name hname call p hp hallow := by
    obtain ⟨file, hfetch, rfl⟩ := PlatformBundleSource.resolve_ok_iff.mp hp
    cases halike name hname call with
    | failed h => cases hfetch.symm.trans h
    | same h h' hdigest hbound =>
      obtain rfl := Except.ok.inj (hfetch.symm.trans h)
      exact hbound hallow
  serde name hname call p hp hallow := by
    obtain ⟨bundle, hbundle, rfl⟩ := resolve_published hkey htrust hcovered hp
    exact hserde bundle hbundle ((decision_allow_iff (unsigned bundle) caller).mp hallow)

end Queries
end Platform
/-! ### A published bundle for the staff -/

/-- A scheme with one signature, that of one bundle. -/
def notary (bundle : CompiledBundle) : Crypto where
  VerifyingKey := Unit
  Signature := Bytes
  sha256 := id
  hexDecode := Crypto.transparent.hexDecode
  fromDer := some
  verify := fun _ (payload sig : Bytes) =>
    decide (payload = sig) && decide (payload = payloadInput .transparent bundle 1 0)

def notary.key (bundle : CompiledBundle) : (notary bundle).VerifyingKey := ()

theorem sign_verifies (bundle : CompiledBundle) :
    (sign bundle).verify (notary bundle) (notary.key bundle) = .ok () := by
  have hdecode : ∀ bytes, (notary bundle).hexDecode (hexEncode bytes) = some bytes :=
    Crypto.transparent.hexDecode_hexEncode
  simp only [sign, SignedBundleFile.verify, hdecode]
  simp [notary, Crypto.transparent, payloadInput, signingInput, canonicalDigest, canonicalSigningPayload]

theorem notary_trusts {bundle : CompiledBundle} (hshort : (digestInput bundle).length < 2 ^ 32)
    {arriving : Set CompiledBundle} (harriving : ∀ bundle' ∈ arriving, bundle' = bundle) :
    Trusts (notary bundle) (notary.key bundle) {bundle} arriving where
  unforged payload sig hverify := by
    obtain ⟨-, hpayload⟩ := (Bool.and_eq_true _ _).mp hverify
    exact ⟨bundle, rfl, 1, 0, of_decide_eq_true hpayload⟩
  short bundle' hbundle' := by
    obtain rfl : bundle' = bundle := hbundle'.elim id (harriving bundle')
    exact hshort
  digests _ _ _ _ h := h
  payloads _ _ _ _ _ _ _ _ h := h

/-- Others see who is active, without addresses. -/
def staffBundle : CompiledBundle :=
  ⟨⟨"employees_v1", 1, 1⟩, [], [],
    [⟨"row-filter-non-owner-read", "SELECT mask_redact(email) AS email FROM staff WHERE active"⟩],
    ⟨[⟨"acme/employees_v1", "read", "gate"⟩]⟩⟩

/-- What others are let in under. -/
def staffView : ResolvedPolicy :=
  ⟨"employees_v1", "1", "acme", .allow, .ofList [("email", .redact)], some "active", .empty⟩

theorem staffBundle_view : nonOwnerView staffBundle = (.ofList [("email", .redact)], some "active") := by
  have hmasks : masksFromSql "SELECT mask_redact(email) AS email FROM staff WHERE active" =
      .ofList [("email", .redact)] := congrArg Dict.ofList (by decide +kernel)
  have hfilter : rowFilterFromSql "SELECT mask_redact(email) AS email FROM staff WHERE active" =
      some "active" := by decide +kernel
  have htemplate : nonOwnerTemplate staffBundle =
      some "SELECT mask_redact(email) AS email FROM staff WHERE active" := by decide +kernel
  simp only [nonOwnerView, htemplate, hmasks, hfilter]

theorem staffBundle_maps : mapBundleToPolicy (unsigned staffBundle) analyst = staffView := by
  have hother : ¬ staffBundle.OwnedBy analyst := fun h => absurd h.2 (by decide +kernel)
  have hversion : toString staffBundle.manifest.contractVersion.toNat = "1" := by decide +kernel
  have howner : (unsigned staffBundle).ownerTenant = some "acme" := by decide +kernel
  rw [mapBundleToPolicy_other rfl hother, Platform.CompiledBundle.otherPolicy, staffBundle_view,
    hversion, howner]
  rfl

theorem staffView_enforceable (policies : Dict String Logical.MaskPolicy) :
    Enforceable columnEngine staffView employeeSchema policies where
  filter := .inr ⟨_, rfl, rfl, rfl⟩
  masks := fun _ => ⟨by decide, fun field hfield => by
    simp only [employeeSchema, List.mem_cons, List.not_mem_nil, or_false] at hfield
    rcases hfield with rfl | rfl | rfl
    · exact .inr (.inl (.inl rfl))
    · exact .inl rfl
    · exact .inl rfl⟩

def staffFile : SignedBundleFile := sign staffBundle

def signedDocument : Json := .object [
  ("bundle", .object [
    ("manifest", .object [("contract_id", .string "employees_v1"), ("contract_version", .integer 1),
      ("compiled_at_unix_ms", .integer 1)]),
    ("wasm_modules", .array []), ("rego_bundles", .array []),
    ("sql_templates", .array [.object [("name", .string "row-filter-non-owner-read"),
      ("template", .string "SELECT mask_redact(email) AS email FROM staff WHERE active")]]),
    ("resolution_map", .object [("entries", .array [.object [
      ("dataset_id", .string "acme/employees_v1"), ("operation", .string "read"),
      ("check_ref", .string "gate")]])])]),
  ("signature_hex", .string staffFile.signatureHex),
  ("metadata", .object [("bundle_hash_hex", .string staffFile.metadata.bundleHashHex),
    ("signed_at_unix_ms", .integer 0), ("key_generation", .integer 1)])]

def signedText : String :=
  "\x7b\"bundle\":\x7b\"manifest\":\x7b\"contract_id\":\"employees_v1\",\"contract_version\":1," ++
  "\"compiled_at_unix_ms\":1\x7d,\"wasm_modules\":[],\"rego_bundles\":[],\"sql_templates\":[" ++
  "\x7b\"name\":\"row-filter-non-owner-read\",\"template\":" ++
  "\"SELECT mask_redact(email) AS email FROM staff WHERE active\"\x7d]," ++
  "\"resolution_map\":\x7b\"entries\":[\x7b\"dataset_id\":\"acme/employees_v1\"," ++
  "\"operation\":\"read\",\"check_ref\":\"gate\"\x7d]\x7d\x7d,\"signature_hex\":\"" ++
  staffFile.signatureHex ++ "\",\"metadata\":\x7b\"bundle_hash_hex\":\"" ++
  staffFile.metadata.bundleHashHex ++ "\",\"signed_at_unix_ms\":0,\"key_generation\":1\x7d\x7d"

def viewText : String :=
  "\x7b\"column_masking\":\x7b\"email\":\"redact\"\x7d,\"contract_id\":\"employees_v1\"," ++
  "\"contract_version\":\"1\",\"dp_columns\":\x7b\x7d,\"row_filter\":\"active\"\x7d"

/-- A parser of the two documents. -/
def platformSerde : SerdeJson where
  fromSlice := fun bytes =>
    if bytes = [] then none
    else if bytes = utf8 viewText then some staffView.toBundleValue
    else if bytes = utf8 signedText then some signedDocument
    else none
  toVec := fun _ => utf8 viewText
  fromSlice_nil := if_pos rfl

theorem staffView_reads : platformSerde.fromSlice (platformSerde.toVec staffView.toBundleValue) =
    some staffView.toBundleValue := by
  have hne : utf8 viewText ≠ [] := (ne_utf8 (by decide +kernel)).symm
  simp [platformSerde, hne]

theorem signedText_ne : signedText ≠ "" ∧ signedText ≠ viewText := by
  decide +kernel

theorem signedText_parses : SignedBundleFile.fromJson platformSerde (utf8 signedText) = .ok staffFile := by
  have hne : utf8 signedText ≠ [] := (ne_utf8 signedText_ne.1).symm
  have hview : utf8 signedText ≠ utf8 viewText := fun h => signedText_ne.2 (utf8_inj h)
  have hparse : platformSerde.fromSlice (utf8 signedText) = some signedDocument := by
    simp [platformSerde, hne, hview]
  rw [SignedBundleFile.fromJson, hparse]
  rfl

def staffSource : PlatformBundleSource (notary staffBundle) :=
  (PlatformBundleSource.new "https://t03.internal").withVerifyingKey (notary.key staffBundle)

/-- Whatever the request, the bundle, under some status. -/
def answering (status : StatusCode) : Nat → Authority := fun _ _ => .response status (utf8 signedText)

theorem answering_fetch {status : StatusCode} (hstatus : status.isSuccess = true) (call : Nat)
    (name : String) : staffSource.fetch platformSerde (answering status call) name = .ok staffFile :=
  PlatformBundleSource.fetch_ok_iff.mpr
    ⟨⟨status, _, rfl, hstatus, signedText_parses⟩, sign_verifies staffBundle⟩

theorem answering_trusts (status : StatusCode) : Trusts (notary staffBundle) (notary.key staffBundle)
    {staffBundle} (Arriving platformSerde staffSource (answering status)) := by
  refine notary_trusts (by decide +kernel) fun bundle harrives => ?_
  obtain ⟨call, name, status', body, file, hanswer, hparse, rfl⟩ := harrives
  obtain ⟨-, rfl⟩ := Answer.response.inj hanswer
  obtain rfl := Except.ok.inj (signedText_parses.symm.trans hparse)
  rfl

/-- One element is no order. -/
theorem settled_of_le_one {α κ β : Type} [LinearOrder κ] {key : α → κ} {p : κ → Bool} {f : α → β}
    {l : List α} (hl : l.length ≤ 1) : Settled key p f l := by
  intro a b ha hb _ _
  have hmem : ∀ {c}, Leads key l c → c ∈ l := by
    intro c hc
    obtain ⟨before, after, rfl, -⟩ := hc.split
    simp
  cases l with
  | nil => cases hmem ha
  | cons c l =>
    obtain rfl : l = [] := by simpa using hl
    rw [List.mem_singleton.mp (hmem ha), List.mem_singleton.mp (hmem hb)]

theorem staffBundle_covered : ∀ bundle ∈ ({staffBundle} : Set CompiledBundle), bundle.Covered := by
  intro bundle hbundle
  obtain rfl : bundle = staffBundle := hbundle
  exact ⟨by decide +kernel, settled_of_le_one le_rfl, settled_of_le_one zero_le_one, settled_of_le_one le_rfl⟩

theorem staffPolicies_signed : ∀ bundle ∈ ({staffBundle} : Set CompiledBundle),
    purposeGate bundle analyst = none → platformSerde.fromSlice (platformSerde.toVec
      (mapBundleToPolicy (unsigned bundle) analyst).toBundleValue) =
        some (mapBundleToPolicy (unsigned bundle) analyst).toBundleValue := by
  intro bundle hbundle _
  obtain rfl : bundle = staffBundle := hbundle
  rw [staffBundle_maps]
  exact staffView_reads

def platformSurroundings : Surroundings :=
  ⟨columnEngine, platformSerde, fun _ _ _ _ => (.fin 0, .fin 0)⟩

/-- The engine over the platform, and one table of the batch. -/
abbrev staffPlatform (status : StatusCode) (batch : RecordBatch) : GriotEngine :=
  .ofPlatform platformSerde staffSource (answering status) (staffEngine batch).binding

theorem staffFile_maps : mapBundleToPolicy staffFile analyst = staffView := by
  have hdigest : digestInput staffFile.bundle = digestInput staffBundle := rfl
  rw [(staffBundle_covered staffBundle rfl).maps hdigest, staffBundle_maps]

theorem staffPlatform_transcript : ∃ view out,
    (staffPlatform ⟨200, "200 OK"⟩ employees).transcript platformSurroundings readAddresses
        "SELECT email FROM staff" analyst =
      [⟨.table schemaName "staff", .ok (some 0)⟩] ++ ⟨.scan 0 (some [0]) none, some (.ok view)⟩ :: [] ∧
    collect view.stream = .ok out := by
  obtain ⟨plan, out, hplan, hout⟩ := employees_scan (p := staffView) rfl (by decide)
    staffView_enforceable staffView_reads
  have hfetch : staffSource.fetch platformSerde (answering ⟨200, "200 OK"⟩ 0) "staff" = .ok staffFile :=
    answering_fetch rfl 0 "staff"
  have hresolve : staffSource.resolve platformSerde (answering ⟨200, "200 OK"⟩ 0) "staff" analyst =
      .ok staffView := by
    rw [PlatformBundleSource.resolve, hfetch, Except.map, staffFile_maps]
  have hsource : (staffPlatform ⟨200, "200 OK"⟩ employees).source 0 "staff" analyst = .ok staffView := by
    rw [GriotEngine.ofPlatform_source, hresolve]
  exact ⟨_, out, @readAddresses_transcript platformSurroundings _ analyst _ _ _ hsource rfl rfl hplan
    "SELECT email FROM staff", hout⟩

theorem staffView_lookAlike :
    LookAlike columnEngine staffView employeeSchema employees.rows otherStaff.rows := by
  have hrows : List.Forall₂ (RowsAgree columnEngine staffView employeeSchema)
      [[.utf8 "ana@acme.example", .boolean true, .int64 41]]
      [[.utf8 "dan@other.example", .boolean true, .int64 41]] := by
    refine .cons (fun i field hfield => ?_) .nil
    match i, hfield with
    | 0, rfl => exact ⟨rfl, fun _ => rfl⟩
    | 1, rfl => rfl
    | 2, rfl => rfl
  exact hrows

end Griot
