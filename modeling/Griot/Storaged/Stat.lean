import Griot.Storaged.ObjectStore

/-! Asking for the size of an asset, and opening a store.

The answer to a stat is one frame. It is first read as the description of an asset, and only
when it is none as the report of an error: an answer that is both is a success (`statAsset_iff`).
A store is opened with the size that a stat comes to, and never asks again. -/
namespace Griot.Storaged

open Lib

/-! ### Wire types -/

structure AssetStatRequest where
  assetId : String
  tenantId : String
  principalJwt : String

def AssetStatRequest.toJson (request : AssetStatRequest) : Json :=
  .object [("opcode", .string "0x31"), ("asset_id", .string request.assetId),
    ("tenant_id", .string request.tenantId), ("principal_jwt", .string request.principalJwt)]

structure AssetStatResponse where
  size : UInt64
  contentType : String
  formatVersion : String

def AssetStatResponse.ofJson (doc : Json) : Option AssetStatResponse := do
  guard (doc.fits 3)
  let size ← doc.fieldOr 0 "size" (fun size => (size.asUnsigned 64).map UInt64.ofNat) none
  let contentType ← doc.fieldOr 1 "content_type" Json.asString none
  let formatVersion ← doc.fieldOr 2 "format_version" Json.asString none
  return ⟨size, contentType, formatVersion⟩

/-- `value.get(name)`: of repeated members the last. -/
def member (name : String) : Json → Option Json
  | .object members => (Json.valuesOf name members).getLast?
  | _ => none

/-! ### One question, one frame -/

inductive CallError where
  | unreachable (source : IoError)
  | io (error : IoError)
  | length (length : Nat)

section Call
variable (outside : Outside) (path : String)

/-- A request goes out in a frame, and an answer within a limit comes back in one. -/
def call (limit : Nat) (request : Json) : Except CallError Bytes :=
  match outside.connect path with
  | .error e => .error (.unreachable e)
  | .ok () => match outside.exchange (frame (outside.serde.toVec request)) with
    | .error e => .error (.io e)
    | .ok reply => match reply.readFrame limit with
      | .error (.io e) => .error (.io e)
      | .error (.length n) => .error (.length n)
      | .ok (body, _) => .ok body

/-- What comes back for a request begins with the frame of a body. -/
structure Answers (request : Json) (body : Bytes) : Prop where
  connected : outside.connect path = .ok ()
  answered : ∃ rest ending,
    outside.exchange (frame (outside.serde.toVec request)) = .ok ⟨frame body ++ rest, ending⟩

variable {outside path}

theorem call_ok_iff {limit : Nat} (hlimit : limit < 2 ^ 32) {request : Json} {body : Bytes} :
    call outside path limit request = .ok body ↔
      (body ≠ [] ∧ body.length ≤ limit) ∧ Answers outside path request body := by
  constructor
  · intro h
    rw [call] at h
    split at h
    · cases h
    · rename_i hconnect
      split at h
      · cases h
      · rename_i reply hexchange
        split at h
        · cases h
        · cases h
        · rename_i found rest hframe
          obtain rfl := Except.ok.inj h
          obtain ⟨hfits, rfl⟩ := (ByteStream.readFrame_ok_iff hlimit).mp hframe
          exact ⟨hfits, hconnect, rest.bytes, rest.ending, hexchange⟩
  · intro h
    obtain ⟨hfits, hconnect, rest, ending, hexchange⟩ := h
    have hframe : ByteStream.readFrame limit ⟨frame body ++ rest, ending⟩ = .ok (body, ⟨rest, ending⟩) :=
      (ByteStream.readFrame_ok_iff hlimit).mpr ⟨hfits, rfl⟩
    simp only [call, hconnect, hexchange, hframe]

end Call

/-! ### The client -/

/-- What a stat meets besides: a reader of any JSON value, and the texts of its own errors. -/
structure Values where
  fromSlice : Bytes → Option Json
  explain : Bytes → String

namespace StoragedClient
variable (outside : Outside) (values : Values)

/-- The error that an answer reports. -/
def reported (respBytes : Bytes) : Option (String × String) := do
  let maybe ← values.fromSlice respBytes
  let errMsg ← (member "error" maybe).bind Json.asString
  return (errMsg, ((member "error_code" maybe).bind Json.asString).getD "UNKNOWN")

def statAsset (client : StoragedClient) (request : AssetStatRequest) :
    Except StoragedError AssetStatResponse :=
  match call outside client.socketPath 65536 request.toJson with
  | .error (.unreachable e) => .error (.socketUnreachable client.socketPath e)
  | .error (.io e) => .error (.io e)
  | .error (.length respLen) => .error (.protocol s!"invalid stat response length: {respLen}")
  | .ok respBytes => match (outside.serde.fromSlice respBytes).bind AssetStatResponse.ofJson with
    | some stat => .ok stat
    | none => match reported values respBytes with
      | some (errMsg, code) =>
        if code = "ACCESS_DENIED" then .error (.accessDenied request.assetId errMsg)
        else .error (.protocol s!"T04 stat error [{code}]: {errMsg}")
      | none => .error (.protocol s!"stat response deserialization: {values.explain respBytes}")

end StoragedClient

/-! ### The store -/

inductive LanceTableError where
  | storaged (error : StoragedError)
  | lanceOpen (message : String)
  | notLance (assetId contentType : String)

namespace StoragedObjectStore
variable (outside : Outside) (values : Values)

def new (assetId tenantId principalJwt storagedPath : String) :
    Except LanceTableError StoragedObjectStore :=
  let client : StoragedClient := ⟨storagedPath⟩
  match client.statAsset outside values ⟨assetId, tenantId, principalJwt⟩ with
  | .error e => .error (.storaged e)
  | .ok stat => .ok ⟨client, assetId, tenantId, principalJwt, stat.size⟩

variable (store : StoragedObjectStore)

/-- The size reported is that of what came. -/
def get (location : String) : Reading ObjectStoreError GetResult :=
  (store.client.readBytes outside (store.request 0 store.size)).andThen fun bytes =>
    .ok ⟨bytes, ⟨location, .ofNat bytes.length⟩, ⟨0, store.size⟩⟩

def head (location : String) : ObjectMeta := ⟨location, store.size⟩

end StoragedObjectStore

/-! ### What a stat comes to -/

namespace StoragedClient
variable {outside : Outside} {values : Values} {client : StoragedClient} {request : AssetStatRequest}

/-- An acceptable answer, and what is read in it. -/
structure Described (outside : Outside) (client : StoragedClient) (request : AssetStatRequest)
    (respBytes : Bytes) (stat : Option AssetStatResponse) : Prop where
  fits : respBytes ≠ [] ∧ respBytes.length ≤ 65536
  answers : Answers outside client.socketPath request.toJson respBytes
  document : (outside.serde.fromSlice respBytes).bind AssetStatResponse.ofJson = stat

/-- **When a stat succeeds, and when it is denied.** Errors in the description of an asset are
overlooked. -/
theorem statAsset_iff : (∀ stat, client.statAsset outside values request = .ok stat ↔
      ∃ respBytes, Described outside client request respBytes (some stat)) ∧
    ∀ assetId reason, client.statAsset outside values request = .error (.accessDenied assetId reason) ↔
      assetId = request.assetId ∧ ∃ respBytes, Described outside client request respBytes none ∧
        reported values respBytes = some (reason, "ACCESS_DENIED") := by
  cases hcall : call outside client.socketPath 65536 request.toJson with
  | error e =>
    have hnone : ∀ respBytes stat, ¬ Described outside client request respBytes stat := by
      intro respBytes stat h
      have hok := (call_ok_iff (by decide)).mpr ⟨h.fits, h.answers⟩
      cases hcall.symm.trans hok
    cases e <;> simp [statAsset, hcall, hnone]
  | ok respBytes =>
    obtain ⟨hfits, hanswers⟩ := (call_ok_iff (by decide)).mp hcall
    have hdescribed : ∀ respBytes' stat, Described outside client request respBytes' stat ↔
        respBytes' = respBytes ∧
          (outside.serde.fromSlice respBytes).bind AssetStatResponse.ofJson = stat := by
      intro respBytes' stat
      constructor
      · intro h
        have hsame := Except.ok.inj (hcall.symm.trans ((call_ok_iff (by decide)).mpr ⟨h.fits, h.answers⟩))
        subst hsame
        exact ⟨rfl, h.document⟩
      · intro h
        obtain ⟨rfl, hstat⟩ := h
        exact ⟨hfits, hanswers, hstat⟩
    simp only [hdescribed, exists_eq_left, and_assoc, statAsset, hcall]
    cases hstat : (outside.serde.fromSlice respBytes).bind AssetStatResponse.ofJson with
    | some stat => simp
    | none =>
      cases hreported : reported values respBytes with
      | none => simp
      | some error =>
        obtain ⟨errMsg, code⟩ := error
        by_cases hcode : code = "ACCESS_DENIED" <;> simp [hcode, and_comm, eq_comm]

end StoragedClient
end Griot.Storaged
