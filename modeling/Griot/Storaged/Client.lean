import Griot.Data.Json
import Griot.Lib.ByteStream

/-! The client of the storage daemon.

A read is one connection: a request goes out in a frame, a header comes back in a frame,
and behind the header the bytes. The header says how many they are; when it does not, as
many are read as were asked for. What was sent and which buffer was made on the way is part
of what a read comes to. -/
namespace Griot.Storaged

open Lib

/-- An I/O error as its text. -/
abbrev IoError := String

inductive StoragedError where
  | accessDenied (assetId reason : String)
  | rangeError (assetId : String) (offset length : UInt64)
  | socketUnreachable (path : String) (source : IoError)
  | protocol (message : String)
  | io (error : IoError)

/-! ### Wire types -/

structure ByteReadRequest where
  assetId : String
  offset : UInt64
  length : UInt64
  tenantId : String
  principalJwt : String

def ByteReadRequest.toJson (request : ByteReadRequest) : Json :=
  .object [("opcode", .string "0x30"), ("asset_id", .string request.assetId),
    ("offset", .integer request.offset.toNat), ("length", .integer request.length.toNat),
    ("tenant_id", .string request.tenantId), ("principal_jwt", .string request.principalJwt)]

/-- The positions a request asks for. -/
def ByteReadRequest.span (request : ByteReadRequest) : Span :=
  ⟨request.offset.toNat, request.offset.toNat + request.length.toNat⟩

structure ByteReadResponseHeader where
  error : Option String
  errorCode : Option String
  byteCount : Option UInt64

def ByteReadResponseHeader.ofJson (doc : Json) : Option ByteReadResponseHeader := do
  guard (doc.fits 3)
  let error ← doc.fieldOr 0 "error" (Json.asOption Json.asString) (some none)
  let errorCode ← doc.fieldOr 1 "error_code" (Json.asOption Json.asString) (some none)
  let byteCount ← doc.fieldOr 2 "byte_count" (Json.asOption fun count =>
    (count.asUnsigned 64).map UInt64.ofNat) (some none)
  return ⟨error, errorCode, byteCount⟩

/-! ### What a read comes to -/

inductive Panic where
  /-- capacity overflow -/
  | capacityOverflow
  /-- attempt to subtract with overflow -/
  | subtractOverflow
  /-- attempt to add with overflow -/
  | addOverflow

/-- How a call can fail: with an error that it returns, or by a panic. -/
inductive Fault (ε : Type) where
  | error (e : ε)
  | panic (panic : Panic)

structure Reading (ε α : Type) where
  requests : List ByteReadRequest
  /-- The sizes of the buffers made for the payload. -/
  buffers : List Nat
  outcome : Except (Fault ε) α

/-- What the client meets: the JSON library, and the daemon behind the socket. Serializing
a request to memory does not fail. -/
structure Outside where
  serde : SerdeJson
  /-- The text of a parse error. -/
  explain : Bytes → String
  connect : String → Except IoError Unit
  /-- What comes back when the bytes of a request are written. -/
  exchange : Bytes → Except IoError (ByteStream IoError)

/-- `isize::MAX`: no buffer is larger. -/
def isizeMax : Nat := 2 ^ 63 - 1

/-! ### The client -/

structure StoragedClient where
  socketPath : String

namespace StoragedClient
variable (outside : Outside)

def readHeader (reply : ByteStream IoError) :
    Except StoragedError (ByteReadResponseHeader × ByteStream IoError) :=
  match reply.readExact 4 with
  | .error e => .error (.io e)
  | .ok (headerLenBytes, reply) =>
    let headerLen := ofU32be headerLenBytes
    if headerLen = 0 ∨ 4 * 1024 * 1024 < headerLen then
      .error (.protocol s!"invalid response header length: {headerLen}")
    else match reply.readExact headerLen with
      | .error e => .error (.io e)
      | .ok (headerBytes, reply) =>
        match (outside.serde.fromSlice headerBytes).bind ByteReadResponseHeader.ofJson with
        | none => .error (.protocol
            s!"response header deserialization: {outside.explain headerBytes}")
        | some header => .ok (header, reply)

/-- The error a header reports. -/
def refusal (request : ByteReadRequest) (errorMsg : String) (errorCode : Option String) :
    StoragedError :=
  let code := errorCode.getD "UNKNOWN"
  if code = "ACCESS_DENIED" then .accessDenied request.assetId errorMsg
  else if code = "RANGE_ERROR" then
    .rangeError request.assetId request.offset request.length
  else .protocol s!"T04 error [{code}]: {errorMsg}"

/-- Everything up to the payload: how many bytes are to come, and the rest of the reply. -/
def announced (request : ByteReadRequest) :
    Except StoragedError (UInt64 × ByteStream IoError) :=
  match outside.exchange (frame (outside.serde.toVec request.toJson)) with
  | .error e => .error (.io e)
  | .ok reply => match readHeader outside reply with
    | .error e => .error e
    | .ok (header, reply) => match header.error with
      | some errorMsg => .error (refusal request errorMsg header.errorCode)
      | none => .ok (header.byteCount.getD request.length, reply)

def readBytes (client : StoragedClient) (request : ByteReadRequest) : Reading StoragedError Bytes :=
  match outside.connect client.socketPath with
  | .error e => ⟨[], [], .error (.error (.socketUnreachable client.socketPath e))⟩
  | .ok () => match announced outside request with
    | .error e => ⟨[request], [], .error (.error e)⟩
    | .ok (byteCount, reply) =>
      if isizeMax < byteCount.toNat then ⟨[request], [], .error (.panic .capacityOverflow)⟩
      else ⟨[request], [byteCount.toNat], match reply.readExact byteCount.toNat with
        | .error e => .error (.error (.io e))
        | .ok (payload, _) => .ok payload⟩

/-- The daemon takes a request and says how many bytes it is going to send. -/
def Announces (client : StoragedClient) (request : ByteReadRequest) (count : UInt64)
    (reply : ByteStream IoError) : Prop :=
  outside.connect client.socketPath = .ok () ∧ announced outside request = .ok (count, reply)

variable {outside} {client : StoragedClient} {request : ByteReadRequest}

/-- A header in its frame is read back. -/
theorem readHeader_frame {headerBytes : Bytes} {header : ByteReadResponseHeader}
    (hpos : headerBytes ≠ []) (hlen : headerBytes.length ≤ 4 * 1024 * 1024)
    (hheader : (outside.serde.fromSlice headerBytes).bind ByteReadResponseHeader.ofJson =
      some header) (rest : Bytes) (ending : IoError) :
    readHeader outside ⟨frame headerBytes ++ rest, ending⟩ = .ok (header, ⟨rest, ending⟩) := by
  have hne : headerBytes.length ≠ 0 := fun h => hpos (List.length_eq_zero_iff.mp h)
  have hread : ofU32be (u32be headerBytes.length) = headerBytes.length := ofU32be_u32be (by omega)
  rw [readHeader, frame, List.append_assoc, ByteStream.readExact_append (length_u32be _)]
  simp only [hread]
  rw [if_neg (by omega), ByteStream.readExact_append rfl]
  simp only [hheader]

theorem announces_unique {n n' : UInt64} {reply reply' : ByteStream IoError}
    (h : client.Announces outside request n reply)
    (h' : client.Announces outside request n' reply') : n = n' ∧ reply = reply' :=
  Prod.mk.inj (Except.ok.inj (h.2.symm.trans h'.2))

/-- Without an announcement a read fails, and no buffer is made. -/
theorem readBytes_refused (h : ∀ n reply, ¬client.Announces outside request n reply) :
    ∃ requests e, client.readBytes outside request = ⟨requests, [], .error (.error e)⟩ := by
  rw [readBytes]
  cases hconnect : outside.connect client.socketPath with
  | error e => exact ⟨_, _, rfl⟩
  | ok u =>
    cases hannounced : announced outside request with
    | error e => exact ⟨_, _, rfl⟩
    | ok answer => exact absurd ⟨hconnect, hannounced⟩ (h answer.1 answer.2)

/-- With one, the daemon's count decides: over the buffer that can be made, over the
buffer that is made, and over what is read. -/
theorem readBytes_announced {n : UInt64} {reply : ByteStream IoError}
    (h : client.Announces outside request n reply) :
    client.readBytes outside request =
      if isizeMax < n.toNat then ⟨[request], [], .error (.panic .capacityOverflow)⟩
      else ⟨[request], [n.toNat], if n.toNat ≤ reply.bytes.length then
        .ok (reply.bytes.take n.toNat) else .error (.error (.io reply.ending))⟩ := by
  simp only [readBytes, h.1, h.2]
  by_cases hcount : n.toNat ≤ reply.bytes.length
  · simp only [ByteStream.readExact, if_pos hcount]
  · simp only [ByteStream.readExact, if_neg hcount]

/-- What is read is the front of what follows the header. -/
theorem readBytes_ok {payload : Bytes} (h : (client.readBytes outside request).outcome = .ok payload) :
    ∃ n reply, client.Announces outside request n reply ∧ payload = reply.bytes.take n.toNat := by
  by_cases hannounced : ∃ n reply, client.Announces outside request n reply
  · obtain ⟨n, reply, hannounced⟩ := hannounced
    refine ⟨n, reply, hannounced, ?_⟩
    rw [readBytes_announced hannounced] at h
    split at h
    · cases h
    · by_cases hcomplete : n.toNat ≤ reply.bytes.length
      · rw [if_pos hcomplete] at h
        exact (Except.ok.inj h).symm
      · rw [if_neg hcomplete] at h
        cases h
  · obtain ⟨requests, e, hread⟩ :=
      readBytes_refused fun n reply h => hannounced ⟨n, reply, h⟩
    rw [hread] at h
    cases h

variable (outside client) in
/-- The daemon sends nothing but bytes of the asset that it is asked for. -/
def Faithful (asset : Bytes) : Prop :=
  ∀ request n reply, client.Announces outside request n reply →
    reply.bytes.take n.toNat <+: request.span.slice asset

end StoragedClient
end Griot.Storaged
