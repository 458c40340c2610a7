import Griot.Storaged.Stat

/-! The client of the notary that signs attestations.

A request for a signature is answered by one frame. It is a signature if it reads as one that is
not empty, whatever else it says, and otherwise a refusal if it reads as one
(`signEnvelope_iff`). -/
namespace Griot.T05

open Lib Storaged

/-! ### Wire types -/

structure SignEnvelopeRequest where
  /-- The canonical JSON of the envelope without its signature. -/
  envelopeJson : String
  engineVersion : String
  tenantId : String
  correlationId : String

def SignEnvelopeRequest.toJson (request : SignEnvelopeRequest) : Json :=
  .object [("opcode", .string "0x42"), ("envelope_json", .string request.envelopeJson),
    ("engine_version", .string request.engineVersion), ("tenant_id", .string request.tenantId),
    ("correlation_id", .string request.correlationId)]

structure SignEnvelopeResponse where
  jws : String
  kid : String

def SignEnvelopeResponse.ofJson (doc : Json) : Option SignEnvelopeResponse := do
  guard (doc.fits 2)
  let jws ← doc.fieldOr 0 "jws" Json.asString none
  let kid ← doc.fieldOr 1 "kid" Json.asString none
  return ⟨jws, kid⟩

structure T05ErrorFrame where
  error : String
  errorCode : Option String

def T05ErrorFrame.ofJson (doc : Json) : Option T05ErrorFrame := do
  guard (doc.fits 2)
  let error ← doc.fieldOr 0 "error" Json.asString none
  let errorCode ← doc.fieldOr 1 "error_code" (Json.asOption Json.asString) (some none)
  return ⟨error, errorCode⟩

inductive T05Error where
  | signingRefused (reason : String)
  | socketUnreachable (path : String) (source : IoError)
  | protocol (message : String)
  | io (error : IoError)
  | serialization (message : String)

/-! ### The client -/

structure T05Client where
  socketPath : String

namespace T05Client
variable (outside : Outside)

def signEnvelope (client : T05Client) (request : SignEnvelopeRequest) :
    Except T05Error SignEnvelopeResponse :=
  match call outside client.socketPath (1024 * 1024) request.toJson with
  | .error (.unreachable e) => .error (.socketUnreachable client.socketPath e)
  | .error (.io e) => .error (.io e)
  | .error (.length respLen) => .error (.protocol s!"invalid T05 response length: {respLen}")
  | .ok respBytes =>
    match (outside.serde.fromSlice respBytes).bind SignEnvelopeResponse.ofJson with
    | some success => if success.jws.isEmpty then refused respBytes else .ok success
    | none => refused respBytes
where
  refused (respBytes : Bytes) : Except T05Error SignEnvelopeResponse :=
    match (outside.serde.fromSlice respBytes).bind T05ErrorFrame.ofJson with
    | some frame => .error (.signingRefused frame.error)
    | none => .error (.protocol s!"T05 response deserialization failed: {outside.explain respBytes}")

variable {outside} {client : T05Client} {request : SignEnvelopeRequest}

/-- An acceptable answer. -/
structure Answered (outside : Outside) (client : T05Client) (request : SignEnvelopeRequest)
    (respBytes : Bytes) : Prop where
  fits : respBytes ≠ [] ∧ respBytes.length ≤ 1024 * 1024
  answers : Answers outside client.socketPath request.toJson respBytes

/-- The signature that an answer carries. -/
def signature (outside : Outside) (respBytes : Bytes) : Option SignEnvelopeResponse :=
  ((outside.serde.fromSlice respBytes).bind SignEnvelopeResponse.ofJson).filter fun r => !r.jws.isEmpty

theorem signEnvelope_answered {respBytes : Bytes} (h : Answered outside client request respBytes) :
    client.signEnvelope outside request = match signature outside respBytes with
      | some response => .ok response
      | none => signEnvelope.refused outside respBytes := by
  have hcall := (call_ok_iff (by decide)).mpr ⟨h.fits, h.answers⟩
  simp only [signEnvelope, hcall, signature]
  cases (outside.serde.fromSlice respBytes).bind SignEnvelopeResponse.ofJson with
  | none => rfl
  | some success => cases hempty : success.jws.isEmpty <;> simp [Option.filter, hempty]

/-- Without an acceptable answer nothing is signed and nothing refused. -/
theorem signEnvelope_unanswered (h : ∀ respBytes, ¬ Answered outside client request respBytes) :
    ∃ e, client.signEnvelope outside request = .error e ∧ ∀ reason, e ≠ .signingRefused reason := by
  rw [signEnvelope]
  cases hcall : call outside client.socketPath (1024 * 1024) request.toJson with
  | ok respBytes =>
    obtain ⟨hfits, hanswers⟩ := (call_ok_iff (by decide)).mp hcall
    exact absurd ⟨hfits, hanswers⟩ (h respBytes)
  | error e => cases e <;> exact ⟨_, rfl, by simp⟩

/-- **When an envelope is signed, and when it is refused.** What comes back is never empty, and a
refusal is only read in an answer without a signature. -/
theorem signEnvelope_iff : (∀ response, client.signEnvelope outside request = .ok response ↔
      ∃ respBytes, Answered outside client request respBytes ∧
        signature outside respBytes = some response) ∧
    ∀ reason, client.signEnvelope outside request = .error (.signingRefused reason) ↔
      ∃ respBytes frame, Answered outside client request respBytes ∧
        signature outside respBytes = none ∧
        (outside.serde.fromSlice respBytes).bind T05ErrorFrame.ofJson = some frame ∧
        frame.error = reason := by
  by_cases hanswered : ∃ respBytes, Answered outside client request respBytes
  · obtain ⟨respBytes, h⟩ := hanswered
    have honly : ∀ respBytes', Answered outside client request respBytes' ↔ respBytes' = respBytes := by
      intro respBytes'
      refine ⟨fun h' => ?_, fun hsame => hsame ▸ h⟩
      have hcall := (call_ok_iff (by decide)).mpr ⟨h.fits, h.answers⟩
      exact Except.ok.inj (((call_ok_iff (by decide)).mpr ⟨h'.fits, h'.answers⟩).symm.trans hcall)
    simp only [honly, exists_and_left, exists_eq_left, signEnvelope_answered h]
    cases hsignature : signature outside respBytes with
    | some response => simp
    | none =>
      simp only [signEnvelope.refused]
      cases (outside.serde.fromSlice respBytes).bind T05ErrorFrame.ofJson <;> simp
  · obtain ⟨e, herror, hother⟩ := signEnvelope_unanswered (not_exists.mp hanswered)
    have hnone := not_exists.mp hanswered
    simp [herror, hnone, hother]

end T05Client
end Griot.T05
