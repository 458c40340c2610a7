import Griot.Storaged.RangedRead
import Griot.Storaged.Stat
import Mathlib.Tactic.IntervalCases

/-! A daemon that serves an asset.

From a daemon that describes an asset and sends what it is asked for, a store can be opened,
and whatever is read through it within the asset is what is there (`store_serves`); chunk by
chunk it is read whole. -/
namespace Griot.Storaged

open Lib

namespace StoragedClient
variable {outside : Outside} {client : StoragedClient} {request : ByteReadRequest}

/-- The header is the body of a frame. -/
theorem readHeader_eq (reply : ByteStream IoError) : readHeader outside reply =
    match reply.readFrame (4 * 1024 * 1024) with
    | .error (.io e) => .error (.io e)
    | .error (.length headerLen) => .error (.protocol s!"invalid response header length: {headerLen}")
    | .ok (headerBytes, reply) =>
      match (outside.serde.fromSlice headerBytes).bind ByteReadResponseHeader.ofJson with
      | none => .error (.protocol s!"response header deserialization: {outside.explain headerBytes}")
      | some header => .ok (header, reply) := by
  rw [readHeader, ByteStream.readFrame]
  cases reply.readExact 4 with
  | error e => rfl
  | ok read =>
    obtain ⟨lenBytes, behind⟩ := read
    simp only
    split
    · rfl
    · cases behind.readExact (ofU32be lenBytes) <;> rfl

theorem readHeader_ok_iff {reply rest : ByteStream IoError} {header : ByteReadResponseHeader} :
    readHeader outside reply = .ok (header, rest) ↔ ∃ headerBytes,
      (headerBytes ≠ [] ∧ headerBytes.length ≤ 4 * 1024 * 1024) ∧
      reply = ⟨frame headerBytes ++ rest.bytes, rest.ending⟩ ∧
      (outside.serde.fromSlice headerBytes).bind ByteReadResponseHeader.ofJson = some header := by
  constructor
  · intro h
    rw [readHeader_eq] at h
    split at h
    · cases h
    · cases h
    · rename_i headerBytes behind hframe
      split at h
      · cases h
      · rename_i found hheader
        obtain ⟨rfl, rfl⟩ := Prod.mk.inj (Except.ok.inj h)
        obtain ⟨hfits, hreply⟩ := (ByteStream.readFrame_ok_iff (by decide)).mp hframe
        exact ⟨headerBytes, hfits, hreply, hheader⟩
  · intro h
    obtain ⟨headerBytes, ⟨hne, hle⟩, rfl, hheader⟩ := h
    exact readHeader_frame hne hle hheader rest.bytes rest.ending

/-- The answer to a read: a header that reports no error, and a count. -/
structure Sends (outside : Outside) (client : StoragedClient) (request : ByteReadRequest)
    (count : UInt64) (rest : ByteStream IoError) : Prop where
  connected : outside.connect client.socketPath = .ok ()
  answered : ∃ headerBytes header, (headerBytes ≠ [] ∧ headerBytes.length ≤ 4 * 1024 * 1024) ∧
    (outside.serde.fromSlice headerBytes).bind ByteReadResponseHeader.ofJson = some header ∧
    header.error = none ∧ header.byteCount.getD request.length = count ∧
    outside.exchange (frame (outside.serde.toVec request.toJson)) =
      .ok ⟨frame headerBytes ++ rest.bytes, rest.ending⟩

theorem announces_iff {count : UInt64} {rest : ByteStream IoError} :
    client.Announces outside request count rest ↔ Sends outside client request count rest := by
  constructor
  · intro h
    obtain ⟨hconnect, hannounced⟩ := h
    refine ⟨hconnect, ?_⟩
    rw [announced] at hannounced
    split at hannounced
    · cases hannounced
    · rename_i reply hexchange
      split at hannounced
      · cases hannounced
      · rename_i header behind hheader
        split at hannounced
        · cases hannounced
        · rename_i herror
          obtain ⟨hcount, rfl⟩ := Prod.mk.inj (Except.ok.inj hannounced)
          obtain ⟨headerBytes, hfits, rfl, hdocument⟩ := readHeader_ok_iff.mp hheader
          exact ⟨headerBytes, header, hfits, hdocument, herror, hcount, hexchange⟩
  · intro h
    obtain ⟨hconnect, headerBytes, header, hfits, hdocument, herror, hcount, hexchange⟩ := h
    refine ⟨hconnect, ?_⟩
    have hheader := readHeader_frame hfits.1 hfits.2 hdocument rest.bytes rest.ending
    simp only [announced, hexchange, hheader, herror, hcount]

/-- **When a read succeeds**: its payload is what follows an acceptable header, as many bytes as
the header says and no more than a buffer can hold. -/
theorem readBytes_ok_iff {payload : Bytes} :
    (client.readBytes outside request).outcome = .ok payload ↔ payload.length ≤ isizeMax ∧
      ∃ count rest ending, Sends outside client request count ⟨payload ++ rest, ending⟩ ∧
        count.toNat = payload.length := by
  constructor
  · intro h
    obtain ⟨count, reply, hannounces, rfl⟩ := readBytes_ok h
    rw [readBytes_announced hannounces] at h
    split at h
    · cases h
    · rename_i hcapacity
      by_cases hcomplete : count.toNat ≤ reply.bytes.length
      · rw [List.length_take_of_le hcomplete]
        refine ⟨Nat.not_lt.mp hcapacity, count, reply.bytes.drop count.toNat, reply.ending, ?_, rfl⟩
        rw [List.take_append_drop]
        exact announces_iff.mp hannounces
      · rw [if_neg hcomplete] at h
        cases h
  · intro h
    obtain ⟨hcapacity, count, rest, ending, hsends, hcount⟩ := h
    rw [readBytes_announced (announces_iff.mpr hsends), hcount, if_neg (Nat.not_lt.mpr hcapacity)]
    simp

end StoragedClient

/-! ### Serving -/

/-- What a daemon owes for an asset. -/
structure Serves (outside : Outside) (path assetId tenantId principalJwt : String) (asset : Bytes) :
    Prop where
  describes : ∃ respBytes stat, StoragedClient.Described outside ⟨path⟩ ⟨assetId, tenantId, principalJwt⟩
    respBytes (some stat) ∧ stat.size.toNat = asset.length
  sends : ∀ offset length : UInt64, offset.toNat + length.toNat ≤ asset.length → ∃ rest ending,
    StoragedClient.Sends outside ⟨path⟩ ⟨assetId, offset, length, tenantId, principalJwt⟩ length
      ⟨(Span.mk offset.toNat (offset.toNat + length.toNat)).slice asset ++ rest, ending⟩

/-- Ranges one behind the other, from one position to another. -/
inductive Tiles : Nat → Nat → List Range → Prop
  | nil (a : Nat) : Tiles a a []
  | cons {range : Range} {ranges : List Range} {c : Nat} (h : range.start < range.stop)
      (htiles : Tiles range.stop.toNat c ranges) : Tiles range.start.toNat c (range :: ranges)

/-- What a store owes that reads an asset. -/
structure Reads (outside : Outside) (store : StoragedObjectStore) (asset : Bytes) : Prop where
  size : store.size.toNat = asset.length
  getOpts : ∀ overflowChecks location (range : GetRange), range.Within asset.length → ∃ result,
    (store.getOpts outside overflowChecks location ⟨some range⟩).outcome = .ok result ∧
      result.payload = (range.asked asset.length).slice asset ∧
      result.range.span = range.asked asset.length ∧ result.objectMeta = store.head location
  whole : ∀ overflowChecks location, ∃ range, range.span = ⟨0, asset.length⟩ ∧
    (store.getOpts outside overflowChecks location ⟨none⟩).outcome =
      .ok ⟨asset, store.head location, range⟩ ∧
    (store.get outside location).outcome = .ok ⟨asset, store.head location, range⟩
  chunks : ∀ overflowChecks a c ranges, Tiles a c ranges → c ≤ asset.length → ∃ parts : List Bytes,
    ranges.mapM (fun range => (store.getRange outside overflowChecks range).outcome) = .ok parts ∧
      parts.flatten = (Span.mk a c).slice asset

theorem Tiles.le {a c : Nat} {ranges : List Range} (h : Tiles a c ranges) : a ≤ c := by
  induction h with
  | nil a => exact le_rfl
  | cons hrange _ ih => exact (Nat.le_of_lt (UInt64.lt_iff_toNat_lt.mp hrange)).trans ih

theorem GetRange.Within.not_reversed {range : GetRange} {size : Nat} (h : range.Within size) :
    ¬ range.Reversed := by
  cases range with
  | bounded range =>
    obtain ⟨hlt, -⟩ := h
    exact fun hreversed => absurd (UInt64.lt_iff_toNat_lt.mp hreversed) (by omega)
  | offset start | suffix count => exact id

theorem GetRange.Within.stop_le {range : GetRange} {size : Nat} (h : range.Within size) :
    (range.asked size).stop ≤ size := by
  cases range with
  | bounded range => exact h.2
  | offset start =>
    have hlt : start.toNat < size := h
    simp only [GetRange.asked]
    omega
  | suffix count =>
    have hle : count.toNat ≤ size := h
    simp only [GetRange.asked]
    omega

theorem Reading.andThen_ok {α β : Type} {reading : Reading StoragedError α} {a : α}
    (h : reading.outcome = .ok a) (f : α → Except (Fault ObjectStoreError) β) :
    (reading.andThen f).outcome = f a := by
  simp only [Reading.andThen, h]

namespace Serves
variable {outside : Outside} {path assetId tenantId principalJwt : String} {asset : Bytes}
  {size : UInt64}

/-- **One read** of positions of the asset. -/
theorem readBytes (h : Serves outside path assetId tenantId principalJwt asset)
    (hcapacity : asset.length ≤ isizeMax) {offset length : UInt64}
    (hwithin : offset.toNat + length.toNat ≤ asset.length) :
    (StoragedClient.readBytes outside ⟨path⟩ ⟨assetId, offset, length, tenantId, principalJwt⟩).outcome =
      .ok ((Span.mk offset.toNat (offset.toNat + length.toNat)).slice asset) := by
  have hlength : ((Span.mk offset.toNat (offset.toNat + length.toNat)).slice asset).length =
      length.toNat := by
    simp only [Span.length_slice, Span.clip, Span.length]
    omega
  obtain ⟨rest, ending, hsends⟩ := h.sends offset length hwithin
  exact StoragedClient.readBytes_ok_iff.mpr ⟨by omega, length, rest, ending, hsends, hlength.symm⟩

/-- The store of the asset. -/
abbrev store (path assetId tenantId principalJwt : String) (size : UInt64) : StoragedObjectStore :=
  ⟨⟨path⟩, assetId, tenantId, principalJwt, size⟩

/-- The read of a range that lies within the asset. -/
theorem requested (h : Serves outside path assetId tenantId principalJwt asset)
    (hcapacity : asset.length ≤ isizeMax) (hsize : size.toNat = asset.length) {range : GetRange}
    (hwithin : range.Within asset.length) :
    ((store path assetId tenantId principalJwt size).client.readBytes outside
      ((store path assetId tenantId principalJwt size).requestFor range)).outcome =
        .ok ((range.asked asset.length).slice asset) := by
  let s := store path assetId tenantId principalJwt size
  have hspan : (s.requestFor range).span = range.asked s.size.toNat :=
    StoragedObjectStore.span_requestFor hwithin.not_reversed
  have hasked : range.asked s.size.toNat = range.asked asset.length := congrArg range.asked hsize
  rw [hasked] at hspan
  have hstop : (s.requestFor range).offset.toNat + (s.requestFor range).length.toNat =
      (range.asked asset.length).stop := congrArg Span.stop hspan
  have hread := h.readBytes hcapacity (hstop.trans_le hwithin.stop_le)
  rw [← hspan]
  exact hread

theorem getRange_ok (h : Serves outside path assetId tenantId principalJwt asset)
    (hcapacity : asset.length ≤ isizeMax) (hsize : size.toNat = asset.length) (overflowChecks : Bool)
    {range : Range} (hwithin : (GetRange.bounded range).Within asset.length) :
    ((store path assetId tenantId principalJwt size).getRange outside overflowChecks range).outcome =
      .ok (range.span.slice asset) := by
  rw [StoragedObjectStore.getRange_eq overflowChecks hwithin.not_reversed,
    Reading.andThen_ok (h.requested hcapacity hsize hwithin)]
  rfl

/-- Chunk by chunk. -/
theorem getRange_tiles (h : Serves outside path assetId tenantId principalJwt asset)
    (hcapacity : asset.length ≤ isizeMax) (hsize : size.toNat = asset.length) (overflowChecks : Bool)
    {a c : Nat} {ranges : List Range} (htiles : Tiles a c ranges) (hc : c ≤ asset.length) :
    ∃ parts : List Bytes, ranges.mapM (fun range =>
        ((store path assetId tenantId principalJwt size).getRange outside overflowChecks range).outcome) =
          .ok parts ∧ parts.flatten = (Span.mk a c).slice asset := by
  induction htiles with
  | nil a => exact ⟨[], rfl, by simp [Span.slice, Span.length]⟩
  | @cons range ranges c hrange htiles ih =>
    obtain ⟨parts, hparts, hflatten⟩ := ih hc
    have hlt := UInt64.lt_iff_toNat_lt.mp hrange
    have hwithin : (GetRange.bounded range).Within asset.length := ⟨hlt, htiles.le.trans hc⟩
    refine ⟨range.span.slice asset :: parts, ?_, ?_⟩
    · rw [List.mapM_cons, h.getRange_ok hcapacity hsize overflowChecks hwithin, hparts]
      rfl
    · rw [List.flatten_cons, hflatten]
      exact Span.slice_append asset (Nat.le_of_lt hlt) htiles.le

theorem reads (h : Serves outside path assetId tenantId principalJwt asset)
    (hcapacity : asset.length ≤ isizeMax) (hsize : size.toNat = asset.length) :
    Reads outside (store path assetId tenantId principalJwt size) asset where
  size := hsize
  getOpts overflowChecks location range hwithin := by
    let s := store path assetId tenantId principalJwt size
    have hspan : Range.span ⟨(s.requestFor range).offset,
        (s.requestFor range).offset + (s.requestFor range).length⟩ = range.asked s.size.toNat :=
      StoragedObjectStore.span_reported hwithin.not_reversed
    have hasked : range.asked s.size.toNat = range.asked asset.length := congrArg range.asked hsize
    rw [StoragedObjectStore.getOpts_eq overflowChecks location hwithin.not_reversed,
      Reading.andThen_ok (h.requested hcapacity hsize hwithin)]
    exact ⟨_, rfl, rfl, hspan.trans hasked, rfl⟩
  whole overflowChecks location := by
    let s := store path assetId tenantId principalJwt size
    have hall : (Span.mk 0 (0 + size.toNat)).slice asset = asset := by
      rw [Nat.zero_add, hsize, Span.slice_all]
    have hread : (s.client.readBytes outside (s.request 0 s.size)).outcome = .ok asset :=
      (h.readBytes hcapacity (by simp [s, hsize])).trans (congrArg Except.ok hall)
    have hsum : checkedAdd (ε := ObjectStoreError) overflowChecks 0 s.size = .ok s.size := by
      rw [checkedAdd_ok overflowChecks (by simpa using s.size.toNat_lt), UInt64.zero_add]
    have hlength : UInt64.ofNat asset.length = s.size := by
      rw [← hsize, UInt64.ofNat_toNat]
    refine ⟨⟨0, s.size⟩, by simp [Range.span, s, hsize], ?_, ?_⟩
    · have hwhole : s.offsetAndLength overflowChecks none = .ok (0, s.size) := rfl
      rw [StoragedObjectStore.getOpts, hwhole]
      simp only
      rw [Reading.andThen_ok hread, hsum]
      rfl
    · rw [StoragedObjectStore.get, Reading.andThen_ok hread, hlength]
      rfl
  chunks overflowChecks a c ranges htiles hc := h.getRange_tiles hcapacity hsize overflowChecks htiles hc

/-- **A store that is served can be opened, and reads the asset**: every range within it, the
whole of it, and chunks of it one behind the other. -/
theorem store_serves (values : Values) (h : Serves outside path assetId tenantId principalJwt asset)
    (hcapacity : asset.length ≤ isizeMax) : ∃ store,
    StoragedObjectStore.new outside values assetId tenantId principalJwt path = .ok store ∧
      Reads outside store asset := by
  obtain ⟨respBytes, stat, hdescribed, hsize⟩ := h.describes
  have hstat : StoragedClient.statAsset outside values ⟨path⟩ ⟨assetId, tenantId, principalJwt⟩ = .ok stat :=
    (StoragedClient.statAsset_iff.1 stat).mpr ⟨respBytes, hdescribed⟩
  refine ⟨store path assetId tenantId principalJwt stat.size, ?_, h.reads hcapacity hsize⟩
  simp only [StoragedObjectStore.new, hstat]

end Serves

/-! ### A daemon that reads its requests

An asset of four bytes. The daemon takes the body out of the frame that it is sent, reads the
document in it, and answers a stat with the description and a read with the bytes between
`offset` and `offset + length`; past the end it reports an error. -/

def fourBytes : Bytes := [76, 78, 67, 50]

def fourStat : AssetStatRequest := ⟨"asset-1", "acme", "jwt"⟩

def fourRead (offset length : Nat) : ByteReadRequest :=
  ⟨"asset-1", .ofNat offset, .ofNat length, "acme", "jwt"⟩

def description : Json :=
  .object [("size", .integer 4), ("content_type", .string "application/x-lance"),
    ("format_version", .string "2")]

def countHeader (count : Nat) : Json := .object [("byte_count", .integer count)]

def rangeHeader : Json :=
  .object [("error", .string "range past the end"), ("error_code", .string "RANGE_ERROR")]

def quoted (s : String) : Bytes := utf8 "\"" ++ utf8 s ++ utf8 "\""

/-- `to_vec` of an object of unsigned numbers and of strings without escapes. -/
def jsonText : Json → Bytes
  | .object members => utf8 "\x7b" ++
      (utf8 ",").intercalate (members.map fun m => quoted m.1 ++ utf8 ":" ++ value m.2) ++ utf8 "\x7d"
  | _ => utf8 "null"
where
  value : Json → Bytes
    | .integer n => (Nat.toDigits 10 n.toNat).flatMap String.utf8EncodeChar
    | .string s => quoted s
    | _ => utf8 "null"

/-- Every document that a client of the asset and its daemon exchange. -/
def fourDocuments : List Json :=
  [fourStat.toJson, description, rangeHeader] ++ (List.range 5).map countHeader ++
    (List.range 5).flatMap fun offset => (List.range (5 - offset)).map fun length =>
      (fourRead offset length).toJson

def fourSerde : SerdeJson where
  fromSlice := fun bytes => fourDocuments.find? fun doc => jsonText doc = bytes
  toVec := jsonText
  fromSlice_nil := by decide +kernel

/-- What the daemon sends for a request. -/
def fourAnswer (request : Json) : Bytes :=
  match (member "opcode" request).bind Json.asString,
      (member "offset" request).bind (Json.asUnsigned 64),
      (member "length" request).bind (Json.asUnsigned 64) with
  | some "0x30", some offset, some length =>
    if offset + length ≤ fourBytes.length then
      frame (jsonText (countHeader length)) ++ (Span.mk offset (offset + length)).slice fourBytes
    else frame (jsonText rangeHeader)
  | some "0x31", _, _ => frame (jsonText description)
  | _, _, _ => []

/-- What it sends for the bytes of a connection. -/
def fourReply (bytes : Bytes) : Bytes :=
  match ByteStream.readFrame 65536 (⟨bytes, "early eof"⟩ : ByteStream IoError) with
  | .error _ => []
  | .ok (body, _) => ((fourSerde.fromSlice body).map fourAnswer).getD []

def fourDaemon : Outside where
  serde := fourSerde
  explain := fun _ => "expected value"
  connect := fun _ => .ok ()
  exchange := fun bytes => .ok ⟨fourReply bytes, "early eof"⟩

theorem fourDaemon_exchange (request : Json) :
    fourDaemon.exchange (frame (fourDaemon.serde.toVec request)) =
      .ok ⟨fourReply (frame (jsonText request)), "early eof"⟩ :=
  rfl

def fourValues : Values := ⟨fourSerde.fromSlice, fun _ => "expected value"⟩

theorem fourReply_read {offset : Nat} (hoffset : offset < 5) : ∀ length < 5, offset + length ≤ 4 →
    fourReply (frame (jsonText (fourRead offset length).toJson)) =
      frame (jsonText (countHeader length)) ++ (Span.mk offset (offset + length)).slice fourBytes := by
  interval_cases offset <;> decide +kernel

theorem countHeader_read : ∀ count < 5, jsonText (countHeader count) ≠ [] ∧
    (jsonText (countHeader count)).length ≤ 4 * 1024 * 1024 ∧
    ((fourSerde.fromSlice (jsonText (countHeader count))).bind ByteReadResponseHeader.ofJson).map
      (fun header => (header.error, header.byteCount)) = some (none, some (.ofNat count)) := by
  decide +kernel

theorem fourDaemon_serves : Serves fourDaemon "/run/griot/t04.sock" "asset-1" "acme" "jwt" fourBytes where
  describes := by
    have hread : fourReply (frame (jsonText fourStat.toJson)) = frame (jsonText description) := by
      decide +kernel
    have hdocument : ((fourSerde.fromSlice (jsonText description)).bind AssetStatResponse.ofJson).map
        (fun stat => (stat.size, stat.contentType)) = some (4, "application/x-lance") := by
      decide +kernel
    obtain ⟨stat, hstat, hsize⟩ := Option.map_eq_some_iff.mp hdocument
    obtain ⟨hfour, -⟩ := Prod.mk.inj hsize
    refine ⟨jsonText description, stat, ⟨by decide +kernel, ⟨rfl, [], "early eof", ?_⟩, hstat⟩, ?_⟩
    · rw [← hread, List.append_nil]
      exact fourDaemon_exchange fourStat.toJson
    · rw [hfour]
      rfl
  sends offset length hwithin := by
    have hle : offset.toNat + length.toNat ≤ 4 := hwithin
    obtain ⟨hne, hlimit, hheader⟩ := countHeader_read length.toNat (by omega)
    obtain ⟨header, hheader, hfields⟩ := Option.map_eq_some_iff.mp hheader
    obtain ⟨herror, hcount⟩ := Prod.mk.inj hfields
    have hread := fourReply_read (show offset.toNat < 5 by omega) length.toNat (by omega) hle
    simp only [fourRead, UInt64.ofNat_toNat] at hread
    refine ⟨[], "early eof", rfl, jsonText (countHeader length.toNat), header, ⟨hne, hlimit⟩, hheader,
      herror, ?_, ?_⟩
    · rw [hcount, UInt64.ofNat_toNat]
      rfl
    · rw [fourDaemon_exchange, hread, List.append_nil]

theorem store_serves_four : ∃ store,
    StoragedObjectStore.new fourDaemon fourValues "asset-1" "acme" "jwt" "/run/griot/t04.sock" = .ok store ∧
      Reads fourDaemon store fourBytes :=
  Serves.store_serves fourValues fourDaemon_serves (by decide)

end Griot.Storaged
