import Griot.Storaged.Client

/-! The object store over the storage daemon.

A range is turned into an offset and a length, and what comes back is handed on. Sizes
and offsets are 64-bit words; a build with overflow checks panics where a difference or a
sum leaves them, one without goes on with what is left of it. -/
namespace Griot.Storaged

open Lib

/-! ### Words -/

/-- `a.saturating_sub(b)` -/
def saturatingSub (a b : UInt64) : UInt64 := if b ≤ a then a - b else 0

/-- `a - b` -/
def checkedSub {ε : Type} (overflowChecks : Bool) (a b : UInt64) : Except (Fault ε) UInt64 :=
  if overflowChecks ∧ a < b then .error (.panic .subtractOverflow) else .ok (a - b)

/-- `a + b` -/
def checkedAdd {ε : Type} (overflowChecks : Bool) (a b : UInt64) : Except (Fault ε) UInt64 :=
  if overflowChecks ∧ 2 ^ 64 ≤ a.toNat + b.toNat then .error (.panic .addOverflow)
  else .ok (a + b)

theorem toNat_ofNat {n : Nat} (h : n < 2 ^ 64) : (UInt64.ofNat n).toNat = n :=
  UInt64.toNat_ofNat_of_lt' h

theorem toNat_saturatingSub (a b : UInt64) :
    (saturatingSub a b).toNat = a.toNat - b.toNat := by
  rw [saturatingSub]
  split
  · rename_i hle
    exact UInt64.toNat_sub_of_le a b hle
  · rename_i hlt
    rw [UInt64.not_le, UInt64.lt_iff_toNat_lt] at hlt
    simp
    omega

theorem checkedSub_ok {ε : Type} (overflowChecks : Bool) {a b : UInt64} (h : b ≤ a) :
    checkedSub (ε := ε) overflowChecks a b = .ok (a - b) := by
  rw [checkedSub, if_neg fun hlt => UInt64.not_lt.mpr h hlt.2]

theorem checkedAdd_ok {ε : Type} (overflowChecks : Bool) {a b : UInt64}
    (h : a.toNat + b.toNat < 2 ^ 64) : checkedAdd (ε := ε) overflowChecks a b = .ok (a + b) := by
  rw [checkedAdd, if_neg fun hle => absurd hle.2 (Nat.not_le.mpr h)]

/-! ### Ranges -/

/-- `Range<usize>` -/
structure Range where
  start : UInt64
  stop : UInt64

def Range.span (range : Range) : Span := ⟨range.start.toNat, range.stop.toNat⟩

inductive GetRange where
  | bounded (range : Range)
  | offset (start : UInt64)
  | suffix (count : UInt64)

/-- `GetRange::as_range` of the object store library: the part of an object that is meant,
unless the range is empty or starts behind the object. -/
def GetRange.asRange (len : Nat) : GetRange → Option Span
  | .bounded range =>
    if range.stop ≤ range.start ∨ len ≤ range.start.toNat then none
    else some ⟨range.start.toNat, min range.stop.toNat len⟩
  | .offset start => if len ≤ start.toNat then none else some ⟨start.toNat, len⟩
  | .suffix count => some ⟨len - count.toNat, len⟩

structure GetOptions where
  range : Option GetRange

structure ObjectMeta where
  location : String
  size : UInt64

structure GetResult where
  payload : Bytes
  objectMeta : ObjectMeta
  range : Range

inductive ObjectStoreError where
  | generic (store : String) (source : StoragedError)

/-! ### The store -/

structure StoragedObjectStore where
  client : StoragedClient
  assetId : String
  tenantId : String
  principalJwt : String
  /-- The size the daemon reported when the store was opened. -/
  size : UInt64

/-- A read whose errors are the store's, and what is made of its payload. -/
def Reading.andThen {α β : Type} (reading : Reading StoragedError α)
    (f : α → Except (Fault ObjectStoreError) β) : Reading ObjectStoreError β :=
  ⟨reading.requests, reading.buffers, match reading.outcome with
    | .error (.error e) => .error (.error (.generic "StoragedObjectStore" e))
    | .error (.panic panic) => .error (.panic panic)
    | .ok a => f a⟩

namespace StoragedObjectStore
variable (outside : Outside) (overflowChecks : Bool) (store : StoragedObjectStore)

def request (offset length : UInt64) : ByteReadRequest :=
  ⟨store.assetId, offset, length, store.tenantId, store.principalJwt⟩

def offsetAndLength : Option GetRange → Except (Fault ObjectStoreError) (UInt64 × UInt64)
  | some (.bounded range) =>
    (checkedSub overflowChecks range.stop range.start).map (range.start, ·)
  | some (.offset start) => .ok (start, saturatingSub store.size start)
  | some (.suffix count) => .ok (saturatingSub store.size count, count)
  | none => .ok (0, store.size)

def getOpts (location : String) (options : GetOptions) : Reading ObjectStoreError GetResult :=
  match store.offsetAndLength overflowChecks options.range with
  | .error fault => ⟨[], [], .error fault⟩
  | .ok (offset, length) =>
    (store.client.readBytes outside (store.request offset length)).andThen fun payload =>
      (checkedAdd overflowChecks offset length).map fun stop =>
        ⟨payload, ⟨location, store.size⟩, ⟨offset, stop⟩⟩

def getRange (range : Range) : Reading ObjectStoreError Bytes :=
  match checkedSub overflowChecks range.stop range.start with
  | .error fault => ⟨[], [], .error fault⟩
  | .ok length =>
    (store.client.readBytes outside (store.request range.start length)).andThen .ok

end StoragedObjectStore
end Griot.Storaged
