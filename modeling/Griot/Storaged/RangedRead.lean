import Griot.Storaged.ObjectStore

/-! Whether ranged reads are exact.

The store checks neither the range against the size nor the count the daemon announces
against the length it asked for. A read is exact when the range lies within the asset and
the daemon announces as many bytes as were asked for (`getOpts_exact_iff`,
`getRange_exact_iff`). -/
namespace Griot.Storaged

open Lib

/-- What a read of a range owes, whatever the daemon answers. -/
structure ReadsExactly {α : Type} (range : GetRange) (size : Nat) (payload : α → Bytes)
    (reported : α → Option Span) (reading : Reading ObjectStoreError α) : Prop where
  noUnderflow : reading.outcome ≠ .error (.panic .subtractOverflow)
  noOverflow : reading.outcome ≠ .error (.panic .addOverflow)
  /-- No buffer is longer than what was asked for. -/
  buffers : ∀ n ∈ reading.buffers, ∀ request ∈ reading.requests, n ≤ request.length.toNat
  /-- The range is possible, the daemon was asked for its bytes, as many came, and it is what
  is reported. -/
  served : ∀ a, reading.outcome = .ok a → ∃ wanted, range.asRange size = some wanted ∧
    (∀ request ∈ reading.requests, request.span.clip size = wanted) ∧
    (payload a).length = wanted.length ∧ ∀ span ∈ reported a, span = wanted

namespace GetRange

def Reversed : GetRange → Prop
  | .bounded range => range.stop < range.start
  | _ => False

/-- The range is possible, and nothing of it is clipped. -/
def Within (size : Nat) : GetRange → Prop
  | .bounded range => range.start.toNat < range.stop.toNat ∧ range.stop.toNat ≤ size
  | .offset start => start.toNat < size
  | .suffix count => count.toNat ≤ size

/-- The positions the store asks for. -/
def asked (size : Nat) : GetRange → Span
  | .bounded range => range.span
  | .offset start => ⟨start.toNat, max start.toNat size⟩
  | .suffix count => ⟨size - count.toNat, size - count.toNat + count.toNat⟩

theorem asked_clip {range : GetRange} {size : Nat} {wanted : Span}
    (h : range.asRange size = some wanted) : (range.asked size).clip size = wanted := by
  cases range with
  | bounded range =>
    rw [asRange] at h
    split at h
    · cases h
    · rename_i hpossible
      obtain rfl := Option.some.inj h
      simp only [not_or, Nat.not_le] at hpossible
      simp [asked, Range.span, Span.clip, Nat.min_eq_left (Nat.le_of_lt hpossible.2)]
  | offset start =>
    rw [asRange] at h
    split at h
    · cases h
    · obtain rfl := Option.some.inj h
      simp only [asked, Span.clip, Span.mk.injEq]
      omega
  | suffix count =>
    obtain rfl := Option.some.inj h
    simp only [asked, Span.clip, Span.mk.injEq]
    omega

/-- The store asks for what is meant exactly when nothing is to be clipped. -/
theorem asRange_eq_asked_iff (range : GetRange) (size : Nat) :
    range.asRange size = some (range.asked size) ↔ range.Within size := by
  cases range with
  | bounded range =>
    simp only [asRange, asked, Range.span, Within, UInt64.le_iff_toNat_le]
    split <;> simp <;> omega
  | offset start =>
    simp only [asRange, asked, Within]
    split <;> simp <;> omega
  | suffix count =>
    simp only [asRange, asked, Within, Option.some.injEq, Span.mk.injEq, true_and]
    omega

theorem asked_lt (range : GetRange) {size : Nat} (hsize : size < 2 ^ 64)
    (h : ¬range.Reversed) : (range.asked size).start ≤ (range.asked size).stop ∧
      (range.asked size).stop < 2 ^ 64 := by
  cases range with
  | bounded range =>
    have hstop := range.stop.toNat_lt
    have hle : range.start.toNat ≤ range.stop.toNat := by
      simpa [Reversed, UInt64.lt_iff_toNat_lt] using h
    exact ⟨hle, hstop⟩
  | offset start =>
    have hstart := start.toNat_lt
    simp only [asked]
    omega
  | suffix count =>
    have hcount := count.toNat_lt
    simp only [asked]
    omega

end GetRange

namespace StoragedObjectStore
variable {outside : Outside} {store : StoragedObjectStore}

/-- The request a range leads to. -/
def requestFor (store : StoragedObjectStore) (range : GetRange) : ByteReadRequest :=
  store.request (.ofNat (range.asked store.size.toNat).start)
    (.ofNat (range.asked store.size.toNat).length)

/-- What the store computes is what the range asks for: nothing is lost in 64 bits. -/
theorem offsetAndLength_eq (overflowChecks : Bool) {range : GetRange} (h : ¬range.Reversed) :
    store.offsetAndLength overflowChecks (some range) =
      .ok ((store.requestFor range).offset, (store.requestFor range).length) := by
  show _ = Except.ok (UInt64.ofNat (range.asked store.size.toNat).start,
    UInt64.ofNat (range.asked store.size.toNat).length)
  cases range with
  | bounded range =>
    have hle : range.start ≤ range.stop := UInt64.not_lt.mp h
    have hsub : range.stop - range.start = .ofNat (range.stop.toNat - range.start.toNat) := by
      rw [← UInt64.toNat_inj, UInt64.toNat_sub_of_le _ _ hle, toNat_ofNat]
      have := range.stop.toNat_lt
      omega
    rw [offsetAndLength, checkedSub_ok _ hle, hsub]
    simp [Except.map, GetRange.asked, Range.span, Span.length]
  | offset start =>
    have hsub : saturatingSub store.size start =
        .ofNat (max start.toNat store.size.toNat - start.toNat) := by
      have hsize := store.size.toNat_lt
      rw [← UInt64.toNat_inj, toNat_saturatingSub, toNat_ofNat (by omega)]
      omega
    simp [offsetAndLength, hsub, GetRange.asked, Span.length]
  | suffix count =>
    have hsub : saturatingSub store.size count = .ofNat (store.size.toNat - count.toNat) := by
      have hsize := store.size.toNat_lt
      rw [← UInt64.toNat_inj, toNat_saturatingSub, toNat_ofNat (by omega)]
    simp [offsetAndLength, hsub, GetRange.asked, Span.length]

theorem span_requestFor {range : GetRange} (h : ¬range.Reversed) :
    (store.requestFor range).span = range.asked store.size.toNat := by
  obtain ⟨hle, hlt⟩ := range.asked_lt store.size.toNat_lt h
  have hstart : (UInt64.ofNat (range.asked store.size.toNat).start).toNat =
      (range.asked store.size.toNat).start := toNat_ofNat (by omega)
  have hlength : (UInt64.ofNat (range.asked store.size.toNat).length).toNat =
      (range.asked store.size.toNat).length := by
    refine toNat_ofNat ?_
    rw [Span.length]
    omega
  simp only [ByteReadRequest.span, requestFor, request]
  rw [hstart, hlength, Span.length, Nat.add_sub_cancel' hle]

theorem length_requestFor {range : GetRange} (h : ¬range.Reversed) :
    (store.requestFor range).length.toNat = (range.asked store.size.toNat).length := by
  rw [← span_requestFor h, Span.length, ByteReadRequest.span, Nat.add_sub_cancel_left]

/-! ### What is read -/

section Reads
variable {α : Type} {payload : α → Bytes} {reported : α → Option Span} {range : GetRange}

/-- A read that fails, not in its arithmetic, owes only its buffers. -/
theorem readsExactly_of_fault {size : Nat} {reading : Reading ObjectStoreError α}
    {fault : Fault ObjectStoreError} (h : reading.outcome = .error fault)
    (hsub : fault ≠ .panic .subtractOverflow) (hadd : fault ≠ .panic .addOverflow)
    (hbuffers : ∀ n ∈ reading.buffers, ∀ request ∈ reading.requests,
      n ≤ request.length.toNat) : ReadsExactly range size payload reported reading where
  noUnderflow := fun hpanic => hsub (Except.error.inj (h.symm.trans hpanic))
  noOverflow := fun hpanic => hadd (Except.error.inj (h.symm.trans hpanic))
  buffers := hbuffers
  served := fun a ha => by
    rw [h] at ha
    cases ha

/-- When a read asks for the range and hands on the payload it gets, next to a span it
reports whatever comes, only the daemon's announcement decides. -/
theorem readsExactly_iff (hrange : ¬range.Reversed) {f : Bytes → α} {span : Option Span}
    (hpayload : ∀ bytes, payload (f bytes) = bytes) (hreported : ∀ bytes, reported (f bytes) = span) :
    ReadsExactly range store.size.toNat payload reported
        ((store.client.readBytes outside (store.requestFor range)).andThen fun bytes => .ok (f bytes)) ↔
      ∀ n reply, store.client.Announces outside (store.requestFor range) n reply →
        n.toNat ≤ isizeMax → n ≤ (store.requestFor range).length ∧
          (n.toNat ≤ reply.bytes.length → ∃ wanted, range.asRange store.size.toNat = some wanted ∧
            n.toNat = wanted.length ∧ ∀ s ∈ span, s = wanted) := by
  by_cases hannounced : ∃ n reply, store.client.Announces outside (store.requestFor range) n reply
  · obtain ⟨n, reply, hannounced⟩ := hannounced
    have honly : ∀ {P : UInt64 → ByteStream IoError → Prop}, (∀ n' reply',
        store.client.Announces outside (store.requestFor range) n' reply' → P n' reply') ↔
          P n reply := by
      intro P
      refine ⟨fun h => h n reply hannounced, fun h n' reply' hannounced' => ?_⟩
      obtain ⟨rfl, rfl⟩ := StoragedClient.announces_unique hannounced hannounced'
      exact h
    rw [honly, StoragedClient.readBytes_announced hannounced]
    by_cases hcapacity : isizeMax < n.toNat
    · rw [if_pos hcapacity]
      exact iff_of_true (readsExactly_of_fault rfl nofun nofun nofun)
        fun h => absurd h (Nat.not_le.mpr hcapacity)
    · rw [if_neg hcapacity]
      by_cases hcomplete : n.toNat ≤ reply.bytes.length
      · rw [if_pos hcomplete]
        constructor
        · intro h _
          obtain ⟨wanted, hwanted, -, hlength, hspan⟩ := h.served _ rfl
          rw [hpayload, List.length_take, Nat.min_eq_left hcomplete] at hlength
          rw [hreported] at hspan
          exact ⟨h.buffers n.toNat (List.mem_singleton_self _) _ (List.mem_singleton_self _),
            fun _ => ⟨wanted, hwanted, hlength, hspan⟩⟩
        · intro h
          obtain ⟨hbuffer, hserved⟩ := h (Nat.not_lt.mp hcapacity)
          obtain ⟨wanted, hwanted, hlength, hspan⟩ := hserved hcomplete
          refine ⟨by simp [Reading.andThen], by simp [Reading.andThen],
            by simpa [Reading.andThen, UInt64.le_iff_toNat_le] using hbuffer, ?_⟩
          intro a ha
          obtain rfl : f (reply.bytes.take n.toNat) = a := Except.ok.inj ha
          refine ⟨wanted, hwanted, ?_, ?_, ?_⟩
          · intro request hrequest
            obtain rfl := List.mem_singleton.mp hrequest
            rw [span_requestFor hrange, GetRange.asked_clip hwanted]
          · rw [hpayload, List.length_take, Nat.min_eq_left hcomplete, hlength]
          · rw [hreported]
            exact hspan
      · rw [if_neg hcomplete]
        constructor
        · intro h _
          exact ⟨h.buffers n.toNat (List.mem_singleton_self _) _ (List.mem_singleton_self _),
            fun hle => absurd hle hcomplete⟩
        · intro h
          have hbuffer := (h (Nat.not_lt.mp hcapacity)).1
          exact readsExactly_of_fault rfl nofun nofun
            (by simpa [Reading.andThen, UInt64.le_iff_toNat_le] using hbuffer)
  · have hnone : ∀ n reply, ¬store.client.Announces outside (store.requestFor range) n reply :=
      fun n reply h => hannounced ⟨n, reply, h⟩
    obtain ⟨requests, e, hread⟩ := StoragedClient.readBytes_refused hnone
    rw [hread]
    exact iff_of_true (readsExactly_of_fault rfl nofun nofun nofun)
      fun n reply h => absurd h (hnone n reply)

/-- From a daemon that sends what it is asked for, an exact read gets the bytes meant. -/
theorem slice_of_readsExactly (hrange : ¬range.Reversed) {f : Bytes → α}
    (hpayload : ∀ bytes, payload (f bytes) = bytes)
    (h : ReadsExactly range store.size.toNat payload reported
      ((store.client.readBytes outside (store.requestFor range)).andThen fun bytes => .ok (f bytes)))
    {asset : Bytes} (hsize : asset.length = store.size.toNat)
    (hfaithful : store.client.Faithful outside asset) {a : α}
    (ha : ((store.client.readBytes outside (store.requestFor range)).andThen
      fun bytes => .ok (f bytes)).outcome = .ok a) :
    ∃ wanted, range.asRange store.size.toNat = some wanted ∧ payload a = wanted.slice asset := by
  obtain ⟨wanted, hwanted, -, hlength, -⟩ := h.served a ha
  refine ⟨wanted, hwanted, ?_⟩
  cases hread : (store.client.readBytes outside (store.requestFor range)).outcome with
  | error fault => cases fault <;> simp [Reading.andThen, hread] at ha
  | ok bytes =>
    obtain rfl : f bytes = a := by simpa [Reading.andThen, hread] using ha
    obtain ⟨n, reply, hannounced, rfl⟩ := StoragedClient.readBytes_ok hread
    have hprefix := hfaithful _ n reply hannounced
    have hclip := GetRange.asked_clip hwanted
    rw [span_requestFor hrange] at hprefix
    rw [hpayload] at hlength ⊢
    rw [← hclip, ← hsize] at hlength ⊢
    exact Span.eq_slice_of_prefix (hsize ▸ hprefix) (hsize ▸ hlength)

end Reads

/-! ### The two reads of the store -/

theorem getOpts_eq (overflowChecks : Bool) (location : String) {range : GetRange}
    (h : ¬range.Reversed) :
    store.getOpts outside overflowChecks location ⟨some range⟩ =
      (store.client.readBytes outside (store.requestFor range)).andThen fun payload =>
        .ok ⟨payload, ⟨location, store.size⟩, ⟨(store.requestFor range).offset,
          (store.requestFor range).offset + (store.requestFor range).length⟩⟩ := by
  have hlt := (range.asked_lt store.size.toNat_lt h).2
  rw [← span_requestFor h] at hlt
  rw [getOpts, offsetAndLength_eq overflowChecks h]
  simp only [checkedAdd_ok overflowChecks hlt]
  rfl

/-- The range reported is the one asked for. -/
theorem span_reported {range : GetRange} (h : ¬range.Reversed) :
    Range.span ⟨(store.requestFor range).offset,
      (store.requestFor range).offset + (store.requestFor range).length⟩ =
        range.asked store.size.toNat := by
  have hlt := (range.asked_lt store.size.toNat_lt h).2
  rw [← span_requestFor h] at hlt ⊢
  have hsum : (store.requestFor range).offset.toNat + (store.requestFor range).length.toNat <
    2 ^ 64 := hlt
  simp only [Range.span, ByteReadRequest.span, UInt64.toNat_add, Nat.mod_eq_of_lt hsum]

theorem getRange_eq (overflowChecks : Bool) {range : Range} (h : ¬range.stop < range.start) :
    store.getRange outside overflowChecks range =
      (store.client.readBytes outside (store.requestFor (.bounded range))).andThen .ok := by
  have hsub := checkedSub_ok (ε := ObjectStoreError) overflowChecks (UInt64.not_lt.mp h)
  have hrequest : store.offsetAndLength overflowChecks (some (.bounded range)) = _ :=
    offsetAndLength_eq overflowChecks (show ¬(GetRange.bounded range).Reversed from h)
  rw [offsetAndLength, hsub] at hrequest
  obtain ⟨hoffset, hlength⟩ := Prod.mk.inj (Except.ok.inj hrequest)
  rw [getRange, hsub]
  show (store.client.readBytes outside
    (store.request range.start (range.stop - range.start))).andThen _ = _
  rw [hlength, hoffset]
  rfl

/-- A build with overflow checks panics on a reversed range. -/
theorem checkedSub_reversed {ε : Type} {a b : UInt64} (h : a < b) :
    checkedSub (ε := ε) true a b = .error (.panic .subtractOverflow) := by
  rw [checkedSub, if_pos ⟨rfl, h⟩]

/-- Where the whole of what was asked for is reported, it must be possible as it stands. -/
theorem served_reported_iff {range : GetRange} (h : ¬range.Reversed) {n : UInt64} :
    (∃ wanted, range.asRange store.size.toNat = some wanted ∧ n.toNat = wanted.length ∧
      ∀ s ∈ some (range.asked store.size.toNat), s = wanted) ↔
        range.Within store.size.toNat ∧ n = (store.requestFor range).length := by
  rw [← range.asRange_eq_asked_iff, ← UInt64.toNat_inj, length_requestFor h]
  constructor
  · intro h
    obtain ⟨wanted, hwanted, hlength, hsame⟩ := h
    rw [hsame _ rfl]
    exact ⟨hwanted, hlength⟩
  · intro h
    exact ⟨_, h.1, h.2, fun s hs => (Option.some.inj hs).symm⟩

/-- Where nothing is reported, a range may end behind the asset. -/
theorem served_clipped_iff {range : Range} {size n : UInt64} :
    (∃ wanted, (GetRange.bounded range).asRange size.toNat = some wanted ∧
      n.toNat = wanted.length ∧ ∀ s ∈ (none : Option Span), s = wanted) ↔
        range.start < range.stop ∧ range.start < size ∧
          n.toNat = min range.stop.toNat size.toNat - range.start.toNat := by
  simp only [GetRange.asRange, UInt64.le_iff_toNat_le, UInt64.lt_iff_toNat_lt]
  split
  · simp
    omega
  · simp [Span.length]
    omega

/-- **When `get_opts` is exact**: the range is not reversed, and of an answer that is accepted
no more is announced than was asked for; where the announced bytes come, the range lies
within the asset and they are as many as were asked for. -/
theorem getOpts_exact_iff (range : GetRange) :
    (∀ overflowChecks location, ReadsExactly range store.size.toNat GetResult.payload
        (fun result => some result.range.span)
        (store.getOpts outside overflowChecks location ⟨some range⟩)) ↔
      ¬range.Reversed ∧
      ∀ n reply, store.client.Announces outside (store.requestFor range) n reply →
        n.toNat ≤ isizeMax → n ≤ (store.requestFor range).length ∧
          (n.toNat ≤ reply.bytes.length → range.Within store.size.toNat ∧
            n = (store.requestFor range).length) := by
  by_cases hrange : range.Reversed
  · refine iff_of_false (fun h => ?_) (fun h => h.1 hrange)
    have hpanic := (h true "").noUnderflow
    cases range with
    | bounded range =>
      refine hpanic ?_
      rw [getOpts, offsetAndLength, checkedSub_reversed hrange]
      rfl
    | _ => exact hrange
  · have hread : ∀ location, ReadsExactly range store.size.toNat GetResult.payload
        (fun result => some result.range.span)
        ((store.client.readBytes outside (store.requestFor range)).andThen fun payload =>
          .ok ⟨payload, ⟨location, store.size⟩, ⟨(store.requestFor range).offset,
            (store.requestFor range).offset + (store.requestFor range).length⟩⟩) ↔
        ∀ n reply, store.client.Announces outside (store.requestFor range) n reply →
          n.toNat ≤ isizeMax → n ≤ (store.requestFor range).length ∧
            (n.toNat ≤ reply.bytes.length → range.Within store.size.toNat ∧
              n = (store.requestFor range).length) := by
      intro location
      have hreported : some (Range.span ⟨(store.requestFor range).offset,
          (store.requestFor range).offset + (store.requestFor range).length⟩) =
        some (range.asked store.size.toNat) := congrArg some (span_reported hrange)
      refine Iff.trans (readsExactly_iff hrange (fun _ => rfl) (fun _ => hreported)) ?_
      simp only [served_reported_iff hrange]
    rw [and_iff_right hrange]
    constructor
    · intro h
      have hexact := h true ""
      rw [getOpts_eq true "" hrange] at hexact
      exact (hread "").mp hexact
    · intro h overflowChecks location
      rw [getOpts_eq overflowChecks location hrange]
      exact (hread location).mpr h

/-- **When `get_range` is exact**: the range is not reversed, and of an answer that is accepted
no more is announced than was asked for; where the announced bytes come, the range starts in
the asset, is not empty, and they are as many as it has there. -/
theorem getRange_exact_iff (range : Range) :
    (∀ overflowChecks, ReadsExactly (.bounded range) store.size.toNat id (fun _ => none)
        (store.getRange outside overflowChecks range)) ↔
      ¬range.stop < range.start ∧
      ∀ n reply, store.client.Announces outside (store.requestFor (.bounded range)) n reply →
        n.toNat ≤ isizeMax → n ≤ (store.requestFor (.bounded range)).length ∧
          (n.toNat ≤ reply.bytes.length → range.start < range.stop ∧ range.start < store.size ∧
            n.toNat = min range.stop.toNat store.size.toNat - range.start.toNat) := by
  by_cases hrange : range.stop < range.start
  · refine iff_of_false (fun h => ?_) (fun h => h.1 hrange)
    refine (h true).noUnderflow ?_
    rw [getRange, checkedSub_reversed hrange]
  · have hread : ReadsExactly (.bounded range) store.size.toNat id (fun _ => none)
        ((store.client.readBytes outside (store.requestFor (.bounded range))).andThen .ok) ↔ _ :=
      readsExactly_iff (show ¬(GetRange.bounded range).Reversed from hrange) (fun _ => rfl)
        (fun _ => rfl)
    simp only [served_clipped_iff] at hread
    rw [and_iff_right hrange, ← hread]
    constructor
    · intro h
      have hexact := h true
      rwa [getRange_eq true hrange] at hexact
    · intro h overflowChecks
      rwa [getRange_eq overflowChecks hrange]

/-- Of a faithful daemon's asset an exact `get_opts` shows the bytes meant, where they are. -/
theorem getOpts_slice {range : GetRange} (hexact : ∀ overflowChecks location,
    ReadsExactly range store.size.toNat GetResult.payload (fun result => some result.range.span)
      (store.getOpts outside overflowChecks location ⟨some range⟩))
    {asset : Bytes} (hsize : asset.length = store.size.toNat)
    (hfaithful : store.client.Faithful outside asset) {overflowChecks : Bool} {location : String}
    {result : GetResult}
    (h : (store.getOpts outside overflowChecks location ⟨some range⟩).outcome = .ok result) :
    range.asRange store.size.toNat = some result.range.span ∧
      result.payload = result.range.span.slice asset := by
  have hrange := ((getOpts_exact_iff range).mp hexact).1
  have hread := hexact overflowChecks location
  obtain ⟨wanted, hwanted, -, -, hspan⟩ := hread.served result h
  obtain rfl := hspan _ rfl
  rw [getOpts_eq overflowChecks location hrange] at hread h
  obtain ⟨wanted, hwanted', hslice⟩ :=
    slice_of_readsExactly hrange (fun _ => rfl) hread hsize hfaithful h
  obtain rfl := Option.some.inj (hwanted.symm.trans hwanted')
  exact ⟨hwanted, hslice⟩

theorem getRange_slice {range : Range} (hexact : ∀ overflowChecks,
    ReadsExactly (.bounded range) store.size.toNat id (fun _ => none)
      (store.getRange outside overflowChecks range))
    {asset : Bytes} (hsize : asset.length = store.size.toNat)
    (hfaithful : store.client.Faithful outside asset) {overflowChecks : Bool} {payload : Bytes}
    (h : (store.getRange outside overflowChecks range).outcome = .ok payload) :
    ∃ wanted, (GetRange.bounded range).asRange store.size.toNat = some wanted ∧
      payload = wanted.slice asset := by
  have hrange := ((getRange_exact_iff range).mp hexact).1
  have hread := hexact overflowChecks
  rw [getRange_eq overflowChecks hrange] at hread h
  exact slice_of_readsExactly (show ¬(GetRange.bounded range).Reversed from hrange)
    (fun _ => rfl) hread hsize hfaithful h

/-- **When the ranged reads of a store are exact**, read by read. -/
theorem rangedReads_exact_iff (outside : Outside) (store : StoragedObjectStore) :
    (∀ range : GetRange,
      (∀ overflowChecks location, ReadsExactly range store.size.toNat GetResult.payload
          (fun result => some result.range.span)
          (store.getOpts outside overflowChecks location ⟨some range⟩)) ↔
        ¬range.Reversed ∧
        ∀ n reply, store.client.Announces outside (store.requestFor range) n reply →
          n.toNat ≤ isizeMax → n ≤ (store.requestFor range).length ∧
            (n.toNat ≤ reply.bytes.length → range.Within store.size.toNat ∧
              n = (store.requestFor range).length)) ∧
    ∀ range : Range,
      (∀ overflowChecks, ReadsExactly (.bounded range) store.size.toNat id (fun _ => none)
          (store.getRange outside overflowChecks range)) ↔
        ¬range.stop < range.start ∧
        ∀ n reply, store.client.Announces outside (store.requestFor (.bounded range)) n reply →
          n.toNat ≤ isizeMax → n ≤ (store.requestFor (.bounded range)).length ∧
            (n.toNat ≤ reply.bytes.length → range.start < range.stop ∧ range.start < store.size ∧
              n.toNat = min range.stop.toNat store.size.toNat - range.start.toNat) :=
  ⟨getOpts_exact_iff, getRange_exact_iff⟩

/-! ### A suffix longer than the asset -/

/-- An asset of four bytes. -/
def shortAsset : Bytes := [1, 2, 3, 4]

def shortHeader : String := "\x7b\"byte_count\":4\x7d"

theorem shortHeader_ne : shortHeader ≠ "" := by decide

/-- A daemon that answers every request with all it has. -/
def shortDaemon : Outside where
  serde := .just shortHeader (.object [("byte_count", .integer 4)]) shortHeader_ne
  explain := fun _ => ""
  connect := fun _ => .ok ()
  exchange := fun _ => .ok ⟨frame (utf8 shortHeader) ++ shortAsset, "early eof"⟩

def shortStore : StoragedObjectStore := ⟨⟨"/run/griot/t04.sock"⟩, "asset-1", "acme", "jwt", 4⟩

theorem shortDaemon_announces (request : ByteReadRequest) :
    shortStore.client.Announces shortDaemon request 4 ⟨shortAsset, "early eof"⟩ := by
  refine ⟨rfl, ?_⟩
  have hheader : StoragedClient.readHeader shortDaemon
      ⟨frame (utf8 shortHeader) ++ shortAsset, "early eof"⟩ =
        .ok (⟨none, none, some 4⟩, ⟨shortAsset, "early eof"⟩) := by
    refine StoragedClient.readHeader_frame (by decide) (by decide) ?_ _ _
    rw [shortDaemon, SerdeJson.just_fromSlice]
    rfl
  have hexchange : ∀ bytes, shortDaemon.exchange bytes =
      .ok ⟨frame (utf8 shortHeader) ++ shortAsset, "early eof"⟩ := fun _ => rfl
  rw [StoragedClient.announced, hexchange]
  simp only [hheader]
  rfl

/-- The last eight bytes of an asset of four: four bytes come, and the range reported is
eight long. -/
theorem long_suffix_misreported :
    ¬((∀ (outside : Outside) (store : StoragedObjectStore) (range : GetRange)
        (overflowChecks : Bool) (location : String),
        ReadsExactly range store.size.toNat GetResult.payload
          (fun result => some result.range.span)
          (store.getOpts outside overflowChecks location ⟨some range⟩)) ∧
      ∀ (outside : Outside) (store : StoragedObjectStore) (range : Range) (overflowChecks : Bool),
        ReadsExactly (.bounded range) store.size.toNat id (fun _ => none)
          (store.getRange outside overflowChecks range)) := by
  intro h
  have hexact := (getOpts_exact_iff (.suffix 8)).mp (h.1 shortDaemon shortStore (.suffix 8))
  obtain ⟨hwithin, -⟩ := (hexact.2 4 _ (shortDaemon_announces _) (by decide)).2 (by decide)
  have hle : (8 : UInt64).toNat ≤ (4 : UInt64).toNat := hwithin
  exact absurd hle (by decide)

end StoragedObjectStore
end Griot.Storaged
