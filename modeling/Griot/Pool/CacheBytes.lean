import Griot.Pool.CacheHistory
import Griot.Lib.Machine
import Mathlib.Data.Nat.Find

/-! Bytes in the query cache.

Next to its entries the cache counts the bytes it holds. Reads, evictions and sweeps take what
they drop off the counter (`Sheds`). Storing adds the new bytes, and forgets to take off those
of the entry that the recency list displaces on its own: the counter is exact in exactly the
histories in which no such entry has bytes (`accounting_iff`). The memory bound does not
suffer from that, as the counter errs on the safe side, but from single results above it, which
are stored all the same (`bounded_iff`). -/
namespace Griot.Pool

open Lib

theorem usize_lt (n : Nat) : usize n < 18446744073709551616 := Nat.mod_lt _ (by decide)

theorem usize_le (n : Nat) : usize n ≤ n := Nat.mod_le _ _

theorem usize_of_lt {n : Nat} (h : n < 18446744073709551616) : usize n = n := Nat.mod_eq_of_lt h

namespace QueryCache

/-- The bytes of the entries that are actually stored. -/
def stored (c : QueryCache) : Nat := c.lru.weight CacheEntry.byteSize

/-! ### What a call takes off the counter -/

/-- Some entries are gone, and their bytes with them. -/
structure Sheds (c c' : QueryCache) : Prop where
  config : c'.config = c.config
  cap : c'.lru.cap = c.lru.cap
  bytes : ∃ dropped, c.stored = c'.stored + dropped ∧ c'.totalBytes = c.totalBytes - dropped

theorem Sheds.refl (c : QueryCache) : c.Sheds c := ⟨rfl, rfl, 0, rfl, rfl⟩

theorem Sheds.trans {c₁ c₂ c₃ : QueryCache} (h : c₁.Sheds c₂) (h' : c₂.Sheds c₃) : c₁.Sheds c₃ := by
  refine ⟨h'.config.trans h.config, h'.cap.trans h.cap, ?_⟩
  obtain ⟨dropped, hstored, htotal⟩ := h.bytes
  obtain ⟨dropped', hstored', htotal'⟩ := h'.bytes
  exact ⟨dropped + dropped', by omega, by omega⟩

theorem sheds_evict (c : QueryCache) (key : CacheKey) : c.Sheds (c.evict key) := by
  unfold evict
  split
  · exact .refl c
  · rename_i entry hentry
    exact ⟨rfl, rfl, entry.byteSize, Recency.weight_pop _ hentry, rfl⟩

theorem sheds_touch (c : QueryCache) (key : CacheKey) : c.Sheds {c with lru := c.lru.touch key} :=
  ⟨rfl, c.lru.touch_cap key, 0, (c.lru.weight_touch _ key).symm, rfl⟩

theorem sheds_get (sha256 : Bytes → Bytes) (now : Nat) (tenantId sql : String) (c : QueryCache) :
    c.Sheds (c.get sha256 now tenantId sql).2 := by
  unfold get
  simp only
  split
  · exact .refl c
  · split
    · exact (c.sheds_touch _).trans (sheds_evict _ _)
    · exact c.sheds_touch _

theorem sheds_foldl_evict (keys : List CacheKey) (c : QueryCache) :
    c.Sheds (keys.foldl evict c) := by
  induction keys generalizing c with
  | nil => exact .refl c
  | cons key keys ih => exact (c.sheds_evict key).trans (ih _)

theorem sheds_invalidateTenant (tenantId : String) (c : QueryCache) :
    c.Sheds (c.invalidateTenant tenantId) := sheds_foldl_evict _ c

/-- One turn of the loop of `put`. -/
theorem sheds_popLru {c : QueryCache} {key : CacheKey} {evicted : CacheEntry}
    (h : c.lru.lru = some (key, evicted)) :
    c.Sheds {c with lru := c.lru.popLru, totalBytes := c.totalBytes - evicted.byteSize} :=
  ⟨rfl, rfl, evicted.byteSize, Recency.weight_popLru _ h, rfl⟩

theorem sheds_makeRoom (byteSize turns : Nat) (c : QueryCache) :
    c.Sheds (c.makeRoom byteSize turns) := by
  induction turns generalizing c with
  | zero => exact .refl c
  | succ turns ih =>
    unfold makeRoom
    split
    · split
      · exact .refl c
      · rename_i hlast
        exact (sheds_popLru hlast).trans (ih _)
    · exact .refl c

/-- What `put` does once there is room. -/
def insert (key : CacheKey) (entry : CacheEntry) (roomy : QueryCache) : QueryCache :=
  { roomy with
    lru := roomy.lru.put key entry
    totalBytes := usize (roomy.totalBytes + entry.byteSize) }

theorem put_eq (sha256 : Bytes → Bytes) (buffers : ArrayRef → List Nat) (now : Nat)
    (tenantId sql : String) (batches : List RecordBatch) (jws : String) (c : QueryCache) :
    c.put sha256 buffers now tenantId sql batches jws =
      (c.makeRoom (estimateBatchesBytes buffers batches) c.lru.entries.length).insert
        (.new sha256 tenantId sql) (entryOf buffers now batches jws) := rfl

theorem stored_insert (key : CacheKey) (entry : CacheEntry) (roomy : QueryCache) :
    (roomy.insert key entry).stored + (roomy.lru.displaced key).elim 0 CacheEntry.byteSize =
      roomy.stored + entry.byteSize := by
  have hput := roomy.lru.weight_put CacheEntry.byteSize key entry
  have hroom := roomy.lru.weight_room CacheEntry.byteSize key
  change (roomy.insert key entry).stored = _ at hput
  change roomy.stored = _ at hroom
  omega

theorem displaced_le (key : CacheKey) (roomy : QueryCache) :
    (roomy.lru.displaced key).elim 0 CacheEntry.byteSize ≤ roomy.stored :=
  Nat.le_of_add_left_le (roomy.lru.weight_room CacheEntry.byteSize key).ge

theorem stored_eq_zero {c : QueryCache} (h : c.lru.entries = []) : c.stored = 0 := by
  rw [stored, Recency.weight, h]
  rfl

/-! ### The loop of `put` with an exact counter -/

/-- The counter says what is stored. -/
def Exact (c : QueryCache) : Prop := c.totalBytes = c.stored

theorem Exact.sheds {c c' : QueryCache} (h : c.Exact) (hsheds : c.Sheds c') : c'.Exact := by
  obtain ⟨dropped, hstored, htotal⟩ := hsheds.bytes
  unfold Exact at h ⊢
  omega

theorem findGreatest_congr {P Q : Nat → Prop} [DecidablePred P] [DecidablePred Q] {n : Nat}
    (h : ∀ i ≤ n, P i ↔ Q i) : Nat.findGreatest P n = Nat.findGreatest Q n := by
  induction n with
  | zero => rfl
  | succ n ih =>
    rw [Nat.findGreatest_succ, Nat.findGreatest_succ, ih (fun i hi => h i (by omega))]
    simp only [h (n + 1) le_rfl]

/-- How many entries fit beside some new bytes, counted from the front. -/
def fitting (byteSize : Nat) (c : QueryCache) : Nat :=
  Nat.findGreatest
    (fun n => usize ((c.lru.take n).weight CacheEntry.byteSize + byteSize) ≤ c.config.maxBytes)
    c.lru.entries.length

/-- The entries that the byte budget leaves beside some new bytes. -/
def kept (byteSize : Nat) (c : QueryCache) : Recency CacheKey CacheEntry :=
  c.lru.take (c.fitting byteSize)

theorem kept_of_fits {byteSize : Nat} {c : QueryCache}
    (h : usize (c.stored + byteSize) ≤ c.config.maxBytes) : c.kept byteSize = c.lru := by
  have hall : c.fitting byteSize = c.lru.entries.length := by
    apply Nat.findGreatest_eq
    rwa [Recency.take_length]
  rw [kept, hall, Recency.take_length]

theorem kept_of_not_fits {byteSize : Nat} {c : QueryCache}
    (h : c.config.maxBytes < usize (c.stored + byteSize)) {key : CacheKey} {evicted : CacheEntry}
    (hlast : c.lru.lru = some (key, evicted)) (total : Nat) :
    c.kept byteSize = kept byteSize ⟨c.config, c.lru.popLru, total⟩ := by
  obtain ⟨front, hfront⟩ := List.getLast?_eq_some_iff.1 hlast
  have hlen : c.lru.entries.length = front.length + 1 := by
    rw [hfront, List.length_append]
    rfl
  have hpop : c.lru.popLru.entries.length = front.length := by
    show c.lru.entries.dropLast.length = _
    rw [List.length_dropLast, hlen, Nat.add_sub_cancel]
  have hfitting : c.fitting byteSize = fitting byteSize ⟨c.config, c.lru.popLru, total⟩ := by
    unfold fitting
    simp only [hpop]
    rw [hlen, Nat.findGreatest_of_not]
    · apply findGreatest_congr
      intro n hn
      rw [Recency.take_popLru _ (by omega)]
    · rw [← hlen, Recency.take_length]
      exact Nat.not_le_of_lt h
  have hle : c.fitting byteSize ≤ front.length := by
    rw [hfitting, ← hpop]
    exact Nat.findGreatest_le _
  rw [kept, kept, ← hfitting]
  exact (Recency.take_popLru _ (by omega)).symm

/-- **With an exact counter, the loop evicts what the byte budget does not leave.** -/
theorem makeRoom_lru {turns : Nat} {c : QueryCache} (h : c.Exact) (byteSize : Nat)
    (hturns : c.lru.entries.length ≤ turns) :
    (c.makeRoom byteSize turns).lru = c.kept byteSize := by
  induction turns generalizing c with
  | zero =>
    have hlen := Nat.le_zero.1 hturns
    have hfitting : c.fitting byteSize = c.lru.entries.length := by
      rw [fitting, hlen, Nat.findGreatest_zero]
    rw [kept, hfitting, Recency.take_length]
    rfl
  | succ turns ih =>
    unfold makeRoom
    split
    · rename_i hfull
      rw [h] at hfull
      split
      · rename_i hlast
        have hnil : c.lru.entries = [] := List.getLast?_eq_none_iff.1 hlast
        have hfitting : c.fitting byteSize = c.lru.entries.length := by
          rw [fitting, hnil, List.length_nil, Nat.findGreatest_zero]
        rw [kept, hfitting, Recency.take_length]
      · rename_i hlast
        rw [ih (h.sheds (sheds_popLru hlast)), kept_of_not_fits hfull hlast]
        show c.lru.entries.dropLast.length ≤ turns
        rw [List.length_dropLast]
        omega
    · rename_i hfits
      rw [h] at hfits
      exact (kept_of_fits (Nat.le_of_not_lt hfits)).symm

/-- A turn of the loop of `put` that evicts does so for lack of space by the counter. -/
theorem lt_of_makeRoom_evicts {byteSize turn : Nat} {c : QueryCache}
    (h : (c.makeRoom byteSize (turn + 1)).lru.entries.length <
      (c.makeRoom byteSize turn).lru.entries.length) :
    c.config.maxBytes < usize ((c.makeRoom byteSize turn).totalBytes + byteSize) := by
  induction turn generalizing c with
  | zero =>
    simp only [makeRoom] at h ⊢
    split at h
    · assumption
    · exact absurd h (Nat.lt_irrefl _)
  | succ turn ih =>
    unfold makeRoom at h ⊢
    split at h
    · rename_i hfull
      cases hlast : c.lru.lru with
      | none =>
        simp only [hlast] at h
        exact absurd h (Nat.lt_irrefl _)
      | some last =>
        simp only [hlast] at h
        rw [if_pos hfull]
        exact ih h
    · exact absurd h (Nat.lt_irrefl _)

end QueryCache

section
variable (sha256 : Bytes → Bytes) (buffers : ArrayRef → List Nat)

/-- The cache as a machine. -/
def caching (config : QueryCacheConfig) : Machine Event QueryCache :=
  .always (.new config) (QueryCache.step sha256 buffers)

theorem caching_exec (config : QueryCacheConfig) (history : List Event) :
    (caching sha256 buffers config).exec history (.new config) =
      some (QueryCache.run sha256 buffers config history) :=
  Machine.always_exec history _

/-- Not a put that displaces an entry with bytes from what it keeps, and not one that takes the
counter beyond its range. -/
def Keeps (c : QueryCache) (e : Event) : Prop :=
  match e.call with
  | .put tenantId sql batches _ =>
    let kept := c.kept (estimateBatchesBytes buffers batches)
    (∀ entry, kept.displaced (.new sha256 tenantId sql) = some entry → entry.byteSize = 0) ∧
      kept.weight CacheEntry.byteSize + estimateBatchesBytes buffers batches <
        18446744073709551616
  | _ => True

/-- Whatever a put evicts for lack of space, the stored bytes and the new ones exceed the budget. -/
def EvictsForced (c : QueryCache) (e : Event) : Prop :=
  match e.call with
  | .put _ _ batches _ =>
    let byteSize := estimateBatchesBytes buffers batches
    ∀ turn, (c.makeRoom byteSize (turn + 1)).lru.entries.length <
        (c.makeRoom byteSize turn).lru.entries.length →
      c.config.maxBytes < (c.makeRoom byteSize turn).stored + byteSize
  | _ => True

variable {sha256 buffers}

/-- Every call but a put sheds entries, or all of them. -/
theorem sheds_step {e : Event} (c : QueryCache) (h : ∀ t s batches jws, e.call ≠ .put t s batches jws) :
    c.Sheds (c.step sha256 buffers e) ∨ c.step sha256 buffers e = c.invalidateAll := by
  obtain ⟨now, call⟩ := e
  cases call with
  | put t s batches jws => exact absurd rfl (h t s batches jws)
  | get t s => exact .inl (QueryCache.sheds_get sha256 now t s c)
  | invalidateTenant t => exact .inl (c.sheds_invalidateTenant t)
  | invalidateAll => exact .inr rfl

/-- What a call leaves behind: less than before, nothing, or a new entry in the room made for it. -/
theorem step_cases {I : QueryCache → Prop} {e : Event} {c : QueryCache}
    (hsheds : ∀ c', c.Sheds c' → I c') (hall : I c.invalidateAll)
    (hput : ∀ t s batches jws, e.call = .put t s batches jws →
      ∀ roomy, c.Sheds roomy →
        usize (roomy.totalBytes + estimateBatchesBytes buffers batches) ≤ c.config.maxBytes ∨
          roomy.lru.entries = [] →
        I (roomy.insert (.new sha256 t s) (QueryCache.entryOf buffers e.now batches jws))) :
    I (c.step sha256 buffers e) := by
  by_cases h : ∃ t s batches jws, e.call = .put t s batches jws
  · obtain ⟨t, s, batches, jws, hcall⟩ := h
    rw [QueryCache.step, hcall]
    exact hput t s batches jws hcall _ (c.sheds_makeRoom _ _) (c.makeRoom_done _ _ le_rfl)
  · obtain hstep | hstep := @sheds_step sha256 buffers _ c
      (fun t s batches jws heq => h ⟨t, s, batches, jws, heq⟩)
    · exact hsheds _ hstep
    · rw [hstep]
      exact hall

/-- The counter stays in its range. -/
theorem totalBytes_lt_step {e : Event} {c : QueryCache} (h : c.totalBytes < 18446744073709551616) :
    (c.step sha256 buffers e).totalBytes < 18446744073709551616 := by
  apply step_cases (I := fun c => c.totalBytes < 18446744073709551616)
  · intro c' hsheds
    obtain ⟨dropped, -, htotal⟩ := hsheds.bytes
    omega
  · exact Nat.zero_lt_succ _
  · intro t s batches jws _ roomy _ _
    exact usize_lt _

/-- An exact counter stays exact unless something with bytes is displaced. -/
theorem exact_insert {key : CacheKey} {entry : CacheEntry} {roomy : QueryCache}
    (hrange : roomy.totalBytes < 18446744073709551616) (h : roomy.Exact) :
    (roomy.insert key entry).Exact ↔
      (∀ gone, roomy.lru.displaced key = some gone → gone.byteSize = 0) ∧
        roomy.stored + entry.byteSize < 18446744073709551616 := by
  have hstored := roomy.stored_insert key entry
  have hgone : (∀ gone, roomy.lru.displaced key = some gone → gone.byteSize = 0) ↔
      (roomy.lru.displaced key).elim 0 CacheEntry.byteSize = 0 := by
    cases roomy.lru.displaced key <;> simp
  have hle := roomy.displaced_le key
  rw [hgone]
  show usize (roomy.totalBytes + entry.byteSize) = (roomy.insert key entry).stored ↔ _
  unfold QueryCache.Exact at h
  unfold usize
  omega

/-- **One call keeps the counter exact unless it is a put that displaces bytes.** -/
theorem exact_step {e : Event} {c : QueryCache} (hrange : c.totalBytes < 18446744073709551616)
    (h : c.Exact) : (c.step sha256 buffers e).Exact ↔ Keeps sha256 buffers c e := by
  by_cases hput : ∃ t s batches jws, e.call = .put t s batches jws
  · obtain ⟨t, s, batches, jws, hcall⟩ := hput
    have hsheds := c.sheds_makeRoom (estimateBatchesBytes buffers batches) c.lru.entries.length
    have hlru := QueryCache.makeRoom_lru h (estimateBatchesBytes buffers batches) le_rfl
    obtain ⟨dropped, -, htotal⟩ := hsheds.bytes
    rw [QueryCache.step, hcall, Keeps, hcall]
    simp only
    rw [QueryCache.put_eq, exact_insert (by omega) (h.sheds hsheds), QueryCache.stored, hlru]
    rfl
  · have hother : ∀ t s batches jws, e.call ≠ .put t s batches jws :=
      fun t s batches jws heq => hput ⟨t, s, batches, jws, heq⟩
    apply iff_of_true
    · obtain hsheds | hall := sheds_step c hother
      · exact h.sheds hsheds
      · rw [hall]
        rfl
    · unfold Keeps
      split
      · rename_i heq
        exact absurd heq (hother _ _ _ _)
      · trivial

/-- With an exact counter nothing is evicted that need not be. -/
theorem evictsForced_of_exact {c : QueryCache} (h : c.Exact) (e : Event) :
    EvictsForced buffers c e := by
  unfold EvictsForced
  split
  · intro byteSize turn hevicts
    have hlt := QueryCache.lt_of_makeRoom_evicts hevicts
    rw [h.sheds (c.sheds_makeRoom byteSize turn)] at hlt
    exact Nat.lt_of_lt_of_le hlt (usize_le _)
  · trivial

/-- **The counter is exact, and evictions for lack of space are forced, in exactly the
histories in which every put keeps what it should.** -/
theorem accounting_iff (sha256 : Bytes → Bytes) (buffers : ArrayRef → List Nat)
    (config : QueryCacheConfig) (history : List Event) :
    ((caching sha256 buffers config).Along QueryCache.Exact history (.new config) ∧
        (caching sha256 buffers config).Throughout (EvictsForced buffers) history (.new config)) ↔
      (caching sha256 buffers config).Throughout (Keeps sha256 buffers) history (.new config) := by
  have hiff : (caching sha256 buffers config).Along QueryCache.Exact history (.new config) ↔
      (caching sha256 buffers config).Throughout (Keeps sha256 buffers) history (.new config) := by
    have hstart : (QueryCache.new config).Exact := rfl
    apply Machine.along_iff (I := fun c => c.totalBytes < 18446744073709551616) _ _
      (Nat.zero_lt_succ _) hstart (caching_exec sha256 buffers config history)
    · intro e c c' hrange hstep
      obtain rfl := Machine.always_step hstep
      exact totalBytes_lt_step hrange
    · intro e c c' hrange hexact hstep
      obtain rfl := Machine.always_step hstep
      exact exact_step hrange hexact
  rw [← hiff]
  constructor
  · exact And.left
  · intro hexact
    exact ⟨hexact, (hiff.1 hexact).imp (fun e c hc _ => evictsForced_of_exact hc e) hexact⟩

end

/-! ### A query stored twice -/

/-- One column, of the eight bytes that `eightBytes` says. -/
def oneColumn : RecordBatch :=
  ⟨[⟨"n", .int64, true⟩], [⟨.int64, [.int64 7], by simp [Value.hasType]⟩], 1, by decide⟩

def eightBytes : ArrayRef → List Nat := fun _ => [8]

/-- The same query stored twice: the first result is replaced, its bytes are still counted. -/
def storedTwice : List Event :=
  [⟨0, .put "acme" "SELECT 1" [oneColumn] "jws"⟩, ⟨1, .put "acme" "SELECT 1" [oneColumn] "jws"⟩]

theorem accounting_drifts :
    ¬ ∀ sha256 buffers config history,
      (caching sha256 buffers config).Along QueryCache.Exact history (.new config) ∧
        (caching sha256 buffers config).Throughout (EvictsForced buffers) history (.new config) := by
  intro h
  have hexact : (QueryCache.run id eightBytes .default storedTwice).Exact :=
    (h id eightBytes .default storedTwice).1.last (caching_exec id eightBytes .default storedTwice)
  have htotal : (QueryCache.run id eightBytes .default storedTwice).totalBytes = 16 := by decide
  have hstored : (QueryCache.run id eightBytes .default storedTwice).stored = 8 := by decide
  rw [QueryCache.Exact, htotal, hstored] at hexact
  exact absurd hexact (by decide)

/-! ### The memory bound -/

/-- What the configuration promises. -/
structure WithinBounds (config : QueryCacheConfig) (c : QueryCache) : Prop where
  bytes : c.stored ≤ config.maxBytes
  entries : c.lru.entries.length ≤ max config.maxEntries 1

section
variable (buffers : ArrayRef → List Nat)

/-- Not a put of a result that is larger than the whole byte budget. -/
def Small (config : QueryCacheConfig) (_ : QueryCache) (e : Event) : Prop :=
  match e.call with
  | .put _ _ batches _ => estimateBatchesBytes buffers batches ≤ config.maxBytes
  | _ => True

/-- Not a put whose bytes take the counter beyond its range. -/
def InRange (c : QueryCache) (e : Event) : Prop :=
  match e.call with
  | .put _ _ batches _ =>
    c.totalBytes + estimateBatchesBytes buffers batches < 18446744073709551616
  | _ => True

variable {buffers} {sha256 : Bytes → Bytes}

/-- The counter is at or above what is stored. -/
structure Guarded (config : QueryCacheConfig) (c : QueryCache) : Prop where
  config_eq : c.config = config
  cap_eq : c.lru.cap = max config.maxEntries 1
  counted : c.stored ≤ c.totalBytes
  bytes : c.stored ≤ config.maxBytes

theorem Guarded.within {config : QueryCacheConfig} {c : QueryCache} (h : Guarded config c) :
    WithinBounds config c := ⟨h.bytes, h.cap_eq ▸ c.lru.bounded⟩

theorem guarded_new (config : QueryCacheConfig) : Guarded config (.new config) :=
  ⟨rfl, rfl, le_rfl, Nat.zero_le _⟩

theorem Guarded.sheds {config : QueryCacheConfig} {c c' : QueryCache} (h : Guarded config c)
    (hsheds : c.Sheds c') : Guarded config c' := by
  obtain ⟨dropped, hstored, htotal⟩ := hsheds.bytes
  have hcounted := h.counted
  have hbytes := h.bytes
  exact ⟨hsheds.config.trans h.config_eq, hsheds.cap.trans h.cap_eq, by omega, by omega⟩

theorem Guarded.invalidateAll {config : QueryCacheConfig} {c : QueryCache} (h : Guarded config c) :
    Guarded config c.invalidateAll := ⟨h.config_eq, h.cap_eq, le_rfl, Nat.zero_le _⟩

/-- Where there is room by the counter, or nothing left, a small entry fits. -/
theorem Guarded.insert {config : QueryCacheConfig} {roomy : QueryCache} (h : Guarded config roomy)
    {key : CacheKey} {entry : CacheEntry} (hsmall : entry.byteSize ≤ config.maxBytes)
    (hrange : roomy.totalBytes + entry.byteSize < 18446744073709551616)
    (hroom : usize (roomy.totalBytes + entry.byteSize) ≤ config.maxBytes ∨
      roomy.lru.entries = []) :
    Guarded config (roomy.insert key entry) := by
  have hstored := roomy.stored_insert key entry
  have hcounted := h.counted
  have htotal : (roomy.insert key entry).totalBytes = roomy.totalBytes + entry.byteSize :=
    usize_of_lt hrange
  rw [usize_of_lt hrange] at hroom
  refine ⟨h.config_eq, (roomy.lru.room_cap key).trans h.cap_eq, by omega, ?_⟩
  obtain hroom | hnil := hroom
  · omega
  · have hzero := QueryCache.stored_eq_zero hnil
    omega

theorem guarded_step {config : QueryCacheConfig} {e : Event} {c : QueryCache}
    (h : Guarded config c) (hsmall : Small buffers config c e) (hrange : InRange buffers c e) :
    Guarded config (c.step sha256 buffers e) := by
  apply step_cases (fun _ => h.sheds) h.invalidateAll
  intro t s batches jws hcall roomy hroomy hroom
  rw [Small, hcall] at hsmall
  rw [InRange, hcall] at hrange
  obtain ⟨dropped, -, htotal⟩ := hroomy.bytes
  rw [h.config_eq] at hroom
  apply (h.sheds hroomy).insert hsmall _ hroom
  show roomy.totalBytes + estimateBatchesBytes buffers batches < _
  simp only at hrange
  omega

/-- The counter is above what is stored by no more than the budget. -/
structure Slack (config : QueryCacheConfig) (c : QueryCache) : Prop extends Guarded config c where
  counted_le : c.totalBytes ≤ c.stored + config.maxBytes

theorem slack_new (config : QueryCacheConfig) : Slack config (.new config) :=
  ⟨guarded_new config, Nat.zero_le _⟩

theorem Slack.inRange {config : QueryCacheConfig}
    (hconfig : 3 * config.maxBytes < 18446744073709551616) {c : QueryCache} (h : Slack config c)
    {e : Event} (hsmall : Small buffers config c e) : InRange buffers c e := by
  have hle := h.counted_le
  have hbytes := h.bytes
  unfold Small at hsmall
  unfold InRange
  split
  · rename_i heq
    simp only [heq] at hsmall
    omega
  · trivial

theorem slack_step {config : QueryCacheConfig}
    (hconfig : 3 * config.maxBytes < 18446744073709551616) {e : Event} {c : QueryCache}
    (h : Slack config c) (hsmall : Small buffers config c e) :
    Slack config (c.step sha256 buffers e) := by
  refine ⟨guarded_step h.toGuarded hsmall (h.inRange hconfig hsmall), ?_⟩
  have hle := h.counted_le
  apply step_cases (I := fun c => c.totalBytes ≤ c.stored + config.maxBytes)
  · intro c' hsheds
    obtain ⟨dropped, hstored, htotal⟩ := hsheds.bytes
    omega
  · exact Nat.zero_le _
  · intro t s batches jws hcall roomy hroomy hroom
    obtain ⟨dropped, hstored, htotal⟩ := hroomy.bytes
    have hbytes := h.bytes
    have hin := h.inRange hconfig hsmall
    rw [InRange, hcall] at hin
    simp only at hin
    have hsum : usize (roomy.totalBytes + estimateBatchesBytes buffers batches) =
        roomy.totalBytes + estimateBatchesBytes buffers batches := usize_of_lt (by omega)
    have hinsert := roomy.stored_insert (.new sha256 t s)
      (QueryCache.entryOf buffers e.now batches jws)
    have hdisplaced := roomy.displaced_le (.new sha256 t s)
    change _ = roomy.stored + estimateBatchesBytes buffers batches at hinsert
    rw [hsum, h.config_eq] at hroom
    show usize (roomy.totalBytes + estimateBatchesBytes buffers batches) ≤ _
    rw [hsum]
    obtain hroom | hnil := hroom
    · omega
    · have hzero := QueryCache.stored_eq_zero hnil
      omega

/-- A stored result counts for its bytes. -/
theorem small_of_within {config : QueryCacheConfig} {e : Event} {c : QueryCache}
    (h : WithinBounds config (c.step sha256 buffers e)) : Small buffers config c e := by
  unfold Small
  split
  · rename_i t s batches jws heq
    have hbytes := h.bytes
    have hinsert := (c.makeRoom (estimateBatchesBytes buffers batches)
      c.lru.entries.length).stored_insert (.new sha256 t s)
      (QueryCache.entryOf buffers e.now batches jws)
    have hdisplaced := (c.makeRoom (estimateBatchesBytes buffers batches)
      c.lru.entries.length).displaced_le (.new sha256 t s)
    rw [QueryCache.step, heq] at hbytes
    simp only [QueryCache.put_eq] at hbytes
    change _ = _ + estimateBatchesBytes buffers batches at hinsert
    omega
  · trivial

/-- **The cache stays within its bounds in exactly the histories that store no result larger
than the byte budget**, as long as the counter cannot leave its range: it cannot under a
budget below a third of that range, nor where no put takes it there. -/
theorem bounded_iff {sha256 : Bytes → Bytes} {buffers : ArrayRef → List Nat}
    {config : QueryCacheConfig} {history : List Event}
    (hrange : 3 * config.maxBytes < 18446744073709551616 ∨
      (caching sha256 buffers config).Throughout (InRange buffers) history (.new config)) :
    (caching sha256 buffers config).Along (WithinBounds config) history (.new config) ↔
      (caching sha256 buffers config).Throughout (Small buffers config) history (.new config) := by
  constructor
  · intro hwithin
    apply hwithin.throughout _ (caching_exec sha256 buffers config history)
    intro e c c' hstep hnext
    obtain rfl := Machine.always_step hstep
    exact small_of_within hnext
  · intro hsmall
    have hin : (caching sha256 buffers config).Throughout (InRange buffers) history
        (.new config) := by
      obtain hconfig | hin := hrange
      · have hslack : (caching sha256 buffers config).Along (Slack config) history
            (.new config) := by
          apply hsmall.along _ (slack_new config)
          intro e c c' hc he hstep
          obtain rfl := Machine.always_step hstep
          exact slack_step hconfig hc he
        exact hsmall.imp (fun e c hc he => hc.inRange hconfig he) hslack
      · exact hin
    have hguarded : (caching sha256 buffers config).Along (Guarded config) history
        (.new config) := by
      apply (hsmall.and hin).along _ (guarded_new config)
      intro e c c' hc he hstep
      obtain rfl := Machine.always_step hstep
      exact guarded_step hc he.1 he.2
    exact hguarded.imp (fun c hc => hc.within)

/-- The default budget, with any history. -/
theorem bounded_iff_default :
    (caching id eightBytes .default).Along (WithinBounds .default) storedTwice (.new .default) ↔
      (caching id eightBytes .default).Throughout (Small eightBytes .default) storedTwice
        (.new .default) :=
  bounded_iff (.inl (by decide))

end

/-- **A result larger than the whole budget is stored all the same.** -/
theorem bound_exceeded :
    ¬ ∀ sha256 buffers config history,
      (caching sha256 buffers config).Along (WithinBounds config) history (.new config) := by
  intro h
  have hwithin := (h id eightBytes ⟨10, 4, 60⟩ [⟨0, .put "acme" "SELECT 1" [oneColumn] "jws"⟩]).last
    (caching_exec id eightBytes _ _)
  exact absurd hwithin.bytes (by decide)

end Griot.Pool
