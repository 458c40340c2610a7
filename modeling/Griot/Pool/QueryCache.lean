import Griot.Data.Arrow
import Griot.Lib.History
import Griot.Lib.Recency
import Griot.Lib.Text

/-! The query cache.

One recency list holds the results of all tenants, under the tenant and the SHA-256
of the SQL text. It is bounded by entries and by bytes, and an entry past its time to
live is evicted when it is next read. A history of calls says what a pair of
tenant and text stands for; whatever was evicted on the way, the cache answers
with that or not at all (`cache_sound`). Times are in nanoseconds. -/
namespace Griot.Pool

open Lib

structure CacheEntry where
  batches : List RecordBatch
  byteSize : Nat
  insertedAt : Nat
  attestationJws : String

structure CacheKey where
  tenantId : String
  sqlSha256 : Bytes
  deriving DecidableEq

def CacheKey.new (sha256 : Bytes → Bytes) (tenantId sql : String) : CacheKey :=
  ⟨tenantId, sha256 (utf8 sql)⟩

structure QueryCacheConfig where
  maxEntries : Nat
  maxBytes : Nat
  ttlSecs : Nat

def QueryCacheConfig.default : QueryCacheConfig := ⟨10000, 256 * 1024 * 1024, 60⟩

/-- The time to live. -/
def QueryCacheConfig.ttl (config : QueryCacheConfig) : Nat := config.ttlSecs * 1000000000

/-- `usize` arithmetic wraps. -/
def usize (n : Nat) : Nat := n % 18446744073709551616

/-- `buffers` are the lengths of the buffers behind an array. -/
def estimateBatchesBytes (buffers : ArrayRef → List Nat) (batches : List RecordBatch) : Nat :=
  usize ((batches.flatMap RecordBatch.columns).map (fun c => (buffers c).sum)).sum

structure QueryCache where
  config : QueryCacheConfig
  lru : Recency CacheKey CacheEntry
  totalBytes : Nat

namespace QueryCache

def new (config : QueryCacheConfig) : QueryCache :=
  ⟨config, .empty (max config.maxEntries 1) (by omega), 0⟩

/-! ### The calls -/

/-- Pop an entry and take its bytes off the total. -/
def evict (c : QueryCache) (key : CacheKey) : QueryCache :=
  match c.lru.peek key with
  | none => c
  | some entry => {c with lru := c.lru.pop key, totalBytes := c.totalBytes - entry.byteSize}

/-- The time that passed since an entry was inserted is above the time to live. -/
def expired (c : QueryCache) (now : Nat) (entry : CacheEntry) : Bool :=
  c.config.ttl < now - entry.insertedAt

def get (sha256 : Bytes → Bytes) (now : Nat) (tenantId sql : String) (c : QueryCache) :
    Option (List RecordBatch × String) × QueryCache :=
  let key := CacheKey.new sha256 tenantId sql
  match c.lru.peek key with
  | none => (none, c)
  | some entry =>
    let used := {c with lru := c.lru.touch key}
    if c.expired now entry then (none, used.evict key)
    else (some (entry.batches, entry.attestationJws), used)

/-- The loop of `put`: evict from the back until there is room by the byte budget or
nothing is left. Every turn drops an entry, so as many turns as there are entries are enough
(`makeRoom_done`). -/
def makeRoom (byteSize : Nat) : Nat → QueryCache → QueryCache
  | 0, c => c
  | turns + 1, c =>
    if c.config.maxBytes < usize (c.totalBytes + byteSize) then
      match c.lru.lru with
      | none => c
      | some (_, evicted) =>
        makeRoom byteSize turns
          {c with lru := c.lru.popLru, totalBytes := c.totalBytes - evicted.byteSize}
    else c

def put (sha256 : Bytes → Bytes) (buffers : ArrayRef → List Nat) (now : Nat)
    (tenantId sql : String) (batches : List RecordBatch) (attestationJws : String)
    (c : QueryCache) : QueryCache :=
  let byteSize := estimateBatchesBytes buffers batches
  let roomy := c.makeRoom byteSize c.lru.entries.length
  { roomy with
    lru := roomy.lru.put (CacheKey.new sha256 tenantId sql) ⟨batches, byteSize, now, attestationJws⟩
    totalBytes := usize (roomy.totalBytes + byteSize) }

def invalidateTenant (tenantId : String) (c : QueryCache) : QueryCache :=
  let keysToRemove := (c.lru.entries.map Prod.fst).filter (fun key => key.tenantId = tenantId)
  keysToRemove.foldl evict c

def invalidateAll (c : QueryCache) : QueryCache := {c with lru := c.lru.clear, totalBytes := 0}

/-! ### What the calls do to a binding -/

@[simp] theorem evict_config (c : QueryCache) (key : CacheKey) : (c.evict key).config = c.config := by
  unfold evict
  split <;> rfl

theorem peek_evict (c : QueryCache) (key k : CacheKey) :
    (c.evict key).lru.peek k = if k = key then none else c.lru.peek k := by
  unfold evict
  split
  · rename_i hnone
    by_cases h : k = key
    · rw [if_pos h, h, hnone]
    · rw [if_neg h]
  · exact Recency.peek_pop c.lru key k

theorem forgets_evict (c : QueryCache) (key : CacheKey) : (c.evict key).lru.Forgets c.lru := by
  intro k v h
  rw [peek_evict] at h
  split at h
  · cases h
  · exact h

theorem foldl_evict_config (keys : List CacheKey) (c : QueryCache) :
    (keys.foldl evict c).config = c.config := by
  induction keys generalizing c with
  | nil => rfl
  | cons key keys ih => rw [List.foldl_cons, ih, evict_config]

theorem get_config (sha256 : Bytes → Bytes) (now : Nat) (tenantId sql : String) (c : QueryCache) :
    (c.get sha256 now tenantId sql).2.config = c.config := by
  unfold get
  simp only
  split
  · rfl
  · split
    · rw [evict_config]
    · rfl

/-- Reading makes up no binding. -/
theorem forgets_get (sha256 : Bytes → Bytes) (now : Nat) (tenantId sql : String) (c : QueryCache) :
    (c.get sha256 now tenantId sql).2.lru.Forgets c.lru := by
  unfold get
  simp only
  split
  · exact fun _ _ h => h
  · split
    · exact (forgets_evict _ _).trans (Recency.forgets_touch c.lru _)
    · exact Recency.forgets_touch c.lru _

/-- What a read hands out is bound to the key, and has not expired. -/
theorem get_some {sha256 : Bytes → Bytes} {now : Nat} {tenantId sql : String} {c : QueryCache}
    {v : List RecordBatch × String} (h : (c.get sha256 now tenantId sql).1 = some v) :
    ∃ entry, c.lru.peek (.new sha256 tenantId sql) = some entry ∧ c.expired now entry = false ∧
      v = (entry.batches, entry.attestationJws) := by
  unfold get at h
  simp only at h
  split at h
  · cases h
  · rename_i entry hentry
    split at h
    · cases h
    · rename_i hlive
      exact ⟨entry, hentry, by simpa using hlive, (Option.some.inj h).symm⟩

theorem get_of_peek {sha256 : Bytes → Bytes} {now : Nat} {tenantId sql : String} {c : QueryCache}
    {entry : CacheEntry} (h : c.lru.peek (.new sha256 tenantId sql) = some entry)
    (hlive : c.expired now entry = false) :
    (c.get sha256 now tenantId sql).1 = some (entry.batches, entry.attestationJws) := by
  unfold get
  simp [h, hlive]

/-- A read hands something out when the entry of its key has not expired. -/
theorem get_isSome_iff {sha256 : Bytes → Bytes} {now : Nat} {tenantId sql : String}
    {c : QueryCache} : (c.get sha256 now tenantId sql).1.isSome ↔
      ∃ entry, c.lru.peek (.new sha256 tenantId sql) = some entry ∧ c.expired now entry = false := by
  constructor
  · intro h
    obtain ⟨v, hv⟩ := Option.isSome_iff_exists.mp h
    obtain ⟨entry, hentry, hlive, -⟩ := get_some hv
    exact ⟨entry, hentry, hlive⟩
  · intro h
    obtain ⟨entry, hentry, hlive⟩ := h
    rw [get_of_peek hentry hlive]
    rfl

/-- A cache that binds a key to nothing else returns nothing else for it. -/
theorem get_mono {sha256 : Bytes → Bytes} {now : Nat} {tenantId sql : String}
    {c c' : QueryCache} (hconfig : c'.config = c.config)
    (hpeek : ∀ entry, c'.lru.peek (.new sha256 tenantId sql) = some entry →
      c.lru.peek (.new sha256 tenantId sql) = some entry)
    {v : List RecordBatch × String} (h : (c'.get sha256 now tenantId sql).1 = some v) :
    (c.get sha256 now tenantId sql).1 = some v := by
  obtain ⟨entry, hentry, hlive, rfl⟩ := get_some h
  apply get_of_peek (hpeek entry hentry)
  rw [← hlive, expired, expired, hconfig]

@[simp] theorem makeRoom_config (byteSize turns : Nat) (c : QueryCache) :
    (c.makeRoom byteSize turns).config = c.config := by
  induction turns generalizing c with
  | zero => rfl
  | succ turns ih =>
    unfold makeRoom
    split
    · split
      · rfl
      · rw [ih]
    · rfl

theorem forgets_makeRoom (byteSize turns : Nat) (c : QueryCache) :
    (c.makeRoom byteSize turns).lru.Forgets c.lru := by
  induction turns generalizing c with
  | zero => exact fun _ _ h => h
  | succ turns ih =>
    unfold makeRoom
    split
    · split
      · exact fun _ _ h => h
      · exact (ih _).trans (Recency.forgets_popLru c.lru)
    · exact fun _ _ h => h

/-- The loop of `put` ends with room for the new entry, or with nothing left to evict. -/
theorem makeRoom_done (byteSize turns : Nat) (c : QueryCache)
    (h : c.lru.entries.length ≤ turns) :
    usize ((c.makeRoom byteSize turns).totalBytes + byteSize) ≤ c.config.maxBytes ∨
      (c.makeRoom byteSize turns).lru.entries = [] := by
  induction turns generalizing c with
  | zero => exact .inr (List.length_eq_zero_iff.1 (Nat.le_zero.1 h))
  | succ turns ih =>
    unfold makeRoom
    split
    · split
      · rename_i hlast
        exact .inr (List.getLast?_eq_none_iff.1 hlast)
      · apply ih
        show c.lru.entries.dropLast.length ≤ turns
        rw [List.length_dropLast]
        omega
    · rename_i hroom
      exact .inl (Nat.le_of_not_lt hroom)

/-- The entry that a call of `put` makes. -/
def entryOf (buffers : ArrayRef → List Nat) (now : Nat) (batches : List RecordBatch)
    (attestationJws : String) : CacheEntry :=
  ⟨batches, estimateBatchesBytes buffers batches, now, attestationJws⟩

theorem peek_put_self (sha256 : Bytes → Bytes) (buffers : ArrayRef → List Nat) (now : Nat)
    (tenantId sql : String) (batches : List RecordBatch) (jws : String) (c : QueryCache) :
    (c.put sha256 buffers now tenantId sql batches jws).lru.peek (.new sha256 tenantId sql) =
      some (entryOf buffers now batches jws) :=
  Recency.peek_put_self _ _ _

theorem peek_put_of_ne {sha256 : Bytes → Bytes} {buffers : ArrayRef → List Nat} {now : Nat}
    {tenantId sql : String} {batches : List RecordBatch} {jws : String} {c : QueryCache}
    {k : CacheKey} {entry : CacheEntry} (hk : k ≠ .new sha256 tenantId sql)
    (h : (c.put sha256 buffers now tenantId sql batches jws).lru.peek k = some entry) :
    c.lru.peek k = some entry :=
  forgets_makeRoom _ _ c k entry (Recency.peek_put_of_ne hk h)

theorem put_config (sha256 : Bytes → Bytes) (buffers : ArrayRef → List Nat) (now : Nat)
    (tenantId sql : String) (batches : List RecordBatch) (jws : String) (c : QueryCache) :
    (c.put sha256 buffers now tenantId sql batches jws).config = c.config :=
  makeRoom_config _ _ c

theorem invalidateTenant_config (tenantId : String) (c : QueryCache) :
    (c.invalidateTenant tenantId).config = c.config :=
  foldl_evict_config _ c

theorem peek_foldl_evict (keys : List CacheKey) (c : QueryCache) (k : CacheKey) :
    (keys.foldl evict c).lru.peek k = if k ∈ keys then none else c.lru.peek k := by
  induction keys generalizing c with
  | nil => rfl
  | cons key keys ih =>
    rw [List.foldl_cons, ih, peek_evict]
    by_cases h : k = key <;> by_cases h' : k ∈ keys <;> simp [h, h']

/-- The sweep takes every entry of the tenant and no other. -/
theorem peek_invalidateTenant (tenantId : String) (c : QueryCache) (k : CacheKey) :
    (c.invalidateTenant tenantId).lru.peek k =
      if k.tenantId = tenantId then none else c.lru.peek k := by
  unfold invalidateTenant
  rw [peek_foldl_evict]
  by_cases ht : k.tenantId = tenantId
  · rw [if_pos ht]
    split
    · rfl
    · rename_i hk
      apply List.lookup_eq_none_iff.2
      intro e he
      have hne : e.1 ≠ k := by
        intro heq
        exact hk (List.mem_filter.2 ⟨List.mem_map.2 ⟨e, he, heq⟩, by simpa using ht⟩)
      simpa using Ne.symm hne
  · rw [if_neg ht, if_neg]
    intro hk
    exact ht (by simpa using (List.mem_filter.1 hk).2)

end QueryCache

end Griot.Pool
