import Griot.Pool.QueryCache

/-! Histories of the query cache.

The calls on a cache, with the time each was made at, are its history. The history says
what a pair of tenant and SQL text stands for, without a word about
recency, bytes or eviction (`effect`); the cache is truthful to it
(`step_truthful`) as long as the digests keep the texts apart. -/
namespace Griot.Pool

open Lib

inductive Call where
  | put (tenantId sql : String) (batches : List RecordBatch) (attestationJws : String)
  | get (tenantId sql : String)
  | invalidateTenant (tenantId : String)
  | invalidateAll

structure Event where
  now : Nat
  call : Call

namespace Call

/-- Calls that store or drop what a pair stands for. -/
def rewrites (tenantId sql : String) : Call → Bool
  | put t s _ _ => t = tenantId ∧ s = sql
  | get _ _ => false
  | invalidateTenant t => t = tenantId
  | invalidateAll => true

/-- Calls on the tenant and the text; all others are on another tenant or another text. -/
def concerns (tenantId sql : String) : Call → Bool
  | get t s => t = tenantId ∧ s = sql
  | call => call.rewrites tenantId sql

/-- The SQL text of a call. -/
def sql? : Call → Option String
  | put _ s _ _ | get _ s => some s
  | invalidateTenant _ | invalidateAll => none

end Call

/-- The SQL texts used in a history. -/
def texts (history : List Event) : List String := history.filterMap (fun e => e.call.sql?)

/-- The clock does not run backwards. -/
def Clocked (history : List Event) : Prop := history.Pairwise (fun e e' => e.now ≤ e'.now)

def NoCollision (sha256 : Bytes → Bytes) (used : List String) : Prop :=
  ∀ a ∈ used, ∀ b ∈ used, sha256 (utf8 a) = sha256 (utf8 b) → a = b

section
variable (sha256 : Bytes → Bytes) (buffers : ArrayRef → List Nat)

def QueryCache.step (e : Event) (c : QueryCache) : QueryCache :=
  match e.call with
  | .put tenantId sql batches jws => c.put sha256 buffers e.now tenantId sql batches jws
  | .get tenantId sql => (c.get sha256 e.now tenantId sql).2
  | .invalidateTenant tenantId => c.invalidateTenant tenantId
  | .invalidateAll => c.invalidateAll

/-- The cache after a history, the oldest call first. -/
def QueryCache.run (config : QueryCacheConfig) (history : List Event) : QueryCache :=
  history.foldl (fun c e => c.step sha256 buffers e) (.new config)

/-- What a call does to a pair of tenant and text. -/
def effect (e : Event) (pair : String × String) : History.Effect CacheEntry :=
  match e.call with
  | .put tenantId sql batches jws =>
    if (tenantId, sql) = pair then .binds (QueryCache.entryOf buffers e.now batches jws) else .leaves
  | .get _ _ => .leaves
  | .invalidateTenant tenantId => if pair.1 = tenantId then .unbinds else .leaves
  | .invalidateAll => .unbinds

theorem effect_put (now : Nat) (t s : String) (batches : List RecordBatch) (jws : String)
    (pair : String × String) :
    effect buffers ⟨now, .put t s batches jws⟩ pair =
      if (t, s) = pair then .binds (QueryCache.entryOf buffers now batches jws) else .leaves := rfl

theorem effect_invalidateTenant (now : Nat) (t : String) (pair : String × String) :
    effect buffers ⟨now, .invalidateTenant t⟩ pair = if pair.1 = t then .unbinds else .leaves := rfl

/-- What the cache has for a pair. -/
def binding (c : QueryCache) (pair : String × String) : Option CacheEntry :=
  c.lru.peek (.new sha256 pair.1 pair.2)

/-- No call changes the configuration. -/
theorem step_config (e : Event) (c : QueryCache) :
    (c.step sha256 buffers e).config = c.config := by
  obtain ⟨now, call⟩ := e
  cases call with
  | put t s batches jws => exact QueryCache.put_config sha256 buffers now t s batches jws c
  | get t s => exact c.get_config sha256 now t s
  | invalidateTenant t => exact QueryCache.invalidateTenant_config t c
  | invalidateAll => rfl

theorem run_config (config : QueryCacheConfig) (history : List Event) :
    (QueryCache.run sha256 buffers config history).config = config := by
  induction history using List.reverseRecOn with
  | nil => rfl
  | append_singleton history e ih =>
    rw [QueryCache.run, List.foldl_concat, step_config]
    exact ih

/-! ### The cache is truthful -/

variable {sha256}

theorem key_inj {used : List String} (hsha : NoCollision sha256 used) {t t' s s' : String}
    (hs : s ∈ used) (hs' : s' ∈ used) (h : CacheKey.new sha256 t s = .new sha256 t' s') :
    (t, s) = (t', s') := by
  obtain ⟨ht, hd⟩ := CacheKey.mk.inj h
  rw [ht, hsha s hs s' hs' hd]

/-- One call makes up no binding of a pair whose text it does not collide with. -/
theorem step_truthful {used : List String} (hsha : NoCollision sha256 used) {e : Event}
    (he : ∀ s ∈ e.call.sql?, s ∈ used) {pair : String × String} (hp : pair.2 ∈ used) :
    History.Truthful (effect buffers) (binding sha256)
      (fun e c => c.step sha256 buffers e) e pair := by
  intro c entry h
  obtain ⟨now, call⟩ := e
  cases call with
  | put t s batches jws =>
    rw [effect_put]
    by_cases heq : (t, s) = pair
    · subst heq
      rw [if_pos rfl]
      exact (c.peek_put_self sha256 buffers now t s batches jws).symm.trans h
    · rw [if_neg heq]
      apply QueryCache.peek_put_of_ne _ h
      intro hkey
      exact heq (key_inj hsha hp (he s rfl) hkey).symm
  | get t s => exact QueryCache.forgets_get sha256 now t s c _ _ h
  | invalidateTenant t =>
    have hpeek : binding sha256 (c.invalidateTenant t) pair =
        if pair.1 = t then none else binding sha256 c pair := c.peek_invalidateTenant t _
    have h' := hpeek.symm.trans h
    rw [effect_invalidateTenant]
    by_cases heq : pair.1 = t
    · rw [if_pos heq] at h'
      cases h'
    · rw [if_neg heq] at h' ⊢
      exact h'
  | invalidateAll => cases h

theorem effect_leaves {e : Event} {t s : String} (h : e.call.rewrites t s = false) :
    effect buffers e (t, s) = .leaves := by
  obtain ⟨now, call⟩ := e
  cases call with
  | put t' s' batches jws =>
    apply if_neg
    intro heq
    obtain ⟨rfl, rfl⟩ := Prod.mk.inj heq
    simp [Call.rewrites] at h
  | get t' s' => rfl
  | invalidateTenant t' =>
    apply if_neg
    intro heq
    simp [Call.rewrites, ← show t = t' from heq] at h
  | invalidateAll => cases h

theorem rewrites_of_leaves {e : Event} {t s : String} (h : effect buffers e (t, s) = .leaves) :
    e.call.rewrites t s = false := by
  obtain ⟨now, call⟩ := e
  cases call with
  | put t' s' batches jws =>
    by_cases heq : (t', s') = (t, s)
    · rw [effect_put, if_pos heq] at h
      cases h
    · simpa [Call.rewrites] using heq
  | get t' s' => rfl
  | invalidateTenant t' =>
    by_cases heq : t = t'
    · rw [effect_invalidateTenant, if_pos heq] at h
      cases h
    · simpa [Call.rewrites] using Ne.symm heq
  | invalidateAll => cases h

/-- Only a put for the pair binds it. -/
theorem effect_binds {e : Event} {t s : String} {entry : CacheEntry}
    (h : effect buffers e (t, s) = .binds entry) :
    e = ⟨entry.insertedAt, .put t s entry.batches entry.attestationJws⟩ := by
  obtain ⟨now, call⟩ := e
  cases call with
  | put t' s' batches jws =>
    by_cases heq : (t', s') = (t, s)
    · rw [effect_put, if_pos heq] at h
      obtain ⟨rfl, rfl⟩ := Prod.mk.inj heq
      obtain rfl := History.Effect.binds.inj h
      rfl
    · rw [effect_put, if_neg heq] at h
      cases h
  | get t' s' => cases h
  | invalidateTenant t' =>
    rw [effect_invalidateTenant] at h
    split at h <;> cases h
  | invalidateAll => cases h

/-- What the cache holds for a pair is what the pair stands for. -/
theorem standing_of_binding {config : QueryCacheConfig} {history : List Event} {t s : String}
    (hsha : NoCollision sha256 (s :: texts history)) {entry : CacheEntry}
    (h : binding sha256 (QueryCache.run sha256 buffers config history) (t, s) = some entry) :
    History.standing (effect buffers) (t, s) history = some entry := by
  apply History.standing_of_lookup (QueryCache.new config) rfl _ h
  intro e he
  apply step_truthful buffers hsha
  · intro sql hsql
    exact List.mem_cons_of_mem _ (List.mem_filterMap.2 ⟨e, he, hsql⟩)
  · exact List.mem_cons_self

theorem standing_congr {t s : String} {history history' : List Event}
    (h : history'.filter (fun e => e.call.concerns t s) =
      history.filter (fun e => e.call.concerns t s)) :
    History.standing (effect buffers) (t, s) history' =
      History.standing (effect buffers) (t, s) history := by
  have hleaves : ∀ e : Event, e.call.concerns t s = false → effect buffers e (t, s) = .leaves := by
    intro e he
    apply effect_leaves
    cases hc : e.call with
    | get t' s' => rfl
    | put t' s' batches jws => rwa [hc] at he
    | invalidateTenant t' => rwa [hc] at he
    | invalidateAll => rwa [hc] at he
  rw [← History.standing_filter (effect buffers) (t, s) _ history' (fun e _ => hleaves e), h,
    History.standing_filter (effect buffers) (t, s) _ history (fun e _ => hleaves e)]

/-- **The cache is a sound, tenant-isolated partial map.** What it returns for a pair is
what the last put for exactly this pair stored, not invalidated since and inserted no longer
ago than the time to live; calls on other tenants and texts do not change it. -/
theorem cache_sound {config : QueryCacheConfig} {history : List Event} {now : Nat}
    {tenantId sql : String} {v : List RecordBatch × String}
    (hclock : Clocked (history ++ [⟨now, .get tenantId sql⟩]))
    (hsha : NoCollision sha256 (sql :: texts history))
    (hget : ((QueryCache.run sha256 buffers config history).get sha256 now tenantId sql).1 = some v) :
    (∃ before insertedAt after,
      history = before ++ ⟨insertedAt, .put tenantId sql v.1 v.2⟩ :: after ∧
      (∀ e ∈ after, e.call.rewrites tenantId sql = false) ∧
      insertedAt ≤ now ∧ now - insertedAt ≤ config.ttl) ∧
    ∀ history' now' v', NoCollision sha256 (sql :: texts history') →
      history'.filter (fun e => e.call.concerns tenantId sql) =
        history.filter (fun e => e.call.concerns tenantId sql) →
      ((QueryCache.run sha256 buffers config history').get sha256 now' tenantId sql).1 = some v' →
      v' = v := by
  obtain ⟨entry, hentry, hlive, rfl⟩ := QueryCache.get_some hget
  have hstanding := standing_of_binding buffers hsha hentry
  have hpast : ∀ e ∈ history, e.now ≤ now := fun e he =>
    (List.pairwise_append.1 hclock).2.2 e he _ (List.mem_singleton.2 rfl)
  constructor
  · obtain ⟨before, e, after, rfl, hbinds, hafter⟩ := History.last_binding _ _ hstanding
    obtain rfl := effect_binds buffers hbinds
    refine ⟨before, entry.insertedAt, after, rfl, ?_, ?_, ?_⟩
    · intro e he
      exact rewrites_of_leaves buffers (hafter e he)
    · exact hpast _ (List.mem_append_right _ List.mem_cons_self)
    · rw [← run_config sha256 buffers config]
      exact Nat.le_of_not_lt (of_decide_eq_false hlive)
  · intro history' now' v' hsha' hsame hget'
    obtain ⟨entry', hentry', -, rfl⟩ := QueryCache.get_some hget'
    have hstanding' := standing_of_binding buffers hsha' hentry'
    rw [standing_congr buffers hsame, hstanding] at hstanding'
    rw [Option.some.inj hstanding']

end

/-- A result stored for one tenant and read back after the sweep of another. -/
theorem cache_sound_after_sweep :
    ∃ before insertedAt after,
      ([⟨5, .put "acme" "SELECT 1" [] "jws"⟩, ⟨6, .invalidateTenant "other"⟩] : List Event) =
        before ++ ⟨insertedAt, .put "acme" "SELECT 1" [] "jws"⟩ :: after ∧
      (∀ e ∈ after, e.call.rewrites "acme" "SELECT 1" = false) ∧
      insertedAt ≤ 7 ∧ 7 - insertedAt ≤ QueryCacheConfig.default.ttl := by
  have hclock : Clocked [⟨5, .put "acme" "SELECT 1" [] "jws"⟩, ⟨6, .invalidateTenant "other"⟩,
      ⟨7, .get "acme" "SELECT 1"⟩] := by
    simp [Clocked]
  have hsha : NoCollision id ("SELECT 1" :: texts
      [⟨5, .put "acme" "SELECT 1" [] "jws"⟩, ⟨6, .invalidateTenant "other"⟩]) := by
    intro a ha b hb _
    simp only [texts, Call.sql?, List.filterMap_cons, List.filterMap_nil, List.mem_cons,
      List.not_mem_nil, or_false, or_self] at ha hb
    rw [ha, hb]
  exact (cache_sound (fun _ => []) hclock hsha (v := ([], "jws")) rfl).1

end Griot.Pool
