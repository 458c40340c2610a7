import Mathlib.Data.Finset.Sort

/-! Finite maps.

A hash map is what it answers to lookups together with its finite set of keys.
Nothing else about it is fixed, so two maps that answer alike are equal
(`Dict.ext`). Where code walks a map the walk is in key order (`entries`); code
that may walk in any order must not depend on it. -/
namespace Griot.Lib

structure Dict (κ α : Type) [DecidableEq κ] where
  lookup : κ → Option α
  keys : Finset κ
  mem_keys : ∀ k, k ∈ keys ↔ (lookup k).isSome

namespace Dict
variable {κ α β ε : Type} [DecidableEq κ]

@[ext] theorem ext {d e : Dict κ α} (h : ∀ k, d.lookup k = e.lookup k) : d = e := by
  obtain ⟨f, s, hs⟩ := d
  obtain ⟨g, t, ht⟩ := e
  obtain rfl : f = g := funext h
  obtain rfl : s = t := by
    ext k
    rw [hs, ht]
  rfl

def empty : Dict κ α := ⟨fun _ => none, ∅, by simp⟩

def insert (d : Dict κ α) (k : κ) (v : α) : Dict κ α where
  lookup := fun k' => if k' = k then some v else d.lookup k'
  keys := Insert.insert k d.keys
  mem_keys := fun k' => by
    rw [Finset.mem_insert, d.mem_keys]
    by_cases h : k' = k <;> simp [h]

@[simp] theorem lookup_empty (k : κ) : (empty : Dict κ α).lookup k = none := rfl

theorem lookup_insert (d : Dict κ α) (k k' : κ) (v : α) :
    (d.insert k v).lookup k' = if k' = k then some v else d.lookup k' := rfl

/-- Change every value. -/
def map (f : α → β) (d : Dict κ α) : Dict κ β where
  lookup := fun k => (d.lookup k).map f
  keys := d.keys
  mem_keys := fun k => by rw [d.mem_keys, Option.isSome_map]

@[simp] theorem lookup_map (f : α → β) (d : Dict κ α) (k : κ) :
    (d.map f).lookup k = (d.lookup k).map f := rfl

def isEmpty (d : Dict κ α) : Bool := d.keys = ∅

theorem isEmpty_iff {d : Dict κ α} : d.isEmpty = true ↔ ∀ k, d.lookup k = none := by
  simp only [isEmpty, decide_eq_true_eq, Finset.eq_empty_iff_forall_notMem, d.mem_keys]
  simp

/-! ### Lists of entries, later ones winning -/

def ofList (l : List (κ × α)) : Dict κ α := l.foldl (fun d e => d.insert e.1 e.2) empty

@[simp] theorem ofList_nil : (ofList [] : Dict κ α) = empty := rfl

theorem ofList_concat (l : List (κ × α)) (e : κ × α) :
    ofList (l ++ [e]) = (ofList l).insert e.1 e.2 := by
  simp [ofList]

theorem lookup_ofList (l : List (κ × α)) (hl : (l.map Prod.fst).Nodup) {k : κ} {v : α} :
    (ofList l).lookup k = some v ↔ (k, v) ∈ l := by
  induction l using List.reverseRecOn with
  | nil => simp
  | append_singleton l e ih =>
    rw [List.map_append, List.nodup_append] at hl
    obtain ⟨hl, -, hne⟩ := hl
    rw [ofList_concat, lookup_insert]
    by_cases hk : k = e.1
    · have hout : (k, v) ∉ l := fun hm =>
        hne k (List.mem_map_of_mem hm) e.1 (by simp) hk
      subst hk
      simp [hout, Prod.ext_iff, eq_comm]
    · rw [if_neg hk, ih hl]
      simp [Prod.ext_iff, hk]

theorem lookup_ofList_append (l l' : List (κ × α)) (k : κ) :
    (ofList (l ++ l')).lookup k = ((ofList l').lookup k).or ((ofList l).lookup k) := by
  induction l' using List.reverseRecOn with
  | nil => simp
  | append_singleton l' e ih =>
    rw [← List.append_assoc, ofList_concat, ofList_concat, lookup_insert, lookup_insert, ih]
    split <;> rfl

theorem lookup_ofList_const (ks : List κ) (v : α) (k : κ) :
    (ofList (ks.map (·, v))).lookup k = if k ∈ ks then some v else none := by
  induction ks using List.reverseRecOn with
  | nil => rfl
  | append_singleton ks k' ih =>
    rw [List.map_append, List.map_singleton, ofList_concat, lookup_insert, ih]
    by_cases hk : k = k' <;> simp [hk]

theorem mem_of_lookup_ofList {l : List (κ × α)} {k : κ} {v : α} (h : (ofList l).lookup k = some v) :
    (k, v) ∈ l := by
  induction l using List.reverseRecOn with
  | nil => cases h
  | append_singleton l e ih =>
    rw [ofList_concat, lookup_insert] at h
    rw [List.mem_append, List.mem_singleton]
    split at h
    · rename_i hk
      exact .inr (Prod.ext hk (Option.some.inj h).symm)
    · exact .inl (ih h)

theorem lookup_ofList_eq_none {l : List (κ × α)} {k : κ} :
    (ofList l).lookup k = none ↔ k ∉ l.map Prod.fst := by
  induction l using List.reverseRecOn with
  | nil => simp
  | append_singleton l e ih =>
    rw [ofList_concat, lookup_insert, List.map_append, List.mem_append, not_or, ← ih,
      List.map_singleton, List.mem_singleton]
    split
    · rename_i hk
      exact iff_of_false (by simp) (fun h => h.2 hk)
    · rename_i hk
      exact (and_iff_left hk).symm

/-- **The order of the entries does not matter exactly when those of one key are alike.** -/
theorem ofList_perm_iff {δ : Type} {r : α → α → Prop} (hr : Equivalence r) (f : δ → Option (κ × α))
    (l : List δ) :
    (∀ l' : List δ, l'.Perm l → ∀ k,
      Option.Rel r ((ofList (l.filterMap f)).lookup k) ((ofList (l'.filterMap f)).lookup k)) ↔
    ∀ e ∈ l.filterMap f, ∀ e' ∈ l.filterMap f, e.1 = e'.1 → r e.2 e'.2 := by
  constructor
  · -- Each entry has its turn at the end.
    have hlast : ∀ e ∈ l.filterMap f, ∃ l' : List δ, l'.Perm l ∧
        (ofList (l'.filterMap f)).lookup e.1 = some e.2 := by
      intro e he
      obtain ⟨x, hx, hf⟩ := List.mem_filterMap.mp he
      obtain ⟨before, after, rfl⟩ := List.append_of_mem hx
      refine ⟨before ++ after ++ [x], ?_, ?_⟩
      · rw [List.append_assoc]
        exact (List.perm_append_singleton x after).append_left before
      · have hx : [x].filterMap f = [e] := by
          simp [hf]
        rw [List.filterMap_append, hx, ofList_concat, lookup_insert, if_pos rfl]
    intro h e he e' he' hkey
    obtain ⟨l₁, hperm₁, hl₁⟩ := hlast e he
    obtain ⟨l₂, hperm₂, hl₂⟩ := hlast e' he'
    have hrel₁ := h l₁ hperm₁ e.1
    have hrel₂ := h l₂ hperm₂ e.1
    rw [hl₁] at hrel₁
    rw [hkey, hl₂, ← hkey] at hrel₂
    cases hv : (ofList (l.filterMap f)).lookup e.1 with
    | none =>
      rw [hv] at hrel₁
      cases hrel₁
    | some v =>
      rw [hv] at hrel₁ hrel₂
      cases hrel₁ with
      | some hrel₁ =>
        cases hrel₂ with
        | some hrel₂ => exact hr.trans (hr.symm hrel₁) hrel₂
  · intro h l' hperm k
    have hsame := hperm.filterMap f
    cases hv : (ofList (l.filterMap f)).lookup k with
    | none =>
      have hnone : (ofList (l'.filterMap f)).lookup k = none := by
        rw [lookup_ofList_eq_none] at hv ⊢
        rwa [(hsame.map Prod.fst).mem_iff]
      rw [hnone]
      exact .none
    | some v =>
      cases hv' : (ofList (l'.filterMap f)).lookup k with
      | none =>
        have hnone : (ofList (l.filterMap f)).lookup k = none := by
          rw [lookup_ofList_eq_none] at hv' ⊢
          rwa [← (hsame.map Prod.fst).mem_iff]
        rw [hnone] at hv
        cases hv
      | some v' =>
        exact .some (h _ (mem_of_lookup_ofList hv) _
          (hsame.mem_iff.mp (mem_of_lookup_ofList hv')) rfl)

/-! ### Walking a map -/

omit [DecidableEq κ] in
private theorem mapM_ok {l : List (κ × α)} {f : κ → α → Except ε β} {g : κ → α → β}
    (h : ∀ e ∈ l, f e.1 e.2 = .ok (g e.1 e.2)) :
    (l.mapM fun e => (f e.1 e.2).map fun b => (e.1, b)) =
      .ok (l.map fun e => (e.1, g e.1 e.2)) := by
  induction l with
  | nil => rfl
  | cons e l ih =>
    rw [List.mapM_cons, h e (List.mem_cons_self ..),
      ih fun e he => h e (List.mem_cons_of_mem _ he)]
    rfl

theorem of_mapM_ok {f : α → Except ε β} {l : List α} {bs : List β} (h : l.mapM f = .ok bs) :
    ∀ e ∈ l, ∃ b, f e = .ok b := by
  induction l generalizing bs with
  | nil => exact fun e he => absurd he List.not_mem_nil
  | cons a l ih =>
    rw [List.mapM_cons] at h
    cases ha : f a with
    | error _ =>
      rw [ha] at h
      cases h
    | ok b =>
      cases hl : l.mapM f with
      | error _ =>
        rw [ha, hl] at h
        cases h
      | ok bs => exact List.forall_mem_cons.2 ⟨⟨b, ha⟩, ih hl⟩

variable [LinearOrder κ]

/-- The entries in key order. -/
def entries (d : Dict κ α) : List (κ × α) :=
  (d.keys.sort (· ≤ ·)).filterMap fun k => (d.lookup k).map (k, ·)

theorem mem_entries (d : Dict κ α) {k : κ} {v : α} :
    (k, v) ∈ d.entries ↔ d.lookup k = some v := by
  simp only [entries, List.mem_filterMap, Finset.mem_sort, d.mem_keys, Option.map_eq_some_iff,
    Prod.mk.injEq]
  constructor
  · intro ⟨k', _, v', hv, heq, heq'⟩
    subst heq
    subst heq'
    exact hv
  · intro h
    exact ⟨k, by simp [h], v, h, rfl, rfl⟩

theorem entries_nodup (d : Dict κ α) : (d.entries.map Prod.fst).Nodup := by
  have hkeys : d.entries.map Prod.fst = (d.keys.sort (· ≤ ·)) := by
    rw [entries, List.map_filterMap]
    have : ∀ k ∈ d.keys.sort (· ≤ ·),
        ((d.lookup k).map (k, ·)).map Prod.fst = some k := by
      intro k hk
      rw [Finset.mem_sort, d.mem_keys] at hk
      obtain ⟨v, hv⟩ := Option.isSome_iff_exists.mp hk
      simp [hv]
    rw [List.filterMap_congr this, List.filterMap_some]
  rw [hkeys]
  exact Finset.sort_nodup _ _

theorem lookup_ofList_entries (g : κ → α → β) (d : Dict κ α) (k : κ) :
    (ofList (d.entries.map fun e => (e.1, g e.1 e.2))).lookup k = (d.lookup k).map (g k) := by
  apply Option.ext
  intro v
  rw [lookup_ofList _ (by simpa [List.map_map, Function.comp_def] using d.entries_nodup)]
  simp only [List.mem_map, Prod.exists, Prod.mk.injEq, mem_entries, Option.map_eq_some_iff]
  constructor
  · intro ⟨k', v', hv, heq, heq'⟩
    subst heq
    subst heq'
    exact ⟨v', hv, rfl⟩
  · intro ⟨v', hv, heq⟩
    subst heq
    exact ⟨k, v', hv, rfl, rfl⟩

/-- Rebuild a map entry by entry, stopping at the first entry that fails. -/
def traverse (f : κ → α → Except ε β) (d : Dict κ α) : Except ε (Dict κ β) :=
  (d.entries.mapM fun e => (f e.1 e.2).map fun b => (e.1, b)).map ofList

/-- When no entry fails, the rebuilt map answers with the rebuilt values. -/
theorem traverse_ok {f : κ → α → Except ε β} {g : κ → α → β} (d : Dict κ α)
    (h : ∀ k v, d.lookup k = some v → f k v = .ok (g k v)) :
    ∃ e, d.traverse f = .ok e ∧ ∀ k, e.lookup k = (d.lookup k).map (g k) := by
  refine ⟨ofList (d.entries.map fun e => (e.1, g e.1 e.2)), ?_, d.lookup_ofList_entries g⟩
  rw [traverse, mapM_ok fun e he => h e.1 e.2 ((mem_entries d).mp he)]
  rfl

/-- Where a map could be rebuilt, no entry failed. -/
theorem traverse_entry_ok {f : κ → α → Except ε β} {d : Dict κ α} {e : Dict κ β}
    (h : d.traverse f = .ok e) {k : κ} {v : α} (hv : d.lookup k = some v) :
    ∃ b, f k v = .ok b := by
  rw [traverse] at h
  have hmem := (mem_entries d).mpr hv
  cases hmap : d.entries.mapM fun e => (f e.1 e.2).map fun b => (e.1, b) with
  | error _ =>
    rw [hmap] at h
    cases h
  | ok es =>
    obtain ⟨b, hb⟩ := of_mapM_ok hmap (k, v) hmem
    cases hf : f k v with
    | error _ =>
      rw [hf] at hb
      cases hb
    | ok b => exact ⟨b, rfl⟩

end Dict
end Griot.Lib
