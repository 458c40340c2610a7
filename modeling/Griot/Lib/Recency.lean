import Mathlib.Algebra.Ring.Nat
import Mathlib.Data.List.Basic
import Mathlib.Data.List.Nodup

/-! Bounded recency lists.

A recency list holds at most `cap` entries, one a key, the most recently used one
first. Reading an entry moves it to the front, storing one puts it there, and
storing into a full list drops the entry at the back. What a key is bound to is
`peek`: every operation is described by what it does to it (`peek_put_self`,
`peek_pop`), or, where entries are dropped on the way, by what it cannot do
(`Forgets`). -/
namespace Griot.Lib

/-! ### Lookups in a list of entries -/

section Entries
variable {κ ν : Type} [DecidableEq κ]

theorem lookup_cons_of_ne {k j : κ} (h : j ≠ k) (v : ν) (l : List (κ × ν)) :
    ((k, v) :: l).lookup j = l.lookup j := by
  rw [List.lookup_cons, beq_false_of_ne h]

theorem lookup_filter_key (p : κ → Bool) (l : List (κ × ν)) (j : κ) :
    (l.filter (fun e => p e.1)).lookup j = if p j then l.lookup j else none := by
  induction l with
  | nil => simp
  | cons e l ih =>
    obtain ⟨k, v⟩ := e
    rw [List.filter_cons]
    by_cases hj : j = k
    · subst hj
      by_cases hp : p j
      · simp [hp]
      · rw [if_neg hp, ih, if_neg hp, if_neg hp]
    · rw [lookup_cons_of_ne hj]
      split
      · rw [lookup_cons_of_ne hj, ih]
      · exact ih

/-- A list cut short is bound to nothing new. -/
theorem lookup_of_lookup_dropLast {l : List (κ × ν)} {j : κ} {v : ν}
    (h : l.dropLast.lookup j = some v) : l.lookup j = some v := by
  by_cases hl : l = []
  · subst hl
    exact h
  · rw [← List.dropLast_concat_getLast hl, List.lookup_append, h]
    rfl

end Entries

/-! ### The list and its operations -/

structure Recency (κ ν : Type) where
  cap : Nat
  entries : List (κ × ν)
  pos : 0 < cap
  nodup : (entries.map Prod.fst).Nodup
  bounded : entries.length ≤ cap

namespace Recency
variable {κ ν : Type} [DecidableEq κ]

def empty (cap : Nat) (pos : 0 < cap) : Recency κ ν := ⟨cap, [], pos, .nil, Nat.zero_le _⟩

/-- What a key is bound to, looked at without using it. -/
def peek (r : Recency κ ν) (k : κ) : Option ν := r.entries.lookup k

def isEmpty (r : Recency κ ν) : Bool := r.entries.isEmpty

/-- Keep the entries of some keys. -/
def keep (p : κ → Bool) (r : Recency κ ν) : Recency κ ν where
  cap := r.cap
  entries := r.entries.filter (fun e => p e.1)
  pos := r.pos
  nodup := (List.filter_sublist.map Prod.fst).nodup r.nodup
  bounded := Nat.le_trans (List.length_filter_le _ _) r.bounded

def pop (r : Recency κ ν) (k : κ) : Recency κ ν := r.keep (fun j => decide (j ≠ k))

/-- Drop the entry at the back. -/
def popLru (r : Recency κ ν) : Recency κ ν where
  cap := r.cap
  entries := r.entries.dropLast
  pos := r.pos
  nodup := ((List.dropLast_sublist _).map Prod.fst).nodup r.nodup
  bounded := Nat.le_trans (List.dropLast_sublist _).length_le r.bounded

/-- The entry at the back. -/
def lru (r : Recency κ ν) : Option (κ × ν) := r.entries.getLast?

def clear (r : Recency κ ν) : Recency κ ν := ⟨r.cap, [], r.pos, .nil, Nat.zero_le _⟩

/-- Make room for one more entry under a key. -/
def room (r : Recency κ ν) (k : κ) : Recency κ ν :=
  if (r.pop k).entries.length < r.cap then r.pop k else (r.pop k).popLru

theorem room_length (r : Recency κ ν) (k : κ) : (r.room k).entries.length < (r.room k).cap := by
  unfold room
  split
  · assumption
  · have hcap := (r.pop k).pos
    have hlen := (r.pop k).bounded
    show (r.pop k).entries.dropLast.length < (r.pop k).cap
    rw [List.length_dropLast]
    omega

theorem room_notMem (r : Recency κ ν) (k : κ) : k ∉ (r.room k).entries.map Prod.fst := by
  have hpop : k ∉ (r.pop k).entries.map Prod.fst := by
    simp [pop, keep]
  unfold room
  split
  · exact hpop
  · exact fun h => hpop (((List.dropLast_sublist _).map Prod.fst).subset h)

/-- Bind a key at the front. -/
def put (r : Recency κ ν) (k : κ) (v : ν) : Recency κ ν where
  cap := (r.room k).cap
  entries := (k, v) :: (r.room k).entries
  pos := (r.room k).pos
  nodup := by
    rw [List.map_cons, List.nodup_cons]
    exact ⟨r.room_notMem k, (r.room k).nodup⟩
  bounded := r.room_length k

/-- Move the entry of a key, if it has one, to the front. -/
def touch (r : Recency κ ν) (k : κ) : Recency κ ν :=
  match r.peek k with
  | none => r
  | some v => r.put k v

/-! ### What the operations do to a binding -/

theorem peek_keep (p : κ → Bool) (r : Recency κ ν) (j : κ) :
    (r.keep p).peek j = if p j then r.peek j else none :=
  lookup_filter_key p r.entries j

theorem peek_pop (r : Recency κ ν) (k j : κ) :
    (r.pop k).peek j = if j = k then none else r.peek j := by
  rw [pop, peek_keep]
  by_cases h : j = k <;> simp [h]

@[simp] theorem peek_put_self (r : Recency κ ν) (k : κ) (v : ν) : (r.put k v).peek k = some v := by
  simp [peek, put]

/-- Every binding of the one list is one of the other. -/
def Forgets (r' r : Recency κ ν) : Prop := ∀ j v, r'.peek j = some v → r.peek j = some v

theorem Forgets.trans {r₁ r₂ r₃ : Recency κ ν} (h : r₁.Forgets r₂) (h' : r₂.Forgets r₃) :
    r₁.Forgets r₃ := fun j v hv => h' j v (h j v hv)

theorem forgets_keep (p : κ → Bool) (r : Recency κ ν) : (r.keep p).Forgets r := by
  intro j v h
  rw [peek_keep] at h
  split at h
  · exact h
  · cases h

theorem forgets_popLru (r : Recency κ ν) : r.popLru.Forgets r :=
  fun _ _ h => lookup_of_lookup_dropLast h

theorem forgets_room (r : Recency κ ν) (k : κ) : (r.room k).Forgets r := by
  unfold room
  split
  · exact forgets_keep _ r
  · exact (forgets_popLru _).trans (forgets_keep _ r)

/-- Storing under one key creates no binding of another. -/
theorem peek_put_of_ne {r : Recency κ ν} {k j : κ} {v w : ν} (hj : j ≠ k)
    (h : (r.put k v).peek j = some w) : r.peek j = some w := by
  unfold peek put at h
  rw [lookup_cons_of_ne hj] at h
  exact forgets_room r k j w h

theorem peek_put {r : Recency κ ν} {k j : κ} {v w : ν} (h : (r.put k v).peek j = some w) :
    (j = k ∧ w = v) ∨ (j ≠ k ∧ r.peek j = some w) := by
  by_cases hj : j = k
  · subst hj
    rw [peek_put_self] at h
    exact .inl ⟨rfl, (Option.some.inj h).symm⟩
  · exact .inr ⟨hj, peek_put_of_ne hj h⟩

theorem forgets_touch (r : Recency κ ν) (k : κ) : (r.touch k).Forgets r := by
  intro j w h
  unfold touch at h
  split at h
  · exact h
  · rename_i v hv
    obtain ⟨rfl, rfl⟩ | ⟨-, hw⟩ := peek_put h
    · exact hv
    · exact hw

end Recency

/-! ### The weight of a list -/

namespace Recency
variable {κ ν : Type}

/-- Keep the first entries. -/
def take (r : Recency κ ν) (n : Nat) : Recency κ ν where
  cap := r.cap
  entries := r.entries.take n
  pos := r.pos
  nodup := ((List.take_sublist n _).map Prod.fst).nodup r.nodup
  bounded := Nat.le_trans (List.take_sublist n _).length_le r.bounded

theorem take_length (r : Recency κ ν) : r.take r.entries.length = r := by
  simp [take]

theorem take_popLru (r : Recency κ ν) {n : Nat} (h : n < r.entries.length) :
    r.popLru.take n = r.take n := by
  simp only [take, popLru, mk.injEq, true_and]
  rw [List.dropLast_eq_take, List.take_take, Nat.min_eq_left (by omega)]

/-- What the entries weigh together. -/
def weight (w : ν → Nat) (r : Recency κ ν) : Nat := (r.entries.map (fun e => w e.2)).sum

theorem weight_popLru (w : ν → Nat) {r : Recency κ ν} {e : κ × ν} (h : r.lru = some e) :
    r.weight w = r.popLru.weight w + w e.2 := by
  obtain ⟨front, hfront⟩ := List.getLast?_eq_some_iff.1 h
  simp [weight, popLru, hfront]

variable [DecidableEq κ]

theorem pop_of_peek_none {r : Recency κ ν} {k : κ} (h : r.peek k = none) :
    (r.pop k).entries = r.entries := by
  apply List.filter_eq_self.2
  intro e he
  apply decide_eq_true
  intro heq
  subst heq
  simpa using List.lookup_eq_none_iff.1 h e he

theorem pop_length_lt {r : Recency κ ν} {k : κ} {v : ν} (h : r.peek k = some v) :
    (r.pop k).entries.length < r.entries.length := by
  obtain ⟨front, back, hsplit, -⟩ := List.lookup_eq_some_iff.1 h
  apply List.length_filter_lt_length_iff_exists.2
  exact ⟨(k, v), by simp [hsplit], by simp⟩

/-- What storing under a key takes out of the list: the entry of the key or, when there is none
and the list is full, the one at the back. -/
def displaced (r : Recency κ ν) (k : κ) : Option ν :=
  (r.peek k).or (if r.entries.length < r.cap then none else r.lru.map Prod.snd)

variable (w : ν → Nat)

theorem weight_pop {r : Recency κ ν} {k : κ} {v : ν} (h : r.peek k = some v) :
    r.weight w = (r.pop k).weight w + w v := by
  obtain ⟨front, back, hsplit, hfront⟩ := List.lookup_eq_some_iff.1 h
  have hnodup := r.nodup
  rw [hsplit, List.map_append, List.map_cons] at hnodup
  have hback := (List.nodup_cons.1 (List.nodup_append.1 hnodup).2.1).1
  have hpop : (r.pop k).entries = front ++ back := by
    show r.entries.filter _ = _
    rw [hsplit, List.filter_append, List.filter_cons_of_neg (by simp)]
    congr 1 <;> apply List.filter_eq_self.2
    · intro e he
      apply decide_eq_true
      intro heq
      subst heq
      exact absurd (hfront e he) (by simp)
    · intro e he
      apply decide_eq_true
      intro hkey
      exact hback (List.mem_map.2 ⟨e, he, hkey⟩)
  simp only [weight, hpop, hsplit, List.map_append, List.map_cons, List.sum_append, List.sum_cons]
  omega

theorem weight_pop_of_none {r : Recency κ ν} {k : κ} (h : r.peek k = none) :
    (r.pop k).weight w = r.weight w := by
  rw [weight, pop_of_peek_none h, weight]

/-- The weight that storing under a key takes out of the list. -/
theorem weight_room (r : Recency κ ν) (k : κ) :
    r.weight w = (r.room k).weight w + (r.displaced k).elim 0 w := by
  unfold displaced
  cases hpeek : r.peek k with
  | some v =>
    have hroom : r.room k = r.pop k := by
      apply if_pos
      exact Nat.lt_of_lt_of_le (pop_length_lt hpeek) r.bounded
    rw [hroom, weight_pop w hpeek]
    rfl
  | none =>
    have hpop := pop_of_peek_none hpeek
    by_cases hfull : r.entries.length < r.cap
    · have hroom : r.room k = r.pop k := by
        apply if_pos
        rw [hpop]
        exact hfull
      rw [hroom, weight_pop_of_none w hpeek, if_pos hfull]
      rfl
    · have hroom : r.room k = (r.pop k).popLru := by
        apply if_neg
        rw [hpop]
        exact hfull
      rw [hroom, if_neg hfull, Option.none_or]
      cases hlru : r.lru with
      | none =>
        have hnil : r.entries = [] := List.getLast?_eq_none_iff.1 hlru
        have hpos := r.pos
        rw [hnil] at hfull
        exact absurd hpos hfull
      | some e =>
        have hlru' : (r.pop k).lru = some e := by
          rw [lru, hpop]
          exact hlru
        rw [← weight_pop_of_none w hpeek, weight_popLru w hlru']
        rfl

theorem weight_put (r : Recency κ ν) (k : κ) (v : ν) :
    (r.put k v).weight w = w v + (r.room k).weight w := by
  simp [weight, put]

theorem room_cap (r : Recency κ ν) (k : κ) : (r.room k).cap = r.cap := by
  unfold room
  split <;> rfl

theorem touch_cap (r : Recency κ ν) (k : κ) : (r.touch k).cap = r.cap := by
  unfold touch
  split
  · rfl
  · exact r.room_cap k

theorem weight_touch (r : Recency κ ν) (k : κ) : (r.touch k).weight w = r.weight w := by
  unfold touch
  split
  · rfl
  · rename_i v hv
    rw [weight_put, r.weight_room w k, displaced, hv, Nat.add_comm]
    rfl

end Recency

end Griot.Lib
