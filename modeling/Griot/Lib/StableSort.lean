import Mathlib.Data.List.Sort

/-! Stable sorting by a key, and what it forgets.

A stable sort keeps, for every key, the elements with that key in the order they
came in. That is all it keeps: two lists sort to the same list exactly when each
key selects the same sublist from both (`sortBy_eq_iff`). So a digest taken over
a sorted list fixes the order inside each key and nothing about the order
between keys; `sortBy_hoist` is the permutation an adversary uses. -/
namespace Griot.Lib

variable {α κ : Type*} [LinearOrder κ] (key : α → κ)

/-- The elements of `l` with key `k`, in order. -/
def keyed (k : κ) (l : List α) : List α := l.filter (fun a => key a = k)

/-- Stable sort by key. -/
def sortBy (l : List α) : List α := l.insertionSort (fun a b => key a ≤ key b)

@[simp] theorem keyed_nil (k : κ) : keyed key k [] = [] := rfl

theorem keyed_cons_of_eq {k : κ} {a : α} (h : key a = k) (l : List α) :
    keyed key k (a :: l) = a :: keyed key k l := by
  simp [keyed, h]

theorem keyed_cons_of_ne {k : κ} {a : α} (h : key a ≠ k) (l : List α) :
    keyed key k (a :: l) = keyed key k l := by
  simp [keyed, h]

theorem mem_keyed {k : κ} {a : α} {l : List α} : a ∈ keyed key k l ↔ a ∈ l ∧ key a = k := by
  simp [keyed]

theorem sortBy_perm (l : List α) : (sortBy key l).Perm l := List.perm_insertionSort _ l

@[simp] theorem mem_sortBy {a : α} {l : List α} : a ∈ sortBy key l ↔ a ∈ l :=
  (sortBy_perm key l).mem_iff

@[simp] theorem length_sortBy (l : List α) : (sortBy key l).length = l.length :=
  (sortBy_perm key l).length_eq

theorem sortBy_pairwise (l : List α) : (sortBy key l).Pairwise (fun a b => key a ≤ key b) := by
  have : Std.Total (fun a b : α => key a ≤ key b) := ⟨fun a b => le_total (key a) (key b)⟩
  have : IsTrans α (fun a b => key a ≤ key b) := ⟨fun _ _ _ => le_trans⟩
  exact List.pairwise_insertionSort _ l

/-- Inserting puts an element before everything of its own key. -/
theorem keyed_orderedInsert (k : κ) (a : α) (l : List α) :
    keyed key k (l.orderedInsert (fun a b => key a ≤ key b) a) = keyed key k (a :: l) := by
  induction l with
  | nil => rfl
  | cons b l ih =>
    rw [List.orderedInsert_cons]
    split
    · rfl
    · rename_i hab
      -- `b` goes first, so its key differs from the inserted one.
      by_cases hb : key b = k
      · have ha : key a ≠ k := fun ha => hab (by rw [ha, hb])
        rw [keyed_cons_of_eq key hb, ih, keyed_cons_of_ne key ha, keyed_cons_of_ne key ha,
          keyed_cons_of_eq key hb]
      · rw [keyed_cons_of_ne key hb, ih]
        by_cases ha : key a = k
        · rw [keyed_cons_of_eq key ha, keyed_cons_of_eq key ha, keyed_cons_of_ne key hb]
        · rw [keyed_cons_of_ne key ha, keyed_cons_of_ne key ha, keyed_cons_of_ne key hb]

/-- Stability: a key selects the same elements, in the same order, after sorting. -/
theorem keyed_sortBy (k : κ) (l : List α) : keyed key k (sortBy key l) = keyed key k l := by
  induction l with
  | nil => rfl
  | cons a l ih =>
    show keyed key k ((sortBy key l).orderedInsert (fun a b => key a ≤ key b) a) = _
    rw [keyed_orderedInsert]
    by_cases ha : key a = k
    · rw [keyed_cons_of_eq key ha, keyed_cons_of_eq key ha, ih]
    · rw [keyed_cons_of_ne key ha, keyed_cons_of_ne key ha, ih]

/-- A list in key order is determined by what each key selects. -/
theorem eq_of_keyed_eq {l₁ l₂ : List α} (h₁ : l₁.Pairwise (fun a b => key a ≤ key b))
    (h₂ : l₂.Pairwise (fun a b => key a ≤ key b)) (h : ∀ k, keyed key k l₁ = keyed key k l₂) :
    l₁ = l₂ := by
  induction l₁ generalizing l₂ with
  | nil =>
    cases l₂ with
    | nil => rfl
    | cons b l₂ =>
      have := h (key b)
      rw [keyed_cons_of_eq key rfl] at this
      exact absurd this (by simp)
  | cons a l₁ ih =>
    cases l₂ with
    | nil =>
      have := h (key a)
      rw [keyed_cons_of_eq key rfl] at this
      exact absurd this (by simp)
    | cons b l₂ =>
      obtain ⟨ha, ht₁⟩ := List.pairwise_cons.mp h₁
      obtain ⟨hb, ht₂⟩ := List.pairwise_cons.mp h₂
      -- Each head occurs in the other list, so neither key is below the other.
      have hmem : a ∈ b :: l₂ := by
        have : a ∈ keyed key (key a) (b :: l₂) := by
          rw [← h (key a), keyed_cons_of_eq key rfl]
          exact List.mem_cons_self ..
        exact ((mem_keyed key).mp this).1
      have hmem' : b ∈ a :: l₁ := by
        have : b ∈ keyed key (key b) (a :: l₁) := by
          rw [h (key b), keyed_cons_of_eq key rfl]
          exact List.mem_cons_self ..
        exact ((mem_keyed key).mp this).1
      have hba : key b ≤ key a := by
        rcases List.mem_cons.mp hmem with rfl | hm
        · exact le_refl _
        · exact hb a hm
      have hab : key a ≤ key b := by
        rcases List.mem_cons.mp hmem' with rfl | hm
        · exact le_refl _
        · exact ha b hm
      have hkey : key a = key b := le_antisymm hab hba
      have hheads := h (key a)
      rw [keyed_cons_of_eq key rfl, keyed_cons_of_eq key hkey.symm] at hheads
      obtain ⟨rfl, -⟩ := List.cons.inj hheads
      refine congrArg _ (ih ht₁ ht₂ fun k => ?_)
      have := h k
      by_cases hk : key a = k
      · rw [keyed_cons_of_eq key hk, keyed_cons_of_eq key hk] at this
        exact (List.cons.inj this).2
      · rwa [keyed_cons_of_ne key hk, keyed_cons_of_ne key hk] at this

/-- **What a stable sort forgets**: exactly the order between different keys. -/
theorem sortBy_eq_iff {l₁ l₂ : List α} :
    sortBy key l₁ = sortBy key l₂ ↔ ∀ k, keyed key k l₁ = keyed key k l₂ := by
  constructor
  · intro h k
    rw [← keyed_sortBy key k l₁, h, keyed_sortBy]
  · intro h
    refine eq_of_keyed_eq key (sortBy_pairwise key l₁) (sortBy_pairwise key l₂) fun k => ?_
    rw [keyed_sortBy, keyed_sortBy, h]

/-- The first element of its key can be moved to the front unnoticed. -/
theorem sortBy_hoist (before : List α) (a : α) (after : List α)
    (h : ∀ b ∈ before, key b ≠ key a) :
    sortBy key (a :: (before ++ after)) = sortBy key (before ++ a :: after) := by
  rw [sortBy_eq_iff]
  intro k
  by_cases hk : key a = k
  · have hnone : keyed key k before = [] := by
      rw [keyed, List.filter_eq_nil_iff]
      intro b hb
      simpa [hk] using h b hb
    rw [keyed_cons_of_eq key hk]
    simp only [keyed, List.filter_append] at hnone ⊢
    rw [hnone, List.filter_cons_of_pos (by simpa using hk), List.nil_append, List.nil_append]
  · rw [keyed_cons_of_ne key hk]
    simp only [keyed, List.filter_append]
    rw [List.filter_cons_of_neg (by simpa using hk)]

/-! ### First matches -/

/-- The first element of its key. -/
def Leads (l : List α) (a : α) : Prop := (keyed key (key a) l).head? = some a

/-- Whoever leads in a list leads in every list that sorts to the same. -/
theorem Leads.of_sortBy_eq {l l' : List α} (h : sortBy key l' = sortBy key l) {a : α}
    (ha : Leads key l' a) : Leads key l a := by
  rw [Leads, ← (sortBy_eq_iff key).mp h]
  exact ha

theorem Leads.split {l : List α} {a : α} (h : Leads key l a) :
    ∃ before after, l = before ++ a :: after ∧ ∀ b ∈ before, key b ≠ key a := by
  induction l with
  | nil => exact absurd h (by simp [Leads])
  | cons c l ih =>
    by_cases hc : key c = key a
    · rw [Leads, keyed_cons_of_eq key hc] at h
      obtain rfl := Option.some.inj h
      exact ⟨[], l, rfl, by simp⟩
    · rw [Leads, keyed_cons_of_ne key hc] at h
      obtain ⟨before, after, rfl, hbefore⟩ := ih h
      exact ⟨c :: before, after, rfl, List.forall_mem_cons.mpr ⟨hc, hbefore⟩⟩

variable {β : Type*} (p : κ → Bool) (f : α → β)

/-- The first element whose key satisfies `p` leads. -/
theorem leads_of_find? {l : List α} {a : α} (h : l.find? (fun a => p (key a)) = some a) :
    Leads key l a ∧ p (key a) = true := by
  refine ⟨?_, by simpa using List.find?_some h⟩
  induction l with
  | nil => exact absurd h (by simp)
  | cons c l ih =>
    rw [List.find?_cons] at h
    split at h
    · obtain rfl := Option.some.inj h
      rw [Leads, keyed_cons_of_eq key rfl]
      rfl
    · rename_i hc
      have ha : p (key a) = true := by simpa using List.find?_some h
      have hne : key c ≠ key a := fun heq => by simp [heq, ha] at hc
      rw [Leads, keyed_cons_of_ne key hne]
      exact ih h

/-- The leading elements whose keys satisfy `p` agree on `f`. -/
def Settled (l : List α) : Prop :=
  ∀ a b, Leads key l a → Leads key l b → p (key a) = true → p (key b) = true → f a = f b

theorem find?_isSome_congr {l l' : List α} (h : sortBy key l' = sortBy key l) :
    (l'.find? fun a => p (key a)).isSome = (l.find? fun a => p (key a)).isSome := by
  have hmem : ∀ a, a ∈ l' ↔ a ∈ l := fun a => by
    rw [← mem_sortBy key, h, mem_sortBy]
  rw [Bool.eq_iff_iff, List.find?_isSome, List.find?_isSome]
  simp only [hmem]

/-- Lists that sort alike have a first match both or neither, so a default hides nothing. -/
theorem find?_map_eq_of_getD {l l' : List α} (h : sortBy key l' = sortBy key l) (d : β)
    (hd : ((l'.find? fun a => p (key a)).map f).getD d =
      ((l.find? fun a => p (key a)).map f).getD d) :
    (l'.find? fun a => p (key a)).map f = (l.find? fun a => p (key a)).map f := by
  have hsome := find?_isSome_congr key p h
  cases hl' : l'.find? fun a => p (key a) with
  | none =>
    rw [hl', Option.isSome_none] at hsome
    rw [Option.isSome_eq_false_iff.mp hsome.symm |> Option.isNone_iff_eq_none.mp]
  | some a =>
    rw [hl', Option.isSome_some] at hsome
    obtain ⟨b, hb⟩ := Option.isSome_iff_exists.mp hsome.symm
    rw [hl', hb] at hd
    rw [hb]
    exact congrArg some hd

/-- **What a sorted digest fixes of a first match**: `f` of the first element whose key
satisfies `p` is the same in every list that sorts alike, exactly when the leading
elements with such keys agree on it. -/
theorem find?_settled_iff (l : List α) :
    (∀ l', sortBy key l' = sortBy key l →
      (l'.find? fun a => p (key a)).map f = (l.find? fun a => p (key a)).map f) ↔
      Settled key p f l := by
  constructor
  · -- Move a leading element to the front: it becomes the first match.
    intro h
    have hlead : ∀ a, Leads key l a → p (key a) = true →
        (l.find? fun a => p (key a)).map f = some (f a) := by
      intro a ha hp
      obtain ⟨before, after, rfl, hbefore⟩ := ha.split
      have hfirst : (a :: (before ++ after)).find? (fun a => p (key a)) = some a :=
        List.find?_cons_of_pos (p := fun a => p (key a)) hp
      rw [← h (a :: (before ++ after)) (sortBy_hoist key before a after hbefore), hfirst]
      rfl
    intro a b ha hb hpa hpb
    exact Option.some.inj ((hlead a ha hpa).symm.trans (hlead b hb hpb))
  · intro hsettled l' h
    have hsome := find?_isSome_congr key p h
    cases hl' : l'.find? fun a => p (key a) with
    | none =>
      rw [hl', Option.isSome_none] at hsome
      have hnone : (l.find? fun a => p (key a)) = none := by
        rw [← Option.isNone_iff_eq_none, ← Option.not_isSome, ← hsome]
        rfl
      rw [hnone]
    | some a =>
      rw [hl', Option.isSome_some] at hsome
      obtain ⟨b, hb⟩ := Option.isSome_iff_exists.mp hsome.symm
      obtain ⟨ha, hpa⟩ := leads_of_find? key p hl'
      obtain ⟨hb', hpb⟩ := leads_of_find? key p hb
      rw [hb, Option.map_some, Option.map_some,
        hsettled a b (Leads.of_sortBy_eq key h ha) hb' hpa hpb]

end Griot.Lib
