import Griot.Lib.Streams
import Mathlib.Data.List.Pairwise

/-! What is declared of rows dealt into partitions.

A declaration says where a row may lie, which rows may come before which in one
partition, and which may lie in the data together. It is a matter of single rows
and of pairs: when rows are replaced one by one, every declared truth survives
exactly when that of one row and that of two rows does (`keeps_iff`), and dropping
rows harms none of it. -/
namespace Griot.Lib

/-- `precedes r s`: `r` may come before `s` in one partition. `agrees r s`: the two
may lie anywhere. -/
structure Declaration (ρ : Type) where
  placed : Nat → ρ → Prop
  precedes : ρ → ρ → Prop
  agrees : ρ → ρ → Prop
  agrees_symm : ∀ {r s}, agrees r s → agrees s r

namespace Declaration
variable {ρ : Type} (D : Declaration ρ)

/-- The declaration is true of the rows of the partitions. -/
structure Holds (rows : Nat → List ρ) : Prop where
  placed : ∀ p, ∀ r ∈ rows p, D.placed p r
  ordered : ∀ p, (rows p).Pairwise fun r s => D.precedes r s ∧ D.agrees r s
  across : ∀ p q, p ≠ q → ∀ r ∈ rows p, ∀ s ∈ rows q, D.agrees r s

/-- A row of partition `p` and one of partition `q`, the first before the second if these
are the same. -/
structure Together (p q : Nat) (r s : ρ) : Prop where
  left : D.placed p r
  right : D.placed q s
  agrees : D.agrees r s
  precedes : p = q → D.precedes r s

/-- Replacing rows as `R` allows keeps what is declared of one row and of two. -/
structure Keeps (fits : ρ → Prop) (R : ρ → ρ → Prop) : Prop where
  alone : ∀ {p r r'}, fits r → D.placed p r → R r r' → D.placed p r'
  together : ∀ {p q r s r' s'}, fits r → fits s → D.Together p q r s → R r r' → R s s' →
    D.Together p q r' s'

variable {D} {fits : ρ → Prop} {R : ρ → ρ → Prop}

/-- Of no rows everything is true. -/
theorem holds_nil : D.Holds fun _ => [] :=
  ⟨fun _ _ hr => absurd hr (by simp), fun _ => .nil, fun _ _ _ _ hr => absurd hr (by simp)⟩

/-- Nothing is replaced. -/
theorem Keeps.of_eq (h : ∀ r r', fits r → R r r' → r' = r) : D.Keeps fits R where
  alone := fun hfits hplaced hr => by
    rw [h _ _ hfits hr]
    exact hplaced
  together := fun hr hs htogether hr' hs' => by
    rw [h _ _ hr hr', h _ _ hs hs']
    exact htogether

/-- The part of a row that a declaration looks at stays. -/
theorem Keeps.of_view {γ : Type} (view : ρ → γ) (h : ∀ r r', fits r → R r r' → view r' = view r)
    (hplaced : ∀ p r r', view r' = view r → D.placed p r → D.placed p r')
    (hprecedes : ∀ r s r' s', view r' = view r → view s' = view s → D.precedes r s →
      D.precedes r' s')
    (hagrees : ∀ r s r' s', view r' = view r → view s' = view s → D.agrees r s →
      D.agrees r' s') : D.Keeps fits R where
  alone := fun hfits hr hr' => hplaced _ _ _ (h _ _ hfits hr') hr
  together := fun hr hs htogether hr' hs' =>
    have hviewr := h _ _ hr hr'
    have hviews := h _ _ hs hs'
    { left := hplaced _ _ _ hviewr htogether.left
      right := hplaced _ _ _ hviews htogether.right
      agrees := hagrees _ _ _ _ hviewr hviews htogether.agrees
      precedes := fun hpq => hprecedes _ _ _ _ hviewr hviews (htogether.precedes hpq) }

/-! ### Rows that are replaced or dropped -/

theorem mem_of_sublistForall₂ {l l' : List ρ} (h : List.SublistForall₂ (fun r' r => R r r') l' l)
    {r' : ρ} (hmem : r' ∈ l') : ∃ r ∈ l, R r r' := by
  obtain ⟨kept, hkept, hsub⟩ := List.sublistForall₂_iff.mp h
  obtain ⟨r, hr, hrr'⟩ := exists_of_forall₂ hkept hmem
  exact ⟨r, hsub.subset hr, hrr'⟩

theorem pairwise_of_sublistForall₂ {l l' : List ρ} {S S' : ρ → ρ → Prop}
    (h : List.SublistForall₂ (fun r' r => R r r') l' l) (hl : l.Pairwise S)
    (hkeeps : ∀ r ∈ l, ∀ s ∈ l, ∀ r' s', S r s → R r r' → R s s' → S' r' s') : l'.Pairwise S' := by
  induction h with
  | nil => exact .nil
  | @cons a b l' l hr htail ih =>
    rw [List.pairwise_cons] at hl ⊢
    refine ⟨fun s' hs' => ?_, ih hl.2 fun r hr s hs => hkeeps r (List.mem_cons_of_mem _ hr) s
      (List.mem_cons_of_mem _ hs)⟩
    obtain ⟨s, hs, hs'⟩ := mem_of_sublistForall₂ htail hs'
    exact hkeeps b (List.mem_cons_self ..) s (List.mem_cons_of_mem _ hs) a s' (hl.1 s hs) hr hs'
  | cons_right _ ih =>
    exact ih (List.pairwise_cons.mp hl).2 fun r hr s hs => hkeeps r (List.mem_cons_of_mem _ hr) s
      (List.mem_cons_of_mem _ hs)

/-- **Replacement**: what is kept of one row and of two is kept of all. -/
theorem Keeps.holds (h : D.Keeps fits R) {rows rows' : Nat → List ρ} (hrows : D.Holds rows)
    (hfits : ∀ p, ∀ r ∈ rows p, fits r)
    (hreplaced : ∀ p, List.SublistForall₂ (fun r' r => R r r') (rows' p) (rows p)) :
    D.Holds rows' where
  placed := fun p r' hr' => by
    obtain ⟨r, hr, hrr'⟩ := mem_of_sublistForall₂ (hreplaced p) hr'
    exact h.alone (hfits p r hr) (hrows.placed p r hr) hrr'
  ordered := fun p => by
    refine pairwise_of_sublistForall₂ (hreplaced p) (hrows.ordered p) fun r hr s hs r' s' hrs hrr' hss' => ?_
    have htogether := h.together (hfits p r hr) (hfits p s hs)
      ⟨hrows.placed p r hr, hrows.placed p s hs, hrs.2, fun _ => hrs.1⟩ hrr' hss'
    exact ⟨htogether.precedes rfl, htogether.agrees⟩
  across := fun p q hpq r' hr' s' hs' => by
    obtain ⟨r, hr, hrr'⟩ := mem_of_sublistForall₂ (hreplaced p) hr'
    obtain ⟨s, hs, hss'⟩ := mem_of_sublistForall₂ (hreplaced q) hs'
    exact (h.together (hfits p r hr) (hfits q s hs) ⟨hrows.placed p r hr, hrows.placed q s hs,
      hrows.across p q hpq r hr s hs, fun heq => absurd heq hpq⟩ hrr' hss').agrees

/-! ### Rows dealt one by one -/

/-- The rows that were dealt to a partition, in order. -/
def deal {α : Type} (deals : List (Nat × α)) (p : Nat) : List α :=
  (deals.filter (·.1 = p)).map Prod.snd

theorem deal_cons {α : Type} (d : Nat × α) (deals : List (Nat × α)) (p : Nat) :
    deal (d :: deals) p = if d.1 = p then d.2 :: deal deals p else deal deals p := by
  by_cases h : d.1 = p <;> simp [deal, h]

theorem mem_deal {α : Type} {deals : List (Nat × α)} {p : Nat} {a : α} :
    a ∈ deal deals p ↔ (p, a) ∈ deals := by
  simp [deal]

/-- The same deal of other things. -/
abbrev Redealt {α β : Type} (R : α → β → Prop) (deals : List (Nat × α)) (deals' : List (Nat × β)) :
    Prop :=
  List.Forall₂ (fun d d' => d'.1 = d.1 ∧ R d.2 d'.2) deals deals'

theorem deal_redealt {α β : Type} {R : α → β → Prop} {deals : List (Nat × α)}
    {deals' : List (Nat × β)} (h : Redealt R deals deals') (p : Nat) :
    List.Forall₂ R (deal deals p) (deal deals' p) := by
  induction h with
  | nil => exact .nil
  | @cons d d' deals deals' hd _ ih =>
    rw [deal_cons, deal_cons, hd.1]
    split
    · exact .cons hd.2 ih
    · exact ih

theorem holds_single {p : Nat} {r : ρ} : D.Holds (deal [(p, r)]) ↔ D.placed p r := by
  constructor
  · intro h
    exact h.placed p r (mem_deal.mpr (List.mem_singleton_self _))
  · intro h
    have hmem : ∀ q s, s ∈ deal [(p, r)] q → q = p ∧ s = r := fun q s hs => by
      simpa [mem_deal] using hs
    refine ⟨fun q s hs => ?_, fun q => ?_, fun q q' hq s hs s' hs' => ?_⟩
    · obtain ⟨rfl, rfl⟩ := hmem q s hs
      exact h
    · rw [deal_cons]
      split <;> simp [deal]
    · exact absurd ((hmem q s hs).1.trans (hmem q' s' hs').1.symm) hq

theorem holds_pair {p q : Nat} {r s : ρ} :
    D.Holds (deal [(p, r), (q, s)]) ↔ D.Together p q r s := by
  have hdeal : ∀ k, deal [(p, r), (q, s)] k =
      (if p = k then [r] else []) ++ (if q = k then [s] else []) := fun k => by
    rw [deal_cons, deal_cons]
    by_cases hp : p = k <;> by_cases hq : q = k <;> simp [hp, hq, deal]
  constructor
  · intro h
    have hr : r ∈ deal [(p, r), (q, s)] p := mem_deal.mpr (by simp)
    have hs : s ∈ deal [(p, r), (q, s)] q := mem_deal.mpr (by simp)
    have hordered := h.ordered p
    by_cases hpq : p = q
    · subst hpq
      have hpair : D.precedes r s ∧ D.agrees r s := by simpa [hdeal] using hordered
      exact ⟨h.placed _ _ hr, h.placed _ _ hs, hpair.2, fun _ => hpair.1⟩
    · exact ⟨h.placed _ _ hr, h.placed _ _ hs, h.across _ _ hpq _ hr _ hs, fun heq => absurd heq hpq⟩
  · intro h
    have hmem : ∀ {k t}, t ∈ deal [(p, r), (q, s)] k → k = p ∧ t = r ∨ k = q ∧ t = s := fun ht => by
      simpa [mem_deal] using ht
    refine ⟨fun k t ht => ?_, fun k => ?_, fun k k' hk t ht t' ht' => ?_⟩
    · obtain ⟨rfl, rfl⟩ | ⟨rfl, rfl⟩ := hmem ht
      · exact h.left
      · exact h.right
    · rw [hdeal]
      by_cases hp : p = k
      · by_cases hq : q = k
        · simpa [hp, hq] using ⟨h.precedes (hp.trans hq.symm), h.agrees⟩
        · simp [hp, hq]
      · by_cases hq : q = k <;> simp [hp, hq]
    · obtain ⟨rfl, rfl⟩ | ⟨rfl, rfl⟩ := hmem ht
      · obtain ⟨heq, -⟩ | ⟨rfl, rfl⟩ := hmem ht'
        · exact absurd heq.symm hk
        · exact h.agrees
      · obtain ⟨rfl, rfl⟩ | ⟨heq, -⟩ := hmem ht'
        · exact D.agrees_symm h.agrees
        · exact absurd heq.symm hk

/-- **One and two rows are enough**: replacing rows keeps a declaration true of whatever
was dealt exactly when it keeps it of one row and of two. -/
theorem keeps_iff : D.Keeps fits R ↔ ∀ deals deals' : List (Nat × ρ), (∀ d ∈ deals, fits d.2) →
    Redealt R deals deals' → D.Holds (deal deals) → D.Holds (deal deals') := by
  constructor
  · intro h deals deals' hfits hredealt hholds
    refine h.holds hholds (fun p r hr => hfits _ (mem_deal.mp hr)) fun p => ?_
    exact List.sublistForall₂_iff.mpr ⟨_, List.Forall₂.flip (deal_redealt hredealt p), .refl _⟩
  · intro h
    constructor
    · intro p r r' hfits hplaced hr
      exact holds_single.mp (h [(p, r)] [(p, r')] (by simpa using hfits)
        (.cons ⟨rfl, hr⟩ .nil) (holds_single.mpr hplaced))
    · intro p q r s r' s' hr hs htogether hr' hs'
      exact holds_pair.mp (h [(p, r), (q, s)] [(p, r'), (q, s')] (by simpa using ⟨hr, hs⟩)
        (.cons ⟨rfl, hr'⟩ (.cons ⟨rfl, hs'⟩ .nil)) (holds_pair.mpr htogether))

end Declaration
end Griot.Lib
