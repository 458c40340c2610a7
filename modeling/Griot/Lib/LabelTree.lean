import Mathlib.Data.List.Pairwise
import Mathlib.Data.List.Infix

/-! Trees some of whose nodes carry a label, and the listing of the labels from the top.

A place is the way down to a node, as the positions of the children taken. The listing has every
label once, each at the place of its node (`mem_listing_iff`, `nodup_listing`), and a node never
after one that is below it (`listing_topDown`). So it lists every label after those below it only
where no label is below another (`listing_bottomUp_iff`). -/
namespace Griot.Lib

inductive LabelTree (α : Type) where
  | node (label : Option α) (children : List (LabelTree α))

abbrev Position := List Nat

namespace LabelTree
variable {α : Type}

/-- Induction over children. -/
theorem byChildren {motive : LabelTree α → Prop}
    (h : ∀ label children, (∀ t ∈ children, motive t) → motive (node label children)) :
    ∀ t, motive t
  | node label children => h label children fun t _ => byChildren h t

/-- The label is at the place. -/
inductive LabelAt : LabelTree α → Position → α → Prop
  | here {a : α} {children : List (LabelTree α)} : LabelAt (node (some a) children) [] a
  | under {label : Option α} {children : List (LabelTree α)} {i : Nat} {t : LabelTree α}
    {place : Position} {a : α} : children[i]? = some t → LabelAt t place a →
    LabelAt (node label children) (i :: place) a

/-- There is a label somewhere. -/
inductive Labelled : LabelTree α → Prop
  | here {a : α} {children : List (LabelTree α)} : Labelled (node (some a) children)
  | under {label : Option α} {children : List (LabelTree α)} {t : LabelTree α} : t ∈ children →
    Labelled t → Labelled (node label children)

/-- Somewhere a label is below another. -/
inductive Stacked : LabelTree α → Prop
  | here {a : α} {children : List (LabelTree α)} {t : LabelTree α} : t ∈ children → Labelled t →
    Stacked (node (some a) children)
  | under {label : Option α} {children : List (LabelTree α)} {t : LabelTree α} : t ∈ children →
    Stacked t → Stacked (node label children)

mutual

/-- The labels from the top, each with its place. -/
def listing : LabelTree α → List (Position × α)
  | node label children => label.toList.map (fun a => ([], a)) ++ listingAll 0 children

def listingAll : Nat → List (LabelTree α) → List (Position × α)
  | _, [] => []
  | i, t :: ts => t.listing.map (fun e => (i :: e.1, e.2)) ++ listingAll (i + 1) ts

end

/-- Nothing is listed before what is below it. -/
def BottomUp (entries : List (Position × α)) : Prop :=
  entries.Pairwise fun earlier later => ¬ earlier.1 <+: later.1

/-! ### What is listed -/

theorem listingAll_labels (i : Nat) (ts : List (LabelTree α)) :
    (listingAll i ts).map Prod.snd = ts.flatMap fun t => t.listing.map Prod.snd := by
  induction ts generalizing i with
  | nil => rfl
  | cons t ts ih =>
    rw [listingAll, List.map_append, List.map_map, ih, List.flatMap_cons]
    rfl

/-- The label of a node comes before those below it. -/
theorem listing_labels (label : Option α) (children : List (LabelTree α)) :
    (node label children).listing.map Prod.snd =
      label.toList ++ children.flatMap fun t => t.listing.map Prod.snd := by
  rw [listing, List.map_append, listingAll_labels, List.map_map]
  exact congrArg (· ++ _) (List.map_id _)

theorem mem_listingAll_iff {i : Nat} {ts : List (LabelTree α)} {e : Position × α} :
    e ∈ listingAll i ts ↔ ∃ j t, ts[j]? = some t ∧ ∃ e' ∈ t.listing, e = ((i + j) :: e'.1, e'.2) := by
  induction ts generalizing i with
  | nil => simp [listingAll]
  | cons t ts ih =>
    rw [listingAll, List.mem_append, ih]
    constructor
    · intro h
      obtain h | ⟨j, t', ht', e', he', rfl⟩ := h
      · obtain ⟨e', he', rfl⟩ := List.mem_map.mp h
        exact ⟨0, t, rfl, e', he', rfl⟩
      · refine ⟨j + 1, t', ht', e', he', ?_⟩
        rw [Nat.add_right_comm, Nat.add_assoc]
    · intro h
      obtain ⟨j, t', ht', e', he', rfl⟩ := h
      cases j with
      | zero =>
        obtain rfl := Option.some.inj ht'
        exact .inl (List.mem_map.mpr ⟨e', he', rfl⟩)
      | succ j =>
        refine .inr ⟨j, t', ht', e', he', ?_⟩
        rw [Nat.add_right_comm, Nat.add_assoc]

/-- **Every label is listed**, at its place, and nothing else is. -/
theorem mem_listing_iff (t : LabelTree α) (place : Position) (a : α) :
    (place, a) ∈ t.listing ↔ LabelAt t place a := by
  induction t using byChildren generalizing place a with
  | h label children ih =>
    rw [listing, List.mem_append, mem_listingAll_iff]
    constructor
    · intro h
      obtain h | ⟨j, t, ht, e, he, heq⟩ := h
      · obtain ⟨b, hb, heq⟩ := List.mem_map.mp h
        obtain ⟨rfl, rfl⟩ := Prod.mk.inj heq
        obtain rfl := Option.mem_toList.mp hb
        exact .here
      · obtain ⟨rfl, rfl⟩ := Prod.mk.inj heq
        rw [Nat.zero_add]
        exact .under ht ((ih t (List.mem_of_getElem? ht) e.1 e.2).mp he)
    · intro h
      cases h with
      | here => exact .inl (by simp)
      | @under _ _ i t place _ ht hat =>
        exact .inr ⟨i, t, ht, (place, a), (ih t (List.mem_of_getElem? ht) place a).mpr hat, by simp⟩

/-- **From the top**: nothing is listed after what is below it. -/
theorem listing_topDown (t : LabelTree α) :
    t.listing.Pairwise fun earlier later => ¬ later.1 <+: earlier.1 := by
  induction t using byChildren with
  | h label children ih =>
    have hall (i : Nat) (ts : List (LabelTree α)) (hts : ∀ t ∈ ts, t ∈ children) :
        (listingAll i ts).Pairwise fun earlier later => ¬ later.1 <+: earlier.1 := by
      induction ts generalizing i with
      | nil => exact .nil
      | cons t ts ihs =>
        rw [listingAll, List.pairwise_append]
        refine ⟨?_, ihs (i + 1) fun t' ht' => hts t' (List.mem_cons_of_mem _ ht'), ?_⟩
        · refine List.pairwise_map.mpr ((ih t (hts t (List.mem_cons_self ..))).imp ?_)
          intro e e' h hprefix
          exact h (List.cons_prefix_cons.mp hprefix).2
        · intro e he e' he' hprefix
          obtain ⟨f, -, rfl⟩ := List.mem_map.mp he
          obtain ⟨j, t', -, f', -, rfl⟩ := mem_listingAll_iff.mp he'
          have hhead := (List.cons_prefix_cons.mp hprefix).1
          omega
    rw [listing, List.pairwise_append]
    refine ⟨by cases label <;> simp, hall 0 children fun t ht => ht, ?_⟩
    intro e he e' he' hprefix
    obtain ⟨a, -, rfl⟩ := List.mem_map.mp he
    obtain ⟨j, t, -, f, -, rfl⟩ := mem_listingAll_iff.mp he'
    simp at hprefix

/-- Every place is listed once. -/
theorem nodup_listing (t : LabelTree α) : (t.listing.map Prod.fst).Nodup := by
  refine List.pairwise_map.mpr (t.listing_topDown.imp ?_)
  intro e e' h heq
  exact h (heq ▸ List.prefix_rfl)

/-- Where no label comes twice the labels say which entry is whose. -/
theorem entries_eq {entries entries' : List (Position × α)}
    (hlabels : entries.map Prod.snd = entries'.map Prod.snd)
    (hdistinct : (entries.map Prod.snd).Nodup) (hmem : ∀ e ∈ entries, e ∈ entries') :
    entries = entries' := by
  induction entries generalizing entries' with
  | nil => exact (List.map_eq_nil_iff.mp hlabels.symm).symm
  | cons e entries ih =>
    obtain ⟨e', entries', rfl⟩ := List.exists_cons_of_ne_nil
      (fun hnil : entries' = [] => by simp [hnil] at hlabels)
    obtain ⟨-, hrest⟩ := List.cons.inj hlabels
    obtain ⟨hfresh, hdistinct⟩ := List.nodup_cons.mp hdistinct
    have hlater (f : Position × α) (hf : f ∈ entries') : f.2 ≠ e.2 := fun heq =>
      hfresh (hrest ▸ heq ▸ List.mem_map_of_mem hf)
    obtain rfl := (List.mem_cons.mp (hmem e (List.mem_cons_self ..))).resolve_right
      fun hin => hlater e hin rfl
    refine congrArg (e :: ·) (ih hrest hdistinct fun f hf => ?_)
    obtain rfl | hin := List.mem_cons.mp (hmem f (List.mem_cons_of_mem _ hf))
    · exact absurd (List.mem_map_of_mem hf) hfresh
    · exact hin

/-! ### When the listing is in the other order too -/

theorem labelled_iff (t : LabelTree α) : Labelled t ↔ ∃ place a, LabelAt t place a := by
  induction t using byChildren with
  | h label children ih =>
    constructor
    · intro h
      cases h with
      | here => exact ⟨[], _, .here⟩
      | @under _ _ t ht hlabelled =>
        obtain ⟨place, a, hat⟩ := (ih t ht).mp hlabelled
        obtain ⟨i, hi⟩ := List.mem_iff_getElem?.mp ht
        exact ⟨i :: place, a, .under hi hat⟩
    · intro h
      obtain ⟨place, a, hat⟩ := h
      cases hat with
      | here => exact .here
      | @under _ _ i t place _ ht hat =>
        have hmem := List.mem_of_getElem? ht
        exact .under hmem ((ih t hmem).mpr ⟨place, a, hat⟩)

theorem stacked_iff (t : LabelTree α) : Stacked t ↔ ∃ place a place' a',
    LabelAt t place a ∧ LabelAt t place' a' ∧ place <+: place' ∧ place ≠ place' := by
  induction t using byChildren with
  | h label children ih =>
    constructor
    · intro h
      cases h with
      | @here _ _ t ht hlabelled =>
        obtain ⟨place, a, hat⟩ := t.labelled_iff.mp hlabelled
        obtain ⟨i, hi⟩ := List.mem_iff_getElem?.mp ht
        exact ⟨[], _, i :: place, a, .here, .under hi hat, List.nil_prefix, by simp⟩
      | @under _ _ t ht hstacked =>
        obtain ⟨place, a, place', a', hat, hat', hprefix, hne⟩ := (ih t ht).mp hstacked
        obtain ⟨i, hi⟩ := List.mem_iff_getElem?.mp ht
        exact ⟨i :: place, a, i :: place', a', .under hi hat, .under hi hat',
          List.cons_prefix_cons.mpr ⟨rfl, hprefix⟩, by simpa using hne⟩
    · intro h
      obtain ⟨place, a, place', a', hat, hat', hprefix, hne⟩ := h
      cases hat' with
      | here => exact absurd (List.prefix_nil.mp hprefix) hne
      | @under _ _ i t place' _ ht hat' =>
        have hmem := List.mem_of_getElem? ht
        cases hat with
        | here => exact .here hmem (t.labelled_iff.mpr ⟨place', a', hat'⟩)
        | @under _ _ i' t' place _ ht' hat =>
          obtain ⟨rfl, hrest⟩ := List.cons_prefix_cons.mp hprefix
          obtain rfl := Option.some.inj (ht'.symm.trans ht)
          exact .under hmem ((ih t' hmem).mpr ⟨place, a, place', a', hat, hat', hrest,
            fun heq => hne (heq ▸ rfl)⟩)

/-- **Both orders at once** only where no label is below another. -/
theorem listing_bottomUp_iff (t : LabelTree α) : BottomUp t.listing ↔ ¬ Stacked t := by
  rw [stacked_iff]
  constructor
  · intro h hstacked
    obtain ⟨place, a, place', a', hat, hat', hprefix, hne⟩ := hstacked
    have : Std.Symm fun e e' : Position × α => ¬ e.1 <+: e'.1 ∧ ¬ e'.1 <+: e.1 :=
      ⟨fun e e' he => ⟨he.2, he.1⟩⟩
    have happart := (List.Pairwise.and h t.listing_topDown).forall
      ((t.mem_listing_iff place a).mpr hat) ((t.mem_listing_iff place' a').mpr hat')
      fun heq => hne (Prod.mk.inj heq).1
    exact happart.1 hprefix
  · intro h
    refine t.listing_topDown.imp_of_mem fun {e e'} he he' htop hprefix => h ?_
    refine ⟨e.1, e.2, e'.1, e'.2, (t.mem_listing_iff e.1 e.2).mp he, (t.mem_listing_iff e'.1 e'.2).mp he',
      hprefix, fun heq => htop (heq ▸ List.prefix_rfl)⟩

end LabelTree
end Griot.Lib
