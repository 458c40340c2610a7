import Mathlib.Data.List.Basic

/-! Scanners: what a machine writes while it reads a text.

A step sees its state, a symbol and the symbol after it. A machine that takes the
steps of another writes what the other writes, up to the first step where they part
(`Follows.run_of_never`, `Follows.run_parts`). A machine that looks at some symbols
only cannot tell how the others are encoded (`Oblivious.run_flatMap`). -/
namespace Griot.Lib

structure Scanner (σ α β : Type) where
  step : σ → α → Option α → List β × σ

namespace Scanner
variable {σ τ α β γ : Type}

def run (A : Scanner σ α β) : σ → List α → List β
  | _, [] => []
  | q, a :: s => (A.step q a s.head?).1 ++ A.run (A.step q a s.head?).2 s

/-! ### Up to a step -/

section Until
variable (stop : σ → α → Option α → Bool) (A : Scanner σ α β)

/-- What is written before the first step at which `stop` holds. -/
def runUntil : σ → List α → List β
  | _, [] => []
  | q, a :: s =>
    if stop q a s.head? then [] else (A.step q a s.head?).1 ++ runUntil (A.step q a s.head?).2 s

/-- `stop` holds at no step. -/
def never : σ → List α → Bool
  | _, [] => true
  | q, a :: s => !stop q a s.head? && never (A.step q a s.head?).2 s

variable {stop A}

end Until

/-! ### A scanner that follows another -/

/-- `B` takes the steps of `A` wherever `stop` does not hold. -/
def Follows (stop : σ → α → Option α → Bool) (f : σ → τ) (g : β → γ) (A : Scanner σ α β)
    (B : Scanner τ α γ) : Prop :=
  ∀ q a next, stop q a next = false →
    B.step (f q) a next = ((A.step q a next).1.map g, f (A.step q a next).2)

section Follows
variable {stop : σ → α → Option α → Bool} {f : σ → τ} {g : β → γ} {A : Scanner σ α β}
  {B : Scanner τ α γ}

theorem Follows.run_of_never (h : Follows stop f g A B) {q : σ} {s : List α}
    (hs : A.never stop q s = true) : B.run (f q) s = (A.run q s).map g := by
  induction s generalizing q with
  | nil => rfl
  | cons a s ih =>
    rw [never, Bool.and_eq_true, Bool.not_eq_true'] at hs
    rw [run, run, h q a s.head? hs.1, List.map_append, ← ih hs.2]

/-- Where the steps part, what was written before stays. -/
theorem Follows.run_parts (h : Follows stop f g A B) {q : σ} {s : List α}
    (hs : A.never stop q s = false) :
    ∃ more, B.run (f q) s = (A.runUntil stop q s).map g ++ more := by
  induction s generalizing q with
  | nil => exact absurd hs (by simp [never])
  | cons a s ih =>
    rw [runUntil]
    cases hstop : stop q a s.head? with
    | true => exact ⟨_, rfl⟩
    | false =>
      rw [never, hstop] at hs
      obtain ⟨more, hmore⟩ := ih hs
      refine ⟨more, ?_⟩
      rw [run, h q a s.head? hstop, hmore]
      simp

end Follows

/-! ### Two scanners side by side -/

/-- What the second writes, tagged with what the first writes in the same step. -/
def beside {δ : Type} (A : Scanner σ α β) (B : Scanner τ α γ) (tag : List β → δ) :
    Scanner (σ × τ) α (γ × δ) where
  step q a next :=
    ((B.step q.2 a next).1.map fun b => (b, tag (A.step q.1 a next).1),
      (A.step q.1 a next).2, (B.step q.2 a next).2)

section Beside
variable {δ : Type} {A : Scanner σ α β} {B : Scanner τ α γ} {tag : List β → δ}

/-- **Being watched changes nothing.** -/
theorem run_beside (q : σ × τ) (s : List α) :
    ((A.beside B tag).run q s).map Prod.fst = B.run q.2 s := by
  induction s generalizing q with
  | nil => rfl
  | cons a s ih =>
    rw [run, run, List.map_append, ih]
    simp [beside, Function.comp_def]

/-- Beside a scanner that follows, the tags are read off what the first writes. -/
theorem Follows.run_beside {stop : σ → α → Option α → Bool} {f : σ → τ} {g : β → γ}
    (h : Follows stop f g A B) {mark : β → δ}
    (htag : ∀ q a next, ∀ b ∈ (A.step q a next).1, tag (A.step q a next).1 = mark b)
    {q : σ} {s : List α} (hs : A.never stop q s = true) :
    (A.beside B tag).run (q, f q) s = (A.run q s).map fun b => (g b, mark b) := by
  induction s generalizing q with
  | nil => rfl
  | cons a s ih =>
    rw [never, Bool.and_eq_true, Bool.not_eq_true'] at hs
    have hstep := h q a s.head? hs.1
    have hboth : (A.beside B tag).step (q, f q) a s.head? =
        ((A.step q a s.head?).1.map fun b => (g b, mark b),
          (A.step q a s.head?).2, f (A.step q a s.head?).2) := by
      simp only [beside, hstep, List.map_map, Prod.mk.injEq, and_true]
      exact List.map_congr_left fun b hb => congrArg (Prod.mk (g b)) (htag q a s.head? b hb)
    rw [run, run, List.map_append, hboth, ih hs.2]

end Beside

/-! ### Encodings the scanner does not look at -/

/-- An encoding that leaves `plain` symbols alone. -/
structure Encoding (α : Type) where
  plain : α → Bool
  expand : α → List α
  expand_plain : ∀ a, plain a = true → expand a = [a]
  expand_other : ∀ a, plain a = false → ∀ b ∈ expand a, plain b = false
  expand_ne_nil : ∀ a, expand a ≠ []

/-- The scanner copies or drops what is not plain and never looks ahead to it; a state that is
`passing` is entered before a plain symbol only. -/
structure Oblivious (plain : α → Bool) (passing copies : σ → Bool) (A : Scanner σ α α) : Prop where
  next : ∀ q a x, plain x = false → A.step q a (some x) = A.step q a none
  other : ∀ q a next, plain a = false → passing q = false →
    A.step q a next = (if copies q then [a] else [], q)
  output : ∀ q a next, plain a = true → ∀ b ∈ (A.step q a next).1, plain b = true
  enters : ∀ q a next, passing (A.step q a next).2 = true → ∃ x, next = some x ∧ plain x = true

section Oblivious
variable (E : Encoding α) {passing copies : σ → Bool} {A : Scanner σ α α}

theorem Encoding.flatMap_plain {s : List α} (h : ∀ a ∈ s, E.plain a = true) :
    s.flatMap E.expand = s := by
  induction s with
  | nil => rfl
  | cons a s ih =>
    rw [List.forall_mem_cons] at h
    rw [List.flatMap_cons, E.expand_plain a h.1, ih h.2]
    rfl

/-- The first symbol of an encoded text. -/
theorem Encoding.head?_flatMap (s : List α) :
    (s.flatMap E.expand).head? = s.head? ∨
      ∃ a b, s.head? = some a ∧ (s.flatMap E.expand).head? = some b ∧ E.plain a = false ∧
        E.plain b = false := by
  cases s with
  | nil => exact .inl rfl
  | cons a s =>
    cases ha : E.plain a with
    | true => exact .inl (by rw [List.flatMap_cons, E.expand_plain a ha]; rfl)
    | false =>
      obtain ⟨b, bs, hb⟩ := List.exists_cons_of_ne_nil (E.expand_ne_nil a)
      refine .inr ⟨a, b, rfl, by rw [List.flatMap_cons, hb]; rfl, ha, ?_⟩
      exact E.expand_other a ha b (hb ▸ List.mem_cons_self ..)

theorem Oblivious.step_head? (h : Oblivious E.plain passing copies A) (q : σ) (a : α)
    (s : List α) : A.step q a (s.flatMap E.expand).head? = A.step q a s.head? := by
  rcases E.head?_flatMap s with hsame | ⟨x, y, hx, hy, hplain, hplain'⟩
  · rw [hsame]
  · rw [hx, hy, h.next q a x hplain, h.next q a y hplain']

theorem Oblivious.run_append (h : Oblivious E.plain passing copies A) {q : σ}
    (hq : passing q = false) {xs : List α} (hxs : ∀ x ∈ xs, E.plain x = false) (t : List α) :
    A.run q (xs ++ t) = (if copies q then xs else []) ++ A.run q t := by
  induction xs with
  | nil => simp
  | cons x xs ih =>
    rw [List.forall_mem_cons] at hxs
    rw [List.cons_append, run, h.other q x _ hxs.1 hq, ih hxs.2]
    cases copies q <;> rfl

/-- **Scanning commutes with encoding.** -/
theorem Oblivious.run_flatMap (h : Oblivious E.plain passing copies A) (q : σ) (s : List α)
    (hq : passing q = true → ∃ x, s.head? = some x ∧ E.plain x = true) :
    A.run q (s.flatMap E.expand) = (A.run q s).flatMap E.expand := by
  induction s generalizing q with
  | nil => rfl
  | cons a s ih =>
    rw [List.flatMap_cons]
    cases ha : E.plain a with
    | true =>
      rw [E.expand_plain a ha, List.singleton_append, run, run, h.step_head? E, List.flatMap_append,
        E.flatMap_plain (h.output q a _ ha), ih _ (h.enters q a s.head?)]
    | false =>
      have hpass : passing q = false := by
        rw [Bool.eq_false_iff]
        intro htrue
        obtain ⟨x, hx, hplain⟩ := hq htrue
        obtain rfl : a = x := Option.some.inj hx
        exact absurd (ha.symm.trans hplain) (by simp)
      rw [h.run_append E hpass (E.expand_other a ha), run, h.other q a _ ha hpass,
        ih q fun htrue => absurd (hpass.symm.trans htrue) (by simp)]
      cases copies q <;> simp

end Oblivious

/-! ### What follows a symbol -/

/-- Some symbol with `p` has a property of what follows it. -/
def FollowedBy (p : α → Bool) (Q : List α → Prop) : List α → Prop
  | [] => False
  | a :: s => p a = true ∧ Q s ∨ FollowedBy p Q s

instance FollowedBy.decide {p : α → Bool} {Q : List α → Prop} [DecidablePred Q] :
    DecidablePred (FollowedBy p Q)
  | [] => inferInstanceAs (Decidable False)
  | _ :: s => @instDecidableOr _ _ _ (FollowedBy.decide s)

theorem followedBy_map {f : β → α} {p : α → Bool} {Q : List α → Prop} (s : List β) :
    FollowedBy p Q (s.map f) ↔ FollowedBy (fun b => p (f b)) (fun rest => Q (rest.map f)) s := by
  induction s with
  | nil => exact Iff.rfl
  | cons b s ih => exact or_congr Iff.rfl ih

theorem followedBy_or {p p' : α → Bool} {Q : List α → Prop} (s : List α) :
    FollowedBy (fun a => p a || p' a) Q s ↔ FollowedBy p Q s ∨ FollowedBy p' Q s := by
  induction s with
  | nil => simp [FollowedBy]
  | cons a s ih =>
    rw [FollowedBy, FollowedBy, FollowedBy, ih, Bool.or_eq_true, or_and_right]
    tauto

theorem FollowedBy.append {p : α → Bool} {Q : List α → Prop} {s : List α}
    (h : FollowedBy p Q s) (before : List α) : FollowedBy p Q (before ++ s) := by
  induction before with
  | nil => exact h
  | cons a before ih => exact .inr ih

/-- **The pieces of a text**: what comes before the first cut, and after each cut. -/
theorem splitOnP_pieces (p : α → Bool) (s : List α) :
    ∃ pieces, s.splitOnP p = s.takeWhile (!p ·) :: pieces ∧ ∀ Q : List α → Prop,
      (∃ piece ∈ pieces, Q piece) ↔ FollowedBy p (fun rest => Q (rest.takeWhile (!p ·))) s := by
  induction s with
  | nil => exact ⟨[], rfl, fun Q => by simp [FollowedBy]⟩
  | cons a s ih =>
    obtain ⟨pieces, hs, hpieces⟩ := ih
    rw [List.splitOnP_cons_eq_if_modifyHead, hs]
    cases ha : p a with
    | true =>
      refine ⟨s.takeWhile (!p ·) :: pieces, by simp [ha], fun Q => ?_⟩
      rw [List.exists_mem_cons_iff, hpieces, FollowedBy, and_iff_right ha]
    | false =>
      refine ⟨pieces, by simp [ha], fun Q => ?_⟩
      rw [hpieces, FollowedBy, or_iff_right (by simp [ha])]

theorem exists_mem_splitOnP {p : α → Bool} {Q : List α → Prop} (s : List α) :
    (∃ piece ∈ s.splitOnP p, Q piece) ↔
      Q (s.takeWhile (!p ·)) ∨ FollowedBy p (fun rest => Q (rest.takeWhile (!p ·))) s := by
  obtain ⟨pieces, hs, hpieces⟩ := splitOnP_pieces p s
  rw [hs, List.exists_mem_cons_iff, hpieces]

/-! ### Pieces of encoded texts -/

theorem splitOnP_append (p : α → Bool) (t : List α) : ∃ init last, t.splitOnP p = init ++ [last] ∧
    ∀ u, (t ++ u).splitOnP p = init ++ (u.splitOnP p).modifyHead (last ++ ·) := by
  induction t with
  | nil => exact ⟨[], [], rfl, fun u => (congrFun List.modifyHead_id (u.splitOnP p)).symm⟩
  | cons a t ih =>
    obtain ⟨init, last, ht, hu⟩ := ih
    cases ha : p a with
    | true =>
      refine ⟨[] :: init, last, ?_, fun u => ?_⟩
      · simp [List.splitOnP_cons_eq_if_modifyHead, ha, ht]
      · simp [List.splitOnP_cons_eq_if_modifyHead, ha, hu]
    | false =>
      cases init with
      | nil =>
        refine ⟨[], a :: last, ?_, fun u => ?_⟩
        · simp [List.splitOnP_cons_eq_if_modifyHead, ha, ht]
        · simp [List.splitOnP_cons_eq_if_modifyHead, ha, hu, Function.comp_def]
      | cons first init =>
        refine ⟨(a :: first) :: init, last, ?_, fun u => ?_⟩
        · simp [List.splitOnP_cons_eq_if_modifyHead, ha, ht]
        · simp [List.splitOnP_cons_eq_if_modifyHead, ha, hu]

theorem splitOnP_append_of_forall_not {p : α → Bool} {t : List α} (h : ∀ a ∈ t, p a = false)
    (u : List α) : (t ++ u).splitOnP p = (u.splitOnP p).modifyHead (t ++ ·) := by
  induction t with
  | nil => exact (congrFun List.modifyHead_id (u.splitOnP p)).symm
  | cons a t ih =>
    rw [List.forall_mem_cons] at h
    simp [List.splitOnP_cons_eq_if_modifyHead, h.1, ih h.2, Function.comp_def]

/-- A piece is cut off a text that may go on after a cutting symbol. -/
def CutFrom (r : β → Bool) (piece t : List β) : Prop :=
  piece = t ∨ ∃ x rest, r x = true ∧ t = piece ++ x :: rest

theorem CutFrom.cons {r : β → Bool} {piece t : List β} (h : CutFrom r piece t) (b : β) :
    CutFrom r (b :: piece) (b :: t) := by
  rcases h with rfl | ⟨x, rest, hx, rfl⟩
  · exact .inl rfl
  · exact .inr ⟨x, rest, hx, rfl⟩

/-- Cutting at more symbols cuts pieces off the pieces. -/
theorem splitOnP_map_refines {f : α → β} {p : α → Bool} {r : β → Bool}
    (h : ∀ a, p a = true → r (f a) = true) (s : List α) :
    ∃ part parts piece pieces, s.splitOnP p = part :: parts ∧
      (s.map f).splitOnP r = piece :: pieces ∧ CutFrom r piece (part.map f) ∧
      ∀ part' ∈ parts, ∃ piece' ∈ pieces, CutFrom r piece' (part'.map f) := by
  induction s with
  | nil => exact ⟨[], [], [], [], rfl, rfl, .inl rfl, by simp⟩
  | cons a s ih =>
    obtain ⟨part, parts, piece, pieces, hparts, hpieces, hfirst, hrest⟩ := ih
    rw [List.map_cons, List.splitOnP_cons_eq_if_modifyHead, List.splitOnP_cons_eq_if_modifyHead,
      hparts, hpieces]
    cases ha : p a with
    | true =>
      rw [h a ha]
      refine ⟨[], part :: parts, [], piece :: pieces, rfl, rfl, .inl rfl, fun part' hpart' => ?_⟩
      rcases List.mem_cons.mp hpart' with rfl | hpart'
      · exact ⟨piece, List.mem_cons_self .., hfirst⟩
      · obtain ⟨piece', hmem, hcut⟩ := hrest part' hpart'
        exact ⟨piece', List.mem_cons_of_mem _ hmem, hcut⟩
    | false =>
      cases hr : r (f a) with
      | true =>
        refine ⟨a :: part, parts, [], piece :: pieces, rfl, rfl, .inr ⟨f a, part.map f, hr, rfl⟩,
          fun part' hpart' => ?_⟩
        obtain ⟨piece', hmem, hcut⟩ := hrest part' hpart'
        exact ⟨piece', List.mem_cons_of_mem _ hmem, hcut⟩
      | false => exact ⟨a :: part, parts, f a :: piece, pieces, rfl, rfl, hfirst.cons (f a), hrest⟩

/-- Cutting at plain symbols commutes with encoding. -/
theorem Encoding.splitOnP_flatMap (E : Encoding α) {p : α → Bool}
    (hp : ∀ a, E.plain a = false → p a = false) (s : List α) :
    (s.flatMap E.expand).splitOnP p = (s.splitOnP p).map (·.flatMap E.expand) := by
  induction s with
  | nil => rfl
  | cons a s ih =>
    have hexpand : p a = false → ∀ b ∈ E.expand a, p b = false := by
      intro ha b hb
      cases hplain : E.plain a with
      | true =>
        rw [E.expand_plain a hplain, List.mem_singleton] at hb
        rw [hb, ha]
      | false => exact hp b (E.expand_other a hplain b hb)
    rw [List.flatMap_cons, List.splitOnP_cons_eq_if_modifyHead]
    cases ha : p a with
    | true =>
      have hplain : E.plain a = true := by
        by_contra hother
        exact absurd (ha.symm.trans (hp a (by simpa using hother))) (by simp)
      simp [E.expand_plain a hplain, List.splitOnP_cons_eq_if_modifyHead, ha, ih]
    | false =>
      obtain ⟨first, rest, hs⟩ := List.exists_cons_of_ne_nil (List.splitOnP_ne_nil p s)
      rw [splitOnP_append_of_forall_not (hexpand ha), ih, hs]
      simp

end Scanner
end Griot.Lib
