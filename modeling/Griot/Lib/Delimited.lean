import Griot.Lib.Framing

/-! Encodings that a stop byte ends.

An item whose bytes are no stops, or that shows its own end, can be read off the front of any byte
string in which a stop follows it: the encoding is `Delimited`. So can a list of such items with a
stop between any two of them (`Delimited.join`), and so can lines, each with a stop at its end,
without their number being known (`Delimited.lines`). -/
namespace Griot.Lib

/-- Items satisfying `P` can be read back off the front where a stop follows. -/
def Delimited {α : Type} (Stop : UInt8 → Prop) (P : α → Prop) (encode : α → Bytes) : Prop :=
  ∀ a b c d s t, Stop c → Stop d → P a → P b → encode a ++ c :: s = encode b ++ d :: t →
    a = b ∧ c :: s = d :: t

variable {α β : Type} {Stop : UInt8 → Prop} {P : α → Prop} {encode : α → Bytes}

/-- Two byte strings without stops, a stop after each. -/
theorem stopFree_append_inj {x y : Bytes} (hx : ∀ u ∈ x, ¬ Stop u) (hy : ∀ u ∈ y, ¬ Stop u)
    {c d : UInt8} (hc : Stop c) (hd : Stop d) {s t : Bytes} (h : x ++ c :: s = y ++ d :: t) :
    x = y ∧ c :: s = d :: t := by
  induction x generalizing y with
  | nil =>
    cases y with
    | nil => exact ⟨rfl, h⟩
    | cons v y =>
      obtain rfl := (List.cons.inj h).1
      exact absurd hc (hy c (List.mem_cons_self ..))
  | cons u x ih =>
    cases y with
    | nil =>
      obtain rfl := (List.cons.inj h).1
      exact absurd hd (hx u (List.mem_cons_self ..))
    | cons v y =>
      obtain ⟨rfl, hrest⟩ := List.cons.inj h
      obtain ⟨rfl, htail⟩ := ih (fun w hw => hx w (List.mem_cons_of_mem _ hw))
        (fun w hw => hy w (List.mem_cons_of_mem _ hw)) hrest
      exact ⟨rfl, htail⟩

namespace Delimited

/-- Bytes that are no stops. -/
theorem of_stopFree (hinj : ∀ a b, P a → P b → encode a = encode b → a = b)
    (hfree : ∀ a, P a → ∀ u ∈ encode a, ¬ Stop u) : Delimited Stop P encode := by
  intro a b c d s t hc hd ha hb h
  obtain ⟨heq, htail⟩ := stopFree_append_inj (hfree a ha) (hfree b hb) hc hd h
  exact ⟨hinj a b ha hb heq, htail⟩

/-- After an item that shows its own end. -/
theorem after {Q : β → Prop} {encode' : β → Bytes} (h' : SelfDelimiting Q encode')
    (h : Delimited Stop P encode) :
    Delimited Stop (fun p : β × α => Q p.1 ∧ P p.2) fun p => encode' p.1 ++ encode p.2 := by
  intro a b c d s t hc hd ha hb heq
  obtain ⟨a₁, a₂⟩ := a
  obtain ⟨b₁, b₂⟩ := b
  simp only [List.append_assoc] at heq
  obtain ⟨rfl, hrest⟩ := h' a₁ b₁ _ _ ha.1 hb.1 heq
  obtain ⟨rfl, htail⟩ := h a₂ b₂ c d s t hc hd ha.2 hb.2 hrest
  exact ⟨rfl, htail⟩

/-- **Lists with a stop between any two items**, of one length. -/
theorem join (h : Delimited Stop P encode) {sep : UInt8} (hsep : Stop sep) {as bs : List α}
    (has : ∀ a ∈ as, P a) (hbs : ∀ b ∈ bs, P b) (hlength : as.length = bs.length) {c d : UInt8}
    (hc : Stop c) (hd : Stop d) {s t : Bytes}
    (heq : [sep].intercalate (as.map encode) ++ c :: s =
      [sep].intercalate (bs.map encode) ++ d :: t) : as = bs ∧ c :: s = d :: t := by
  induction as generalizing bs with
  | nil =>
    obtain rfl : bs = [] := List.length_eq_zero_iff.mp hlength.symm
    exact ⟨rfl, heq⟩
  | cons a as ih =>
    cases bs with
    | nil => cases hlength
    | cons b bs =>
      have ha := has a (List.mem_cons_self ..)
      have hb := hbs b (List.mem_cons_self ..)
      have hlength' : as.length = bs.length := Nat.succ.inj hlength
      cases as with
      | nil =>
        obtain rfl : bs = [] := List.length_eq_zero_iff.mp hlength'.symm
        rw [List.map_singleton, List.map_singleton, List.intercalate_singleton,
          List.intercalate_singleton] at heq
        obtain ⟨rfl, htail⟩ := h a b c d s t hc hd ha hb heq
        exact ⟨rfl, htail⟩
      | cons a' as =>
        obtain ⟨b', bs, rfl⟩ := List.exists_cons_of_ne_nil
          (fun hnil : bs = [] => by simp [hnil] at hlength')
        simp only [List.map_cons, List.intercalate_cons_cons, List.append_assoc,
          List.singleton_append] at heq
        obtain ⟨rfl, hrest⟩ := h a b sep sep _ _ hsep hsep ha hb heq
        obtain ⟨htail, hstop⟩ := ih (fun x hx => has x (List.mem_cons_of_mem _ hx))
          (fun x hx => hbs x (List.mem_cons_of_mem _ hx)) hlength'
          (by simpa using (List.cons.inj hrest).2)
        exact ⟨congrArg (a :: ·) htail, hstop⟩

/-- **Lines**: the bytes with a stop after every item give the items back. -/
theorem lines (h : Delimited Stop P encode) {stop : UInt8} (hstop : Stop stop) {as bs : List α}
    (has : ∀ a ∈ as, P a) (hbs : ∀ b ∈ bs, P b)
    (heq : (as.flatMap fun a => encode a ++ [stop]) = bs.flatMap fun b => encode b ++ [stop]) :
    as = bs := by
  induction as generalizing bs with
  | nil =>
    cases bs with
    | nil => rfl
    | cons b bs => simp at heq
  | cons a as ih =>
    cases bs with
    | nil => simp at heq
    | cons b bs =>
      simp only [List.flatMap_cons, List.append_assoc, List.singleton_append] at heq
      obtain ⟨rfl, hrest⟩ := h a b stop stop _ _ hstop hstop (has a (List.mem_cons_self ..))
        (hbs b (List.mem_cons_self ..)) heq
      exact congrArg (a :: ·) (ih (fun x hx => has x (List.mem_cons_of_mem _ hx))
        (fun x hx => hbs x (List.mem_cons_of_mem _ hx)) (List.cons.inj hrest).2)

end Delimited

theorem mem_intercalate {sep u : UInt8} {parts : List Bytes} (h : u ∈ [sep].intercalate parts) :
    u = sep ∨ ∃ part ∈ parts, u ∈ part := by
  induction parts with
  | nil => cases h
  | cons part parts ih =>
    cases parts with
    | nil =>
      rw [List.intercalate_singleton] at h
      exact .inr ⟨part, List.mem_cons_self .., h⟩
    | cons next parts =>
      rw [List.intercalate_cons_cons, List.append_assoc, List.mem_append] at h
      obtain h | h := h
      · exact .inr ⟨part, List.mem_cons_self .., h⟩
      · obtain rfl | h := List.mem_cons.mp h
        · exact .inl rfl
        · exact (ih h).imp_right fun ⟨part', hpart', hu⟩ => ⟨part', List.mem_cons_of_mem _ hpart', hu⟩

/-- As many stops as lines, where only the ends of lines are stops. -/
theorem count_lines {as : List α} {stop : UInt8} (h : ∀ a ∈ as, stop ∉ encode a) :
    (as.flatMap fun a => encode a ++ [stop]).count stop = as.length := by
  induction as with
  | nil => rfl
  | cons a as ih =>
    rw [List.flatMap_cons, List.count_append, ih fun b hb => h b (List.mem_cons_of_mem _ hb),
      List.count_append, List.count_eq_zero_of_not_mem (h a (List.mem_cons_self ..)),
      List.count_singleton_self, List.length_cons]
    omega

end Griot.Lib
