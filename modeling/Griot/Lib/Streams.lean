import Mathlib.Data.List.Forall2

/-! Streams of batches, and operators that act row by row.

A stream is the list of its items in the order they are polled; an item is a
batch or an error, and an error does not end the stream. Draining it (`collect`)
stops at the first error. An operator that works on one batch at a time and
keeps, drops or replaces each row on its own is `RowWise`; such operators
compose, and what a stack of them emits depends only on the rows that go in, not
on how they were cut into batches (`collect_rows`, `limit_rows`). -/
namespace Griot.Lib

/-! ### Lists related item by item -/

theorem exists_of_forall₂ {α β : Type} {R : α → β → Prop} {l : List α} {l' : List β}
    (h : List.Forall₂ R l l') {a : α} (ha : a ∈ l) : ∃ b ∈ l', R a b := by
  induction h with
  | nil => exact absurd ha (by simp)
  | @cons x y l l' hxy _ ih =>
    obtain rfl | htail := List.mem_cons.mp ha
    · exact ⟨y, List.mem_cons_self .., hxy⟩
    · obtain ⟨b, hb, hab⟩ := ih htail
      exact ⟨b, List.mem_cons_of_mem _ hb, hab⟩

theorem exists_of_forall₂_singleton {α β : Type} {R : α → β → Prop} {a : α} {l' : List β}
    (h : List.Forall₂ R [a] l') : ∃ b, l' = [b] ∧ R a b := by
  obtain ⟨b, rest, hR, hrest, rfl⟩ := List.forall₂_cons_left_iff.mp h
  obtain rfl := List.forall₂_nil_left_iff.mp hrest
  exact ⟨b, rfl, hR⟩

/-! ### Batches -/

/-- Batches of rows: `slice n` is the first `n` rows of a batch as a batch. -/
structure Batching (β ρ : Type) where
  rows : β → List ρ
  slice : Nat → β → β
  rows_slice : ∀ n b, rows (slice n b) = (rows b).take n

abbrev BatchStream (ε β : Type) := List (Except ε β)

section Streams
variable {ε β ρ : Type}

/-- The item-wise operator `f`: errors of the input pass through. -/
def andThen (s : BatchStream ε β) (f : β → Except ε β) : BatchStream ε β := s.map (· >>= f)

def collect : BatchStream ε β → Except ε (List β)
  | [] => .ok []
  | .error e :: _ => .error e
  | .ok b :: s => (collect s).map (b :: ·)

@[simp] theorem andThen_map (bs : List β) (f g : β → Except ε β) :
    andThen (bs.map f) g = bs.map fun b => f b >>= g := by
  simp only [andThen, List.map_map]
  rfl

variable (B : Batching β ρ)

/-- The rows of a list of batches. -/
def Batching.allRows (bs : List β) : List ρ := bs.flatMap B.rows

@[simp] theorem Batching.allRows_nil : B.allRows [] = [] := rfl

@[simp] theorem Batching.allRows_cons (b : β) (bs : List β) :
    B.allRows (b :: bs) = B.rows b ++ B.allRows bs := rfl

/-- The first `n` rows. A batch is polled even when no row is wanted any more;
once enough rows have gone out the input is not polled again. -/
def limitStream : Nat → BatchStream ε β → BatchStream ε β
  | _, [] => []
  | n, .error e :: s => .error e :: limitStream n s
  | n, .ok b :: s =>
    if n = 0 then []
    else if (B.rows b).length < n then .ok b :: limitStream (n - (B.rows b).length) s
    else [.ok (B.slice n b)]

/-- On batches satisfying `P`, the rows of the output of `f` are what `g` makes
of the rows of its input, and the output satisfies `Q`. -/
def RowWise (P : β → Prop) (f : β → Except ε β) (Q : β → Prop) (g : ρ → Option ρ) : Prop :=
  ∀ b, P b → ∀ c, f b = .ok c → Q c ∧ B.rows c = (B.rows b).filterMap g

variable {B} {P Q R : β → Prop} {f f₁ f₂ : β → Except ε β} {g g₁ g₂ : ρ → Option ρ}

theorem bind_eq_ok {γ δ : Type} {x : Except ε γ} {k : γ → Except ε δ} {d : δ} :
    x >>= k = .ok d ↔ ∃ c, x = .ok c ∧ k c = .ok d := by
  cases x with
  | error e => simp [bind, Except.bind]
  | ok c => simp [bind, Except.bind]

theorem bind_eq_error {α β ε : Type} {x : Except ε α} {f : α → Except ε β} {e : ε}
    (h : x >>= f = .error e) : x = .error e ∨ ∃ a, x = .ok a ∧ f a = .error e := by
  cases x with
  | error e' => exact .inl (congrArg Except.error (Except.error.inj h))
  | ok a => exact .inr ⟨a, rfl, h⟩

theorem mapError_ok {α ε ε' : Type} {x : Except ε α} {f : ε → ε'} {a : α} :
    x.mapError f = .ok a ↔ x = .ok a := by
  cases x <;> simp [Except.mapError]

theorem mapError_error {α ε ε' : Type} {x : Except ε α} {f : ε → ε'} {e : ε'}
    (h : x.mapError f = .error e) : ∃ e', x = .error e' ∧ e = f e' := by
  cases x with
  | error e' => exact ⟨e', rfl, (Except.error.inj h).symm⟩
  | ok a => cases h

theorem RowWise.comp (h₁ : RowWise B P f₁ Q g₁) (h₂ : RowWise B Q f₂ R g₂) :
    RowWise B P (fun b => f₁ b >>= f₂) R (fun r => g₁ r >>= g₂) := by
  intro b hb d hd
  obtain ⟨c, hc, hd⟩ := bind_eq_ok.mp hd
  obtain ⟨hq, hrows⟩ := h₁ b hb c hc
  obtain ⟨hr, hrows'⟩ := h₂ c hq d hd
  exact ⟨hr, by rw [hrows', hrows, List.filterMap_filterMap]; rfl⟩

/-- The rows that come out are the rows that went in, one by one. -/
theorem collect_rows (h : RowWise B P f Q g) (bs : List β) (hbs : ∀ b ∈ bs, P b) {out : List β}
    (hout : collect (bs.map f) = .ok out) : B.allRows out = (B.allRows bs).filterMap g := by
  induction bs generalizing out with
  | nil =>
    obtain rfl : [] = out := Except.ok.inj hout
    rfl
  | cons b bs ih =>
    rw [List.map_cons] at hout
    cases hf : f b with
    | error e => simp [hf, collect] at hout
    | ok c =>
      simp only [hf, collect] at hout
      cases hrest : collect (bs.map f) with
      | error e => simp [hrest, Except.map] at hout
      | ok cs =>
        obtain rfl : c :: cs = out := by simpa [hrest, Except.map] using hout
        have hrows := (h b (hbs b (List.mem_cons_self ..)) c hf).2
        have htail := ih (fun x hx => hbs x (List.mem_cons_of_mem _ hx)) hrest
        simp only [Batching.allRows_cons, List.filterMap_append, hrows, htail]

/-- Under a limit, the first rows of the same. -/
theorem limit_rows (h : RowWise B P f Q g) (bs : List β) (hbs : ∀ b ∈ bs, P b) (n : Nat)
    {out : List β} (hout : collect (limitStream B n (bs.map f)) = .ok out) :
    B.allRows out = ((B.allRows bs).filterMap g).take n := by
  induction bs generalizing n out with
  | nil =>
    obtain rfl : [] = out := Except.ok.inj hout
    simp
  | cons b bs ih =>
    rw [List.map_cons] at hout
    cases hf : f b with
    | error e => simp [hf, limitStream, collect] at hout
    | ok c =>
      have hrows := (h b (hbs b (List.mem_cons_self ..)) c hf).2
      rw [hf, limitStream] at hout
      split at hout
      · rename_i hn
        obtain rfl : [] = out := Except.ok.inj hout
        simp [hn]
      · split at hout
        · rename_i hlt
          rw [collect] at hout
          cases hrest : collect (limitStream B (n - (B.rows c).length) (bs.map f)) with
          | error e => simp [hrest, Except.map] at hout
          | ok cs =>
            obtain rfl : c :: cs = out := by simpa [hrest, Except.map] using hout
            have htail := ih (fun x hx => hbs x (List.mem_cons_of_mem _ hx)) _ hrest
            have hwhole : (B.rows c).take n = B.rows c := List.take_of_length_le (by omega)
            simp only [Batching.allRows_cons, List.filterMap_append, ← hrows, htail]
            rw [List.take_append, hwhole]
        · rename_i hge
          obtain rfl : [B.slice n c] = out := by simpa [collect, Except.map] using hout
          simp only [Batching.allRows_cons, Batching.allRows_nil, List.append_nil, B.rows_slice,
            List.filterMap_append, ← hrows]
          rw [List.take_append_of_le_length (by omega)]

/-! ### When a stream drains -/

/-- An operator that never fails yields a stream that drains, limited or not. -/
theorem collect_total (bs : List β) (h : ∀ b ∈ bs, ∃ c, f b = .ok c) :
    ∃ out, collect (bs.map f) = .ok out := by
  induction bs with
  | nil => exact ⟨[], rfl⟩
  | cons b bs ih =>
    obtain ⟨c, hc⟩ := h b (List.mem_cons_self ..)
    obtain ⟨cs, hcs⟩ := ih fun x hx => h x (List.mem_cons_of_mem _ hx)
    exact ⟨c :: cs, by rw [List.map_cons, hc, collect, hcs]; rfl⟩

theorem limit_total (bs : List β) (h : ∀ b ∈ bs, ∃ c, f b = .ok c) (n : Nat) :
    ∃ out, collect (limitStream B n (bs.map f)) = .ok out := by
  induction bs generalizing n with
  | nil => exact ⟨[], rfl⟩
  | cons b bs ih =>
    obtain ⟨c, hc⟩ := h b (List.mem_cons_self ..)
    rw [List.map_cons, hc, limitStream]
    split
    · exact ⟨[], rfl⟩
    · split
      · obtain ⟨cs, hcs⟩ := ih (fun x hx => h x (List.mem_cons_of_mem _ hx))
          (n - (B.rows c).length)
        exact ⟨c :: cs, by rw [collect, hcs]; rfl⟩
      · exact ⟨[B.slice n c], rfl⟩

/-- An operator that takes every batch or none drains every stream or only the empty one. -/
theorem collect_ok_iff {bs : List β} {P : Prop} (h : ∀ b ∈ bs, (∃ c, f b = .ok c) ↔ P) :
    (∃ out, collect (bs.map f) = .ok out) ↔ (bs ≠ [] → P) := by
  constructor
  · intro ⟨out, hout⟩ hne
    obtain ⟨b, bs, rfl⟩ := List.exists_cons_of_ne_nil hne
    cases hb : f b with
    | error e => simp [hb, collect] at hout
    | ok c => exact (h b (List.mem_cons_self ..)).mp ⟨c, hb⟩
  · intro hp
    exact collect_total bs fun b hb => (h b hb).mpr (hp (List.ne_nil_of_mem hb))

/-- So it is under a limit: the first batch is polled whatever the limit. -/
theorem limit_ok_iff {bs : List β} {P : Prop} (h : ∀ b ∈ bs, (∃ c, f b = .ok c) ↔ P) (n : Nat) :
    (∃ out, collect (limitStream B n (bs.map f)) = .ok out) ↔ (bs ≠ [] → P) := by
  constructor
  · intro ⟨out, hout⟩ hne
    obtain ⟨b, bs, rfl⟩ := List.exists_cons_of_ne_nil hne
    cases hb : f b with
    | error e => simp [hb, limitStream, collect] at hout
    | ok c => exact (h b (List.mem_cons_self ..)).mp ⟨c, hb⟩
  · intro hp
    exact limit_total bs (fun b hb => (h b hb).mpr (hp (List.ne_nil_of_mem hb))) n

end Streams
end Griot.Lib
