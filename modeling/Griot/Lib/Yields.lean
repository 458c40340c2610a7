import Griot.Lib.Streams

/-! What a stream yields, item by item.

A stream is held against the rows expected in each of its places (`Yields`); nothing is
expected of an error. Operators that act row by row change what is expected and no
more, and whatever such a stream drains to, limited or not, is what was expected
(`Yields.collect`, `Yields.limit`). A stream either has no error or begins with one when its
items fail alike (`Uniform`), and then whether it drains is a matter of its first item. -/
namespace Griot.Lib

section Yields
variable {ε β ρ : Type} {B : Batching β ρ} {P Q : β → Prop}

/-- Every batch satisfies `P` and holds the rows expected in its place. -/
def Yields (B : Batching β ρ) (P : β → Prop) (s : BatchStream ε β) (expected : List (List ρ)) :
    Prop :=
  List.Forall₂ (fun item rows => ∀ b, item = .ok b → P b ∧ B.rows b = rows) s expected

variable {s : BatchStream ε β} {expected : List (List ρ)} {f : β → Except ε β} {g : ρ → Option ρ}

theorem Yields.andThen (hs : Yields B P s expected) (hf : RowWise B P f Q g) :
    Yields B Q (andThen s f) (expected.map fun rows => rows.filterMap g) := by
  rw [Yields, Lib.andThen, List.forall₂_map_left_iff, List.forall₂_map_right_iff]
  refine hs.imp fun item rows hitem c hc => ?_
  obtain ⟨b, rfl, hb⟩ := bind_eq_ok.mp hc
  obtain ⟨hp, hrows⟩ := hitem b rfl
  obtain ⟨hq, hrows'⟩ := hf b hp c hb
  exact ⟨hq, by rw [hrows', hrows]⟩

/-- **A stream drains to what is expected of it.** -/
theorem Yields.collect (hs : Yields B P s expected) {out : List β} (h : collect s = .ok out) :
    B.allRows out = expected.flatten := by
  induction hs generalizing out with
  | nil =>
    obtain rfl : [] = out := Except.ok.inj h
    rfl
  | @cons item rows s expected hitem _ ih =>
    cases item with
    | error e => cases h
    | ok b =>
      rw [Lib.collect] at h
      cases hrest : Lib.collect s with
      | error e =>
        rw [hrest] at h
        cases h
      | ok rest =>
        rw [hrest] at h
        obtain rfl : b :: rest = out := Except.ok.inj h
        rw [Batching.allRows_cons, (hitem b rfl).2, ih hrest, List.flatten_cons]

/-- Under a limit, to the first rows of it. -/
theorem Yields.limit (hs : Yields B P s expected) (n : Nat) {out : List β}
    (h : Lib.collect (limitStream B n s) = .ok out) :
    B.allRows out = expected.flatten.take n := by
  induction hs generalizing n out with
  | nil =>
    obtain rfl : [] = out := Except.ok.inj h
    simp
  | @cons item rows s expected hitem _ ih =>
    cases item with
    | error e => cases h
    | ok b =>
      have hrows := (hitem b rfl).2
      rw [limitStream] at h
      split at h
      · rename_i hn
        obtain rfl : [] = out := Except.ok.inj h
        simp [hn]
      · split at h
        · rename_i hlt
          rw [Lib.collect] at h
          cases hrest : Lib.collect (limitStream B (n - (B.rows b).length) s) with
          | error e =>
            rw [hrest] at h
            cases h
          | ok rest =>
            rw [hrest] at h
            obtain rfl : b :: rest = out := Except.ok.inj h
            have htail := ih _ hrest
            rw [hrows] at hlt htail
            have hwhole : rows.take n = rows := List.take_of_length_le (by omega)
            rw [Batching.allRows_cons, htail, hrows, List.flatten_cons, List.take_append, hwhole]
        · rename_i hge
          obtain rfl : [B.slice n b] = out := by simpa [Lib.collect, Except.map] using h
          rw [hrows] at hge
          rw [Batching.allRows_cons, Batching.allRows_nil, List.append_nil, B.rows_slice, hrows,
            List.flatten_cons, List.take_append_of_le_length (by omega)]

end Yields

/-! ### Streams whose items fail alike -/

section Uniform
variable {ε β ρ : Type} {s : BatchStream ε β} {P : Prop}

/-- Where `P` holds no item is an error, and otherwise the first one is. -/
def Uniform (P : Prop) (s : BatchStream ε β) : Prop :=
  (P → ∀ item ∈ s, ∃ b, item = .ok b) ∧ (¬ P → ∀ item rest, s = item :: rest → ∃ e, item = .error e)

/-- A uniform stream drains if it is empty or `P` holds; a limit changes nothing, as the first
item is polled whatever the limit. -/
theorem Uniform.drains_iff (B : Batching β ρ) (h : Uniform P s) (limit : Option Nat) :
    (∃ out, collect (limit.elim s (limitStream B · s)) = .ok out) ↔ (s ≠ [] → P) := by
  constructor
  · intro ⟨out, hout⟩ hne
    by_contra hp
    obtain ⟨item, rest, rfl⟩ := List.exists_cons_of_ne_nil hne
    obtain ⟨e, rfl⟩ := h.2 hp item rest rfl
    cases limit <;> cases hout
  · intro hp
    by_cases hnil : s = []
    · subst hnil
      cases limit <;> exact ⟨[], rfl⟩
    · have hok := h.1 (hp hnil)
      obtain ⟨bs, rfl⟩ : ∃ bs : List β, s = bs.map .ok := by
        clear h hp hnil
        induction s with
        | nil => exact ⟨[], rfl⟩
        | cons item s ih =>
          rw [List.forall_mem_cons] at hok
          obtain ⟨⟨b, rfl⟩, hs⟩ := hok
          obtain ⟨bs, rfl⟩ := ih hs
          exact ⟨b :: bs, rfl⟩
      cases limit with
      | none => exact collect_total bs fun b _ => ⟨b, rfl⟩
      | some n => exact limit_total bs (fun b _ => ⟨b, rfl⟩) n

end Uniform
end Griot.Lib
