import Mathlib.Data.List.Induction

/-! Keyed stores and their histories.

An operation binds a key, unbinds it, or leaves it. The history of operations says
what each key stands for: what it was last bound to, if nothing unbound it since
(`standing`). A store may lose bindings whenever it likes and still be a truthful
account of its history, as long as it never makes one up: one step of that
(`Truthful`) is enough for whole runs (`standing_of_lookup`). -/
namespace Griot.Lib.History

/-- What an operation does to a key. -/
inductive Effect (ν : Type) where
  | binds (v : ν)
  | unbinds
  | leaves

variable {ω κ ν σ : Type}

def Effect.after : Effect ν → Option ν → Option ν
  | .binds v, _ => some v
  | .unbinds, _ => none
  | .leaves, before => before

/-- What a key stands for after a history, the oldest operation first. -/
def standing (effect : ω → κ → Effect ν) (k : κ) (history : List ω) : Option ν :=
  history.foldl (fun before op => (effect op k).after before) none

section Standing
variable (effect : ω → κ → Effect ν) (k : κ)

theorem standing_concat (history : List ω) (op : ω) :
    standing effect k (history ++ [op]) = (effect op k).after (standing effect k history) := by
  simp [standing]

/-- A key stands for what the last operation that touched it bound it to. -/
theorem last_binding {history : List ω} {v : ν} (h : standing effect k history = some v) :
    ∃ before op after, history = before ++ op :: after ∧ effect op k = .binds v ∧
      ∀ o ∈ after, effect o k = .leaves := by
  induction history using List.reverseRecOn with
  | nil => cases h
  | append_singleton history op ih =>
    rw [standing_concat] at h
    cases heff : effect op k with
    | binds w =>
      rw [heff] at h
      obtain rfl : w = v := Option.some.inj h
      exact ⟨history, op, [], rfl, heff, by simp⟩
    | unbinds =>
      rw [heff] at h
      cases h
    | leaves =>
      rw [heff] at h
      obtain ⟨before, o, after, rfl, hbinds, hafter⟩ := ih h
      refine ⟨before, o, after ++ [op], by simp, hbinds, ?_⟩
      intro o' ho'
      obtain ho' | ho' := List.mem_append.1 ho'
      · exact hafter o' ho'
      · obtain rfl := List.mem_singleton.1 ho'
        exact heff

/-- Operations that leave a key can be left out of its history. -/
theorem standing_filter (p : ω → Bool) (history : List ω)
    (h : ∀ op ∈ history, p op = false → effect op k = .leaves) :
    standing effect k (history.filter p) = standing effect k history := by
  induction history using List.reverseRecOn with
  | nil => rfl
  | append_singleton history op ih =>
    have hrest := ih (fun o ho => h o (List.mem_append_left _ ho))
    rw [List.filter_append, standing_concat, ← hrest]
    cases hp : p op with
    | true => rw [List.filter_cons_of_pos hp, List.filter_nil, standing_concat]
    | false =>
      rw [List.filter_cons_of_neg (by simp [hp]), List.filter_nil, List.append_nil,
        h op (by simp) hp]
      rfl

end Standing

/-- One step makes up no binding: a key bound afterwards was bound by the operation, or
was bound to the same before and left alone. -/
def Truthful (effect : ω → κ → Effect ν) (lookup : σ → κ → Option ν) (step : ω → σ → σ)
    (op : ω) (k : κ) : Prop :=
  ∀ s v, lookup (step op s) k = some v → (effect op k).after (lookup s k) = some v

/-- **A truthful store answers with what its history says.** -/
theorem standing_of_lookup {effect : ω → κ → Effect ν} {lookup : σ → κ → Option ν}
    {step : ω → σ → σ} {k : κ} (start : σ) (hstart : lookup start k = none) {history : List ω}
    (htrue : ∀ op ∈ history, Truthful effect lookup step op k) {v : ν}
    (h : lookup (history.foldl (fun s op => step op s) start) k = some v) :
    standing effect k history = some v := by
  induction history using List.reverseRecOn generalizing v with
  | nil =>
    rw [List.foldl_nil, hstart] at h
    cases h
  | append_singleton history op ih =>
    have hrest := fun o ho => htrue o (List.mem_append_left _ ho)
    rw [List.foldl_append] at h
    have hop := htrue op (by simp) _ _ h
    rw [standing_concat]
    cases heff : effect op k with
    | binds w =>
      rw [heff] at hop
      exact hop
    | unbinds =>
      rw [heff] at hop
      cases hop
    | leaves =>
      rw [heff] at hop
      exact ih hrest hop

end Griot.Lib.History
