import Griot.Lib.Machine

/-! Machines that refine others.

Every step of a refining machine is a step of the other one on what its state shows. Its runs
are runs of the other then (`exec_projected`), and an action of such a run is the trace of one
step, taken where it stands (`split_projected`). -/
namespace Griot.Lib

structure Refinement {α β σ τ : Type} (fine : Machine β τ) (coarse : Machine α σ) where
  shows : τ → σ
  /-- The trace of a step taken in a state. -/
  trace : β → τ → α
  start : shows fine.start = coarse.start
  step : ∀ {b t t'}, fine.step b t = some t' → coarse.step (trace b t) (shows t) = some (shows t')

namespace Refinement
variable {α β σ τ : Type} {fine : Machine β τ} {coarse : Machine α σ} (r : Refinement fine coarse)

/-- The traces of the steps of a run, up to one that is not possible. -/
def projected : List β → τ → List α
  | [], _ => []
  | b :: bs, t => r.trace b t :: match fine.step b t with
    | some t' => projected bs t'
    | none => []

variable {r}

theorem projected_cons {b : β} {bs : List β} {t t' : τ} (h : fine.step b t = some t') :
    r.projected (b :: bs) t = r.trace b t :: r.projected bs t' := by
  rw [projected, h]

theorem exec_projected {bs : List β} {t t' : τ} (h : fine.exec bs t = some t') :
    coarse.exec (r.projected bs t) (r.shows t) = some (r.shows t') := by
  induction bs generalizing t with
  | nil =>
    obtain rfl := Option.some.inj h
    rfl
  | cons b bs ih =>
    obtain ⟨t₁, hstep, hrest⟩ := Machine.exec_cons h
    rw [projected_cons hstep, Machine.exec, r.step hstep]
    exact ih hrest

/-- **A run of the refining machine is one of the other.** -/
theorem runs_projected {bs : List β} {t : τ} (h : fine.Runs bs t) :
    coarse.Runs (r.projected bs fine.start) (r.shows t) := by
  rw [Machine.Runs, ← r.start]
  exact exec_projected h

/-- An action stands where the step it is the trace of was taken. -/
theorem split_projected {bs : List β} {t t' : τ} (h : fine.exec bs t = some t') {before after : List α}
    {a : α} (hsplit : r.projected bs t = before ++ a :: after) :
    ∃ earlier b later t₁ t₂, bs = earlier ++ b :: later ∧ fine.exec earlier t = some t₁ ∧
      fine.step b t₁ = some t₂ ∧ before = r.projected earlier t ∧ a = r.trace b t₁ := by
  induction bs generalizing t before with
  | nil => cases before <;> cases hsplit
  | cons b bs ih =>
    obtain ⟨t₁, hstep, hrest⟩ := Machine.exec_cons h
    rw [projected_cons hstep] at hsplit
    cases before with
    | nil =>
      obtain ⟨rfl, -⟩ := List.cons.inj hsplit
      exact ⟨[], b, bs, t, t₁, rfl, rfl, hstep, rfl, rfl⟩
    | cons first before =>
      obtain ⟨rfl, htail⟩ := List.cons.inj hsplit
      obtain ⟨earlier, b', later, t₂, t₃, rfl, hexec, hstep', rfl, rfl⟩ := ih hrest htail
      refine ⟨b :: earlier, b', later, t₂, t₃, rfl, ?_, hstep', (projected_cons hstep).symm, rfl⟩
      rw [Machine.exec, hstep]
      exact hexec

theorem mem_projected {bs : List β} {t t' : τ} (h : fine.exec bs t = some t') {a : α}
    (ha : a ∈ r.projected bs t) : ∃ b ∈ bs, ∃ t₁, a = r.trace b t₁ := by
  obtain ⟨before, after, hsplit⟩ := List.append_of_mem ha
  obtain ⟨earlier, b, later, t₁, -, rfl, -, -, -, rfl⟩ := split_projected h hsplit
  exact ⟨b, List.mem_append_right _ (List.mem_cons_self ..), t₁, rfl⟩

end Refinement
end Griot.Lib
