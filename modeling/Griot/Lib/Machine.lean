/-! Machines that take one action after another.

An action is possible in a state or not. A property of runs is brought down to single
steps in one of four ways: what every step preserves holds at the end
(`exec_invariant`), also where it speaks of the actions so far (`runs_rule`); what a step
changes exactly when its action breaks a condition holds at the end, or all along, exactly
when no action broke the condition (`exec_iff`, `along_iff`). What happened so far can be
recorded next to the state without interfering with it (`observed`). -/
namespace Griot.Lib

structure Machine (α σ : Type) where
  start : σ
  step : α → σ → Option σ

namespace Machine
variable {α σ γ : Type} (m : Machine α σ)

/-- The state after some actions, if each was possible when its turn came. -/
def exec : List α → σ → Option σ
  | [], s => some s
  | a :: as, s => (m.step a s).bind (exec as)

/-- A run from the start. -/
def Runs (as : List α) (s : σ) : Prop := m.exec as m.start = some s

/-- Every action met a condition in the state it was taken in. -/
def Throughout (P : σ → α → Prop) : List α → σ → Prop
  | [], _ => True
  | a :: as, s => P s a ∧ ∀ s', m.step a s = some s' → Throughout P as s'

/-- Every state on the way, the first and the last included, has a property. -/
def Along (Q : σ → Prop) : List α → σ → Prop
  | [], s => Q s
  | a :: as, s => Q s ∧ ∀ s', m.step a s = some s' → Along Q as s'

instance Throughout.decidable {P : σ → α → Prop} [∀ s a, Decidable (P s a)] :
    ∀ as s, Decidable (m.Throughout P as s)
  | [], _ => .isTrue trivial
  | a :: as, s =>
    have : ∀ s', Decidable (m.Throughout P as s') := Throughout.decidable as
    inferInstanceAs (Decidable (P s a ∧ ∀ s' ∈ m.step a s, m.Throughout P as s'))

variable {m}

theorem exec_cons {a : α} {as : List α} {s t : σ} (h : m.exec (a :: as) s = some t) :
    ∃ s', m.step a s = some s' ∧ m.exec as s' = some t := by
  rw [exec] at h
  exact Option.bind_eq_some_iff.1 h

/-- **What every step preserves holds at the end of every run.** -/
theorem exec_invariant {I : σ → Prop} (hstep : ∀ a s s', I s → m.step a s = some s' → I s')
    {as : List α} {s t : σ} (hs : I s) (h : m.exec as s = some t) : I t := by
  induction as generalizing s with
  | nil =>
    obtain rfl := Option.some.inj h
    exact hs
  | cons a as ih =>
    obtain ⟨s', hs', ht⟩ := exec_cons h
    exact ih (hstep a s s' hs hs') ht

theorem exec_append {as bs : List α} {s : σ} : m.exec (as ++ bs) s = (m.exec as s).bind (m.exec bs) := by
  induction as generalizing s with
  | nil => rfl
  | cons a as ih =>
    rw [List.cons_append, exec, exec, Option.bind_assoc]
    exact congrArg _ (funext fun s' => ih)

theorem runs_concat {as : List α} {a : α} {s s' : σ} (h : m.Runs as s) (hstep : m.step a s = some s') :
    m.Runs (as ++ [a]) s' := by
  rw [Runs, exec_append, h]
  show (m.step a s).bind (m.exec []) = some s'
  rw [hstep]
  rfl

/-- What every step preserves of the actions so far and the state, from some of a run on. -/
theorem runs_rule_from {I : List α → σ → Prop}
    (hstep : ∀ as a s s', m.Runs as s → I as s → m.step a s = some s' → I (as ++ [a]) s')
    {past as : List α} {s t : σ} (hruns : m.Runs past s) (hs : I past s) (h : m.exec as s = some t) :
    I (past ++ as) t := by
  induction as generalizing past s with
  | nil =>
    obtain rfl := Option.some.inj h
    rwa [List.append_nil]
  | cons a as ih =>
    obtain ⟨s', hs', ht⟩ := exec_cons h
    have htail := ih (runs_concat hruns hs') (hstep past a s s' hruns hs hs') ht
    rwa [List.append_assoc] at htail

/-- **What every step preserves of the actions so far and the state holds of every run.** -/
theorem runs_rule {I : List α → σ → Prop} (hstart : I [] m.start)
    (hstep : ∀ as a s s', m.Runs as s → I as s → m.step a s = some s' → I (as ++ [a]) s')
    {as : List α} {s : σ} (h : m.Runs as s) : I as s :=
  runs_rule_from hstep (show m.Runs [] m.start from rfl) hstart h

/-- A property that is lost exactly by the actions that break a condition, and never
regained, holds at the end exactly when no action broke it. -/
theorem exec_iff {I Q : σ → Prop} {P : σ → α → Prop}
    (hinv : ∀ a s s', I s → m.step a s = some s' → I s')
    (hstep : ∀ a s s', I s → m.step a s = some s' → (Q s' ↔ Q s ∧ P s a))
    {as : List α} {s t : σ} (hs : I s) (h : m.exec as s = some t) :
    Q t ↔ Q s ∧ m.Throughout P as s := by
  induction as generalizing s with
  | nil =>
    obtain rfl := Option.some.inj h
    exact (and_iff_left trivial).symm
  | cons a as ih =>
    obtain ⟨s', hs', ht⟩ := exec_cons h
    rw [ih (hinv a s s' hs hs') ht, hstep a s s' hs hs', and_assoc]
    constructor
    · intro hq
      refine ⟨hq.1, hq.2.1, ?_⟩
      intro s'' hs''
      obtain rfl := Option.some.inj (hs'.symm.trans hs'')
      exact hq.2.2
    · intro hq
      exact ⟨hq.1, hq.2.1, hq.2.2 s' hs'⟩

theorem Along.head {Q : σ → Prop} {as : List α} {s : σ} (h : m.Along Q as s) : Q s := by
  cases as with
  | nil => exact h
  | cons a as => exact h.1

theorem Along.last {Q : σ → Prop} {as : List α} {s t : σ} (h : m.Along Q as s)
    (ht : m.exec as s = some t) : Q t := by
  induction as generalizing s with
  | nil =>
    obtain rfl := Option.some.inj ht
    exact h
  | cons a as ih =>
    obtain ⟨s', hs', ht'⟩ := exec_cons ht
    exact ih (h.2 s' hs') ht'

/-- A property that a step takes away exactly when its action breaks a condition holds all
along exactly when no action broke it. -/
theorem along_iff {I Q : σ → Prop} {P : σ → α → Prop}
    (hinv : ∀ a s s', I s → m.step a s = some s' → I s')
    (hstep : ∀ a s s', I s → Q s → m.step a s = some s' → (Q s' ↔ P s a))
    {as : List α} {s t : σ} (hi : I s) (hs : Q s) (h : m.exec as s = some t) :
    m.Along Q as s ↔ m.Throughout P as s := by
  induction as generalizing s with
  | nil => exact iff_of_true hs trivial
  | cons a as ih =>
    obtain ⟨s', hs', ht⟩ := exec_cons h
    have hi' := hinv a s s' hi hs'
    have hiff := hstep a s s' hi hs hs'
    constructor
    · intro hall
      have hq : Q s' := (hall.2 s' hs').head
      refine ⟨hiff.1 hq, ?_⟩
      intro s'' hs''
      obtain rfl := Option.some.inj (hs'.symm.trans hs'')
      exact (ih hi' hq ht).1 (hall.2 s' hs')
    · intro hall
      have hq := hiff.2 hall.1
      refine ⟨hs, ?_⟩
      intro s'' hs''
      obtain rfl := Option.some.inj (hs'.symm.trans hs'')
      exact (ih hi' hq ht).2 (hall.2 s' hs')

/-- What the actions that meet a condition preserve holds all along when every action meets it. -/
theorem Throughout.along {I : σ → Prop} {P : σ → α → Prop}
    (hstep : ∀ a s s', I s → P s a → m.step a s = some s' → I s')
    {as : List α} {s : σ} (hs : I s) (h : m.Throughout P as s) : m.Along I as s := by
  induction as generalizing s with
  | nil => exact hs
  | cons a as ih => exact ⟨hs, fun s' hs' => ih (hstep a s s' hs h.1 hs') (h.2 s' hs')⟩

theorem Throughout.imp {Q : σ → Prop} {P P' : σ → α → Prop} (himp : ∀ a s, Q s → P s a → P' s a)
    {as : List α} {s : σ} (hq : m.Along Q as s) (h : m.Throughout P as s) :
    m.Throughout P' as s := by
  induction as generalizing s with
  | nil => trivial
  | cons a as ih => exact ⟨himp a s hq.1 h.1, fun s' hs' => ih (hq.2 s' hs') (h.2 s' hs')⟩

theorem Throughout.and {P P' : σ → α → Prop} {as : List α} {s : σ} (h : m.Throughout P as s)
    (h' : m.Throughout P' as s) : m.Throughout (fun s a => P s a ∧ P' s a) as s := by
  induction as generalizing s with
  | nil => trivial
  | cons a as ih => exact ⟨⟨h.1, h'.1⟩, fun s' hs' => ih (h.2 s' hs') (h'.2 s' hs')⟩

theorem Along.imp {Q Q' : σ → Prop} (himp : ∀ s, Q s → Q' s) {as : List α} {s : σ}
    (h : m.Along Q as s) : m.Along Q' as s := by
  induction as generalizing s with
  | nil => exact himp s h
  | cons a as ih => exact ⟨himp s h.1, fun s' hs' => ih (h.2 s' hs')⟩

/-- Two properties that agree where an invariant holds hold all along alike. -/
theorem along_congr {I Q Q' : σ → Prop} (hinv : ∀ a s s', I s → m.step a s = some s' → I s')
    (hiff : ∀ s, I s → (Q s ↔ Q' s)) {as : List α} {s t : σ} (hs : I s)
    (h : m.exec as s = some t) : m.Along Q as s ↔ m.Along Q' as s := by
  induction as generalizing s with
  | nil => exact hiff s hs
  | cons a as ih =>
    obtain ⟨s', hs', ht⟩ := exec_cons h
    refine and_congr (hiff s hs) (forall₂_congr fun s'' hs'' => ?_)
    obtain rfl := Option.some.inj (hs'.symm.trans hs'')
    exact ih (hinv a s s' hs hs') ht

/-- What the state after a step tells of its action holds of every action. -/
theorem Along.throughout {Q : σ → Prop} {P : σ → α → Prop}
    (hnext : ∀ a s s', m.step a s = some s' → Q s' → P s a) {as : List α} {s t : σ}
    (hq : m.Along Q as s) (h : m.exec as s = some t) : m.Throughout P as s := by
  induction as generalizing s with
  | nil => trivial
  | cons a as ih =>
    obtain ⟨s', hs', ht⟩ := exec_cons h
    refine ⟨hnext a s s' hs' (hq.2 s' hs').head, ?_⟩
    intro s'' hs''
    exact ih (hq.2 s'' hs'') (Option.some.inj (hs'.symm.trans hs'') ▸ ht)

/-- A condition that looks at the actions only is met throughout when each action meets it. -/
theorem throughout_iff_forall {P : α → Prop} {as : List α} {s t : σ} (h : m.exec as s = some t) :
    m.Throughout (fun _ a => P a) as s ↔ ∀ a ∈ as, P a := by
  induction as generalizing s with
  | nil => simp [Throughout]
  | cons a as ih =>
    obtain ⟨s', hs', ht⟩ := exec_cons h
    rw [List.forall_mem_cons, ← ih ht]
    constructor
    · exact fun hall => ⟨hall.1, hall.2 s' hs'⟩
    · intro hall
      refine ⟨hall.1, ?_⟩
      intro s'' hs''
      obtain rfl := Option.some.inj (hs'.symm.trans hs'')
      exact hall.2

/-! ### Machines that never refuse -/

/-- A machine every action of which is possible in every state. -/
def always (start : σ) (step : α → σ → σ) : Machine α σ := ⟨start, fun a s => some (step a s)⟩

theorem always_step {start : σ} {step : α → σ → σ} {a : α} {s s' : σ}
    (h : (always start step).step a s = some s') : step a s = s' := Option.some.inj h

theorem always_exec {start : σ} {step : α → σ → σ} (as : List α) (s : σ) :
    (always start step).exec as s = some (as.foldl (fun s a => step a s) s) := by
  induction as generalizing s with
  | nil => rfl
  | cons a as ih => exact ih (step a s)

/-! ### Records of what happened -/

/-- The machine next to a record that each step is entered in. -/
def observed (m : Machine α σ) (before : γ) (enter : α → σ → γ → γ) : Machine α (σ × γ) where
  start := (m.start, before)
  step := fun a s => (m.step a s.1).map (fun s' => (s', enter a s.1 s.2))

theorem observed_step {before : γ} {enter : α → σ → γ → γ} {a : α} {s s' : σ × γ}
    (h : (m.observed before enter).step a s = some s') :
    m.step a s.1 = some s'.1 ∧ s'.2 = enter a s.1 s.2 := by
  obtain ⟨t, ht, rfl⟩ := Option.map_eq_some_iff.1 h
  exact ⟨ht, rfl⟩

/-- The record does not interfere: every run is a run of the machine alone, and back. -/
theorem observed_exec {before : γ} {enter : α → σ → γ → γ} {as : List α} {s t : σ} {g : γ} :
    m.exec as s = some t ↔ ∃ g', (m.observed before enter).exec as (s, g) = some (t, g') := by
  induction as generalizing s g with
  | nil => simp [exec]
  | cons a as ih =>
    rw [exec, exec]
    show _ ↔ ∃ g', Option.bind (Option.map _ (m.step a s)) _ = _
    cases m.step a s with
    | none => simp
    | some s' => exact ih

end Machine

end Griot.Lib
