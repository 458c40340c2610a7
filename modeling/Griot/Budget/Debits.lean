import Griot.Budget.Tracker

/-! Debits in a row.

Debits of one tenant are made one after another, each for a column at its price, until
one is refused. Those made before are not given back, so the balances are what they were
only if every debit that was made is free (`free_of_unspent`), and then the first that is
not free is the refused one (`unspent_iff`). -/
namespace Griot.Budget.PrivacyBudgetTracker

/-! ### One debit -/

/-- No balance differs. -/
structure Same (t t' : PrivacyBudgetTracker) : Prop where
  enabled : t'.enabled = t.enabled
  balance : ∀ key, t'.balance key = t.balance key

theorem Same.refl (t : PrivacyBudgetTracker) : t.Same t := ⟨rfl, fun _ => rfl⟩

theorem Same.trans {t₁ t₂ t₃ : PrivacyBudgetTracker} (h : t₁.Same t₂) (h' : t₂.Same t₃) :
    t₁.Same t₃ :=
  ⟨h'.enabled.trans h.enabled, fun key => (h'.balance key).trans (h.balance key)⟩

theorem Same.symm {t t' : PrivacyBudgetTracker} (h : t.Same t') : t'.Same t :=
  ⟨h.enabled.symm, fun key => (h.balance key).symm⟩

variable (r : F64.Rounding) (tenantId : String) (price : String → F64)

/-- The debit for a column is refused. -/
def Refuses (t : PrivacyBudgetTracker) (c : String) : Prop :=
  t.enabled = true ∧ (t.balance (tenantId, c)).lt (r.sub (price c) (.fin F64.epsilon)) = true

/-- The debit for a column is granted, and changes no balance. -/
def Free (t : PrivacyBudgetTracker) (c : String) : Prop :=
  ¬ t.Refuses r tenantId price c ∧
    (t.enabled = true → r.sub (t.balance (tenantId, c)) (price c) = t.balance (tenantId, c))

/-- What a granted debit leaves. -/
structure Debited (c : String) (t t' : PrivacyBudgetTracker) : Prop where
  enabled : t'.enabled = t.enabled
  balance : ∀ key, t'.balance key =
    if t.enabled = true ∧ key = (tenantId, c) then r.sub (t.balance key) (price c) else t.balance key

variable {r tenantId price}

theorem Same.refuses_iff {t t' : PrivacyBudgetTracker} (h : t.Same t') (c : String) :
    t'.Refuses r tenantId price c ↔ t.Refuses r tenantId price c := by
  rw [Refuses, Refuses, h.enabled, h.balance]

theorem Same.free_iff {t t' : PrivacyBudgetTracker} (h : t.Same t') (c : String) :
    t'.Free r tenantId price c ↔ t.Free r tenantId price c := by
  rw [Free, Free, h.refuses_iff, h.enabled, h.balance]

theorem consume_of_refuses {t : PrivacyBudgetTracker} {c : String}
    (h : t.Refuses r tenantId price c) :
    t.consume r tenantId c (price c) = (.error (t.balance (tenantId, c)), t) := by
  rw [consume, h.1]
  simp [h.2]

theorem consume_of_not_refuses {t : PrivacyBudgetTracker} {c : String}
    (h : ¬ t.Refuses r tenantId price c) :
    ∃ t', t.consume r tenantId c (price c) = (.ok (), t') ∧ Debited r tenantId price c t t' := by
  cases henabled : t.enabled with
  | false =>
    refine ⟨t, by simp [consume, henabled], rfl, ?_⟩
    intro key
    rw [henabled, if_neg (by simp)]
  | true =>
    obtain ⟨hlt, -⟩ | ⟨-, hconsume⟩ := consume_cases r henabled tenantId c (price c)
    · exact absurd ⟨henabled, hlt⟩ h
    · refine ⟨_, hconsume, rfl, ?_⟩
      intro key
      rw [balance_record, henabled]
      by_cases hkey : key = (tenantId, c) <;> simp [hkey]

theorem Debited.same {c : String} {t t' : PrivacyBudgetTracker} (h : Debited r tenantId price c t t')
    (hfree : t.Free r tenantId price c) : t.Same t' := by
  refine ⟨h.enabled, ?_⟩
  intro key
  rw [h.balance]
  split
  · rename_i hkey
    rw [hkey.2]
    exact hfree.2 hkey.1
  · rfl

/-! ### Many debits -/

variable (r tenantId price)

/-- Make debits in order until one is refused; with the tracker come those that were not made. -/
def chargeAll : List String → PrivacyBudgetTracker → PrivacyBudgetTracker × List String
  | [], t => (t, [])
  | c :: cs, t => match t.consume r tenantId c (price c) with
    | (.error _, t') => (t', c :: cs)
    | (.ok (), t') => chargeAll cs t'

variable {r tenantId price}

theorem chargeAll_of_refuses {t : PrivacyBudgetTracker} {c : String}
    (h : t.Refuses r tenantId price c) (cs : List String) :
    chargeAll r tenantId price (c :: cs) t = (t, c :: cs) := by
  rw [chargeAll, consume_of_refuses h]

theorem chargeAll_of_not_refuses {t : PrivacyBudgetTracker} {c : String}
    (h : ¬ t.Refuses r tenantId price c) :
    ∃ t', Debited r tenantId price c t t' ∧
      ∀ cs, chargeAll r tenantId price (c :: cs) t = chargeAll r tenantId price cs t' := by
  obtain ⟨t', hconsume, hdebited⟩ := consume_of_not_refuses h
  exact ⟨t', hdebited, fun cs => by rw [chargeAll, hconsume]⟩

/-- A refusal leaves everything after it undone. -/
theorem chargeAll_append (cs cs' : List String) (t : PrivacyBudgetTracker) :
    chargeAll r tenantId price (cs ++ cs') t = match chargeAll r tenantId price cs t with
      | (t', []) => chargeAll r tenantId price cs' t'
      | (t', c :: left) => (t', c :: left ++ cs') := by
  induction cs generalizing t with
  | nil => rfl
  | cons c cs ih =>
    by_cases h : t.Refuses r tenantId price c
    · rw [List.cons_append, chargeAll_of_refuses h, chargeAll_of_refuses h]
      rfl
    · obtain ⟨t', -, hcharge⟩ := chargeAll_of_not_refuses h
      rw [List.cons_append, hcharge, hcharge, ih]

variable (r tenantId price) in
theorem chargeAll_enabled (cs : List String) (t : PrivacyBudgetTracker) :
    (chargeAll r tenantId price cs t).1.enabled = t.enabled := by
  induction cs generalizing t with
  | nil => rfl
  | cons c cs ih =>
    by_cases h : t.Refuses r tenantId price c
    · rw [chargeAll_of_refuses h]
    · obtain ⟨t', hdebited, hcharge⟩ := chargeAll_of_not_refuses h
      rw [hcharge, ih, hdebited.enabled]

/-- Whatever the debits of a column cannot leave, its balance does not leave. -/
theorem chargeAll_closed {S : F64 → Prop} {c : String} (hS : ∀ z, S z → S (r.sub z (price c)))
    (cs : List String) {t : PrivacyBudgetTracker} (h : S (t.balance (tenantId, c))) :
    S ((chargeAll r tenantId price cs t).1.balance (tenantId, c)) := by
  induction cs generalizing t with
  | nil => exact h
  | cons c' cs ih =>
    by_cases hrefuses : t.Refuses r tenantId price c'
    · rw [chargeAll_of_refuses hrefuses]
      exact h
    · obtain ⟨t', hdebited, hcharge⟩ := chargeAll_of_not_refuses hrefuses
      rw [hcharge]
      apply ih
      rw [hdebited.balance]
      split
      · rename_i hkey
        obtain rfl : c = c' := (Prod.mk.inj hkey.2).2
        exact hS _ h
      · exact h

variable (r price) in
/-- Debits of other columns leave a balance alone. -/
theorem chargeAll_balance_of_notMem {cs : List String} {key : Key}
    (h : ∀ c ∈ cs, key ≠ (tenantId, c)) (t : PrivacyBudgetTracker) :
    (chargeAll r tenantId price cs t).1.balance key = t.balance key := by
  induction cs generalizing t with
  | nil => rfl
  | cons c cs ih =>
    obtain ⟨hc, hcs⟩ := List.forall_mem_cons.1 h
    by_cases hrefuses : t.Refuses r tenantId price c
    · rw [chargeAll_of_refuses hrefuses]
    · obtain ⟨t', hdebited, hcharge⟩ := chargeAll_of_not_refuses hrefuses
      rw [hcharge, ih hcs, hdebited.balance, if_neg (fun hkey => hc hkey.2)]

/-- Granted debits of a column are taken off its balance one after the other. -/
theorem chargeAll_balance {cs : List String} {t t' : PrivacyBudgetTracker}
    (h : chargeAll r tenantId price cs t = (t', [])) (henabled : t.enabled = true) (c : String) :
    t'.balance (tenantId, c) =
      (fun z => r.sub z (price c))^[cs.count c] (t.balance (tenantId, c)) := by
  induction cs generalizing t with
  | nil =>
    obtain ⟨rfl, -⟩ := Prod.mk.inj h
    rfl
  | cons c' cs ih =>
    by_cases hrefuses : t.Refuses r tenantId price c'
    · rw [chargeAll_of_refuses hrefuses] at h
      cases (Prod.mk.inj h).2
    · obtain ⟨t₁, hdebited, hcharge⟩ := chargeAll_of_not_refuses hrefuses
      rw [hcharge] at h
      rw [ih h (hdebited.enabled.trans henabled), hdebited.balance]
      by_cases hc : c = c'
      · subst hc
        rw [if_pos ⟨henabled, rfl⟩, List.count_cons_self, Function.iterate_succ_apply]
      · rw [if_neg (fun hkey => hc (Prod.mk.inj hkey.2).2), List.count_cons_of_ne (Ne.symm hc)]

theorem chargeAll_of_free {cs : List String} {t : PrivacyBudgetTracker}
    (h : ∀ c ∈ cs, t.Free r tenantId price c) (rest : List String) :
    ∃ t', t.Same t' ∧ chargeAll r tenantId price (cs ++ rest) t = chargeAll r tenantId price rest t' := by
  induction cs generalizing t with
  | nil => exact ⟨t, .refl t, rfl⟩
  | cons c cs ih =>
    obtain ⟨hc, hcs⟩ := List.forall_mem_cons.1 h
    obtain ⟨t₁, hdebited, hcharge⟩ := chargeAll_of_not_refuses hc.1
    have hsame := hdebited.same hc
    obtain ⟨t', hsame', hcharge'⟩ := ih (fun c' hc' => (hsame.free_iff c').2 (hcs c' hc'))
    exact ⟨t', hsame.trans hsame', (hcharge _).trans hcharge'⟩

/-- **Where no balance has changed, every debit that was made is free**, and the next one, if there
is one, is refused. -/
theorem free_of_unspent {cs left : List String} {t t' : PrivacyBudgetTracker}
    (h : chargeAll r tenantId price cs t = (t', left)) (hsame : t.Same t') :
    ∃ made, cs = made ++ left ∧ (∀ c ∈ made, t.Free r tenantId price c) ∧
      ∀ c ∈ left.head?, t.Refuses r tenantId price c := by
  induction cs generalizing t with
  | nil =>
    obtain ⟨-, rfl⟩ := Prod.mk.inj h
    exact ⟨[], rfl, by simp, by simp⟩
  | cons c cs ih =>
    by_cases hrefuses : t.Refuses r tenantId price c
    · rw [chargeAll_of_refuses hrefuses] at h
      obtain ⟨-, rfl⟩ := Prod.mk.inj h
      exact ⟨[], rfl, by simp, by simpa using hrefuses⟩
    · obtain ⟨t₁, hdebited, hcharge⟩ := chargeAll_of_not_refuses hrefuses
      rw [hcharge] at h
      have hfree : t.Free r tenantId price c := by
        refine ⟨hrefuses, fun henabled => ?_⟩
        by_contra hmoved
        obtain ⟨S, hfirst, hclosed, hnot⟩ := r.sub_never_returns hmoved
        have hafter : S (t₁.balance (tenantId, c)) := by
          rw [hdebited.balance, if_pos ⟨henabled, rfl⟩]
          exact hfirst
        have hend := chargeAll_closed hclosed cs hafter
        rw [h, hsame.balance] at hend
        exact hnot hend
      have hsame₁ := hdebited.same hfree
      obtain ⟨made, rfl, hmade, hleft⟩ := ih h (hsame₁.symm.trans hsame)
      refine ⟨c :: made, rfl, ?_, ?_⟩
      · rw [List.forall_mem_cons]
        exact ⟨hfree, fun c' hc' => (hsame₁.free_iff c').1 (hmade c' hc')⟩
      · intro c' hc'
        exact (hsame₁.refuses_iff c').1 (hleft c' hc')

theorem same_of_chargeAll {cs left : List String} {t t' : PrivacyBudgetTracker}
    (h : chargeAll r tenantId price cs t = (t', left))
    (hbalance : ∀ key, t'.balance key = t.balance key) : t.Same t' := by
  have henabled := chargeAll_enabled r tenantId price cs t
  rw [h] at henabled
  exact ⟨henabled, hbalance⟩

/-- Debits that were all granted and cost nothing are all free. -/
theorem all_free_of_unspent {cs : List String} {t t' : PrivacyBudgetTracker}
    (h : chargeAll r tenantId price cs t = (t', []))
    (hbalance : ∀ key, t'.balance key = t.balance key) : ∀ c ∈ cs, t.Free r tenantId price c := by
  obtain ⟨made, hcs, hfree, -⟩ := free_of_unspent h (same_of_chargeAll h hbalance)
  rw [hcs, List.append_nil]
  exact hfree

/-- **A row of debits that ends with a refusal costs nothing exactly when the first debit that is
not free is the refused one.** -/
theorem unspent_iff {cs left : List String} {t t' : PrivacyBudgetTracker}
    (h : chargeAll r tenantId price cs t = (t', left)) (hleft : left ≠ []) :
    (∀ key, t'.balance key = t.balance key) ↔ ∃ before c after, cs = before ++ c :: after ∧
      (∀ c' ∈ before, t.Free r tenantId price c') ∧ t.Refuses r tenantId price c := by
  constructor
  · intro hbalance
    obtain ⟨made, hcs, hfree, hrefuses⟩ := free_of_unspent h (same_of_chargeAll h hbalance)
    obtain ⟨c, after, rfl⟩ := List.exists_cons_of_ne_nil hleft
    exact ⟨made, c, after, hcs, hfree, hrefuses c rfl⟩
  · intro ⟨before, c, after, heq, hfree, hrefuses⟩
    subst heq
    obtain ⟨t₁, hsame, hcharge⟩ := chargeAll_of_free hfree (c :: after)
    rw [hcharge, chargeAll_of_refuses ((hsame.refuses_iff c).2 hrefuses)] at h
    obtain ⟨rfl, -⟩ := Prod.mk.inj h
    exact hsame.balance

/-- The debits that were made, and the one that was not. -/
theorem chargeAll_split {cs left : List String} {t t' : PrivacyBudgetTracker}
    (h : chargeAll r tenantId price cs t = (t', left)) :
    ∃ made, cs = made ++ left ∧ chargeAll r tenantId price made t = (t', []) ∧
      ∀ c ∈ left.head?, t'.Refuses r tenantId price c := by
  induction cs generalizing t with
  | nil =>
    obtain ⟨rfl, rfl⟩ := Prod.mk.inj h
    exact ⟨[], rfl, rfl, by simp⟩
  | cons c cs ih =>
    by_cases hrefuses : t.Refuses r tenantId price c
    · rw [chargeAll_of_refuses hrefuses] at h
      obtain ⟨rfl, rfl⟩ := Prod.mk.inj h
      exact ⟨[], rfl, rfl, by simpa using hrefuses⟩
    · obtain ⟨t₁, -, hcharge⟩ := chargeAll_of_not_refuses hrefuses
      rw [hcharge] at h
      obtain ⟨made, rfl, hmade, hleft⟩ := ih h
      exact ⟨c :: made, rfl, by rw [hcharge, hmade], hleft⟩

/-- Debits up to a refused one are those that are made. -/
theorem chargeAll_of_split {made left : List String} {t t' : PrivacyBudgetTracker}
    (hmade : chargeAll r tenantId price made t = (t', []))
    (hleft : ∀ c ∈ left.head?, t'.Refuses r tenantId price c) :
    chargeAll r tenantId price (made ++ left) t = (t', left) := by
  rw [chargeAll_append, hmade]
  cases left with
  | nil => rfl
  | cons c left => exact chargeAll_of_refuses (hleft c rfl) left

/-- **Positive debits raise no balance**, where they are taken off exactly. -/
theorem chargeAll_never_raises {cs left : List String} {t t' : PrivacyBudgetTracker}
    (h : chargeAll .exact tenantId price cs t = (t', left))
    (hpos : ∀ c ∈ cs, ∃ q, price c = .fin q ∧ 0 < q) (key : Key) :
    (t.balance key).lt (t'.balance key) = false := by
  have hirrefl := F64.lt_irrefl (t.balance key)
  have hbalance := congrArg (fun x => x.1.balance key) h
  by_cases hkey : ∃ c ∈ cs, key = (tenantId, c)
  · obtain ⟨c, hc, rfl⟩ := hkey
    obtain ⟨q, hq, hpos⟩ := hpos c hc
    have hclosed : ∀ z, (t.balance (tenantId, c)).lt z = false →
        (t.balance (tenantId, c)).lt (F64.Rounding.exact.sub z (price c)) = false := by
      intro z hz
      rw [hq]
      exact F64.Rounding.lt_exact_sub hpos hz
    have hend := chargeAll_closed hclosed cs hirrefl
    rwa [h] at hend
  · have hnone : ∀ c ∈ cs, key ≠ (tenantId, c) := fun c hc heq => hkey ⟨c, hc, heq⟩
    rw [chargeAll_balance_of_notMem _ price hnone] at hbalance
    rw [← show t.balance key = t'.balance key from hbalance]
    exact hirrefl

end Griot.Budget.PrivacyBudgetTracker
