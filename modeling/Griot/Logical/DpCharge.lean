import Griot.Budget.Debits
import Griot.Logical.DpCoverage

/-! What a walk of the noise rule costs.

The namings a walk pays for can be read off the plan (`billed`): the tagged columns of every
aggregate it may wrap, from the top, and nothing below one that has any. The rule debits them one
by one as it comes by, and a refusal only ends the debits (`rewrite_charges`). So a query that is
rejected has cost nothing in one case only (`rewrite_unspent_iff`). -/
namespace Griot.Logical

open Lib Budget

/-! ### The bill -/

/-- The tagged columns a walk pays for, in order. -/
def billed (tagged : String → Bool) : LogicalPlan → List String
  | .tableScan _ _ _ => []
  | .emptyRelation _ _ => []
  | .projection _ input _ => billed tagged input
  | .filter _ input => billed tagged input
  | .aggregate groupExpr aggrExpr input schema =>
    match namedColumns tagged (.aggregate groupExpr aggrExpr input schema) with
    | [] => billed tagged input
    | c :: cs => c :: cs
  | .contractApproved _ _ input _ => billed tagged input
  | .laplaceNoise _ _ input _ => billed tagged input
  | .other _ _ inputs _ => billedAll inputs
where
  billedAll : List LogicalPlan → List String
    | [] => []
    | p :: ps => billed tagged p ++ billedAll ps

theorem billedAll_eq_flatMap (tagged : String → Bool) (ps : List LogicalPlan) :
    billed.billedAll tagged ps = ps.flatMap (billed tagged) := by
  induction ps with
  | nil => rfl
  | cons p ps ih => rw [billed.billedAll, ih, List.flatMap_cons]

theorem billed_of_named {tagged : String → Bool} {plan : LogicalPlan}
    (h : namedColumns tagged plan ≠ []) : billed tagged plan = namedColumns tagged plan := by
  cases plan with
  | aggregate groupExpr aggrExpr input schema =>
    rw [billed]
    split
    · exact absurd ‹_› h
    · exact (‹_› : _ = _).symm
  | _ => exact absurd rfl h

theorem billed_of_not_named {tagged : String → Bool} {plan : LogicalPlan}
    (h : namedColumns tagged plan = []) :
    billed tagged plan = plan.inputs.flatMap (billed tagged) := by
  cases plan with
  | aggregate groupExpr aggrExpr input schema =>
    rw [billed, h]
    simp [LogicalPlan.inputs]
  | other kind exprs inputs schema => rw [billed, billedAll_eq_flatMap]; rfl
  | _ => simp [billed, LogicalPlan.inputs]

namespace DPNoiseRule

/-- The debits of one node are those for its tagged columns. -/
theorem consumeAll_charges (rule : DPNoiseRule) (data : DPBundleData) (cs : List String) :
    ∀ {t t' : PrivacyBudgetTracker} {result : Except String (List (String × F64))},
      rule.consumeAll data cs t = (t', result) → ∃ left,
        PrivacyBudgetTracker.chargeAll rule.rounding rule.tenantId data.price (cs.filter data.tags) t =
          (t', left) ∧ ((∃ found, result = .ok found) ↔ left = []) := by
  induction cs with
  | nil =>
    intro t t' result h
    obtain ⟨rfl, rfl⟩ := Prod.mk.inj h
    exact ⟨[], rfl, iff_of_true ⟨[], rfl⟩ rfl⟩
  | cons c cs ih =>
    intro t t' result h
    rw [consumeAll] at h
    cases hc : data.dpColumns.lookup c with
    | none =>
      simp only [hc] at h
      rw [List.filter_cons_of_neg (by simp [DPBundleData.tags, hc])]
      exact ih h
    | some config =>
      have hprice : data.price c = config.epsilonPerQuery := by simp [DPBundleData.price, hc]
      simp only [hc] at h
      rw [List.filter_cons_of_pos (by simp [DPBundleData.tags, hc]),
        PrivacyBudgetTracker.chargeAll, hprice]
      rcases hconsume : t.consume rule.rounding rule.tenantId c config.epsilonPerQuery with
        ⟨remaining | _, t₁⟩
      · simp only [hconsume] at h
        obtain ⟨rfl, rfl⟩ := Prod.mk.inj h
        exact ⟨_, rfl, by simp⟩
      · simp only [hconsume] at h
        rcases hrest : rule.consumeAll data cs t₁ with ⟨t₂, rest⟩
        simp only [hrest] at h
        obtain ⟨rfl, rfl⟩ := Prod.mk.inj h
        obtain ⟨left, hcharge, hleft⟩ := ih hrest
        refine ⟨left, hcharge, ?_⟩
        rw [← hleft]
        cases rest <;> simp [Except.map]

/-! ### One walk -/

/-- Debits that were made for some columns, up to the first refusal, which is then pending. -/
def Charges (rule : DPNoiseRule) (data : DPBundleData) (cs : List String) (s s' : NoiseState) :
    Prop :=
  (s.pendingError ≠ none → s'.budget = s.budget ∧ s'.pendingError ≠ none) ∧
  (s.pendingError = none → ∃ left,
    PrivacyBudgetTracker.chargeAll rule.rounding rule.tenantId data.price cs s.budget = (s'.budget, left) ∧
      (s'.pendingError = none ↔ left = []))

theorem charges_nil (rule : DPNoiseRule) (data : DPBundleData) (s : NoiseState) :
    rule.Charges data [] s s :=
  ⟨fun h => ⟨rfl, h⟩, fun h => ⟨[], rfl, iff_of_true h rfl⟩⟩

theorem Charges.append {rule : DPNoiseRule} {data : DPBundleData} {cs cs' : List String}
    {s s₁ s' : NoiseState} (h : rule.Charges data cs s s₁) (h' : rule.Charges data cs' s₁ s') :
    rule.Charges data (cs ++ cs') s s' := by
  constructor
  · intro hpending
    obtain ⟨hbudget, hpending₁⟩ := h.1 hpending
    obtain ⟨hbudget', hpending'⟩ := h'.1 hpending₁
    exact ⟨hbudget'.trans hbudget, hpending'⟩
  · intro hclear
    obtain ⟨left, hcharge, hleft⟩ := h.2 hclear
    rw [PrivacyBudgetTracker.chargeAll_append, hcharge]
    cases left with
    | nil => exact h'.2 (hleft.2 rfl)
    | cons c left =>
      obtain ⟨hbudget, hpending⟩ := h'.1 (fun hnone => absurd (hleft.1 hnone) (by simp))
      exact ⟨_, by rw [hbudget], iff_of_false hpending (by simp)⟩

theorem walked_charges {rule : DPNoiseRule} {data : DPBundleData} {ps ps' : List LogicalPlan}
    {s s' : NoiseState}
    (h : Walked (fun plan s _ s' => rule.Charges data (billed data.tags plan) s s') ps s ps' s') :
    rule.Charges data (ps.flatMap (billed data.tags)) s s' := by
  induction h with
  | nil s => exact rule.charges_nil data s
  | cons hp _ ih =>
    rw [List.flatMap_cons]
    exact hp.append ih

/-- A visit makes the debits of its node. -/
theorem visit_charges (rule : DPNoiseRule) (data : DPBundleData) (node : LogicalPlan)
    (s : NoiseState) {v : Visit} {s' : NoiseState} (h : rule.visit data node s = (.ok v, s')) :
    rule.Charges data (namedColumns data.tags node) s s' := by
  unfold visit at h
  cases hpending : s.pendingError with
  | some e =>
    simp only [hpending, Option.isSome_some, if_true, Prod.mk.injEq] at h
    obtain ⟨-, rfl⟩ := h
    exact ⟨fun _ => ⟨rfl, by simp [hpending]⟩, fun hnone => absurd (hpending.symm.trans hnone) (by simp)⟩
  | none =>
    simp only [hpending, Option.isSome_none, Bool.false_eq_true, if_false] at h
    cases node with
    | aggregate groupExpr aggrExpr input schema =>
      simp only at h
      cases hmarker : input.subtreeHasApprovalMarker with
      | false =>
        simp only [hmarker, Bool.not_false, if_true, Prod.mk.injEq] at h
        obtain ⟨-, rfl⟩ := h
        rw [namedColumns, hmarker]
        exact rule.charges_nil data s
      | true =>
        simp only [hmarker, Bool.not_true, Bool.false_eq_true, if_false] at h
        rw [namedColumns, hmarker, if_pos rfl]
        refine ⟨fun hsome => absurd hpending hsome, fun _ => ?_⟩
        rcases hconsume : rule.consumeAll data (collectAggColumns aggrExpr) s.budget with
          ⟨budget, c | found⟩
        · obtain ⟨left, hcharge, hleft⟩ := rule.consumeAll_charges data _ hconsume
          simp only [hconsume, Prod.mk.injEq] at h
          obtain ⟨-, rfl⟩ := h
          exact ⟨left, hcharge, iff_of_false (by simp) (fun hnil => by simpa using hleft.2 hnil)⟩
        · obtain ⟨left, hcharge, hleft⟩ := rule.consumeAll_charges data _ hconsume
          have hnil : left = [] := hleft.1 ⟨found, rfl⟩
          cases found with
          | nil =>
            simp only [hconsume, Prod.mk.injEq] at h
            obtain ⟨-, rfl⟩ := h
            exact ⟨left, hcharge, iff_of_true rfl hnil⟩
          | cons f found =>
            simp only [hconsume, Prod.mk.injEq] at h
            obtain ⟨-, rfl⟩ := h
            exact ⟨left, hcharge, iff_of_true rfl hnil⟩
    | _ =>
      simp only [Prod.mk.injEq] at h
      obtain ⟨-, rfl⟩ := h
      exact rule.charges_nil data s

/-- **A walk makes the debits that can be read off the plan.** -/
theorem walk_charges (rule : DPNoiseRule) (data : DPBundleData) (plan : LogicalPlan)
    (s : NoiseState) (plan' : LogicalPlan) (s' : NoiseState)
    (h : transformDown (rule.visit data) plan s = (.ok plan', s')) :
    rule.Charges data (billed data.tags plan) s s' := by
  refine transformDown_induct (R := fun plan s _ s' =>
    rule.Charges data (billed data.tags plan) s s') ?_ ?_ plan s plan' s' h
  · intro plan s node s' hv
    have hcharges := rule.visit_charges data plan s hv
    obtain ⟨-, hjump⟩ | ⟨-, -, hjump, -⟩ | ⟨found, -, -, -, hfound, hne⟩ :=
      rule.visit_cases data plan s hv
    · exact absurd hjump (by simp)
    · exact absurd hjump (by simp)
    · have hnamed : namedColumns data.tags plan ≠ [] := by simpa [hfound] using hne
      rwa [billed_of_named hnamed]
  · intro plan s node s₁ kids s₂ hv hwalked
    have hcharges := rule.visit_charges data plan s hv
    have hrest := walked_charges hwalked
    obtain ⟨hpending, -⟩ | ⟨-, -, -, hnamed⟩ | ⟨found, -, -, hnode, -⟩ :=
      rule.visit_cases data plan s hv
    · -- A debit was refused: what comes below is not paid for, named or not.
      by_cases hnamed : namedColumns data.tags plan = []
      · rw [billed_of_not_named hnamed]
        simpa [hnamed] using hcharges.append hrest
      · rw [billed_of_named hnamed]
        have hsome : s₁.pendingError ≠ none := by
          intro hnone
          rw [hnone] at hpending
          cases hpending
        obtain ⟨hbudget, hpending'⟩ := hrest.1 hsome
        refine ⟨fun h => ⟨hbudget.trans (hcharges.1 h).1, hpending'⟩, fun h => ?_⟩
        obtain ⟨left, hcharge, hleft⟩ := hcharges.2 h
        exact ⟨left, by rw [hbudget, hcharge],
          iff_of_false hpending' (fun hnil => hsome (hleft.2 hnil))⟩
    · rw [billed_of_not_named hnamed]
      simpa [hnamed] using hcharges.append hrest
    · exact absurd hnode (by simp)

/-! ### A query that is rejected -/

theorem visit_total (rule : DPNoiseRule) (data : DPBundleData) (node : LogicalPlan)
    (s : NoiseState) : ∃ v s', rule.visit data node s = (.ok v, s') := by
  unfold visit
  split
  · exact ⟨_, _, rfl⟩
  · split
    · split
      · exact ⟨_, _, rfl⟩
      · split <;> exact ⟨_, _, rfl⟩
    · exact ⟨_, _, rfl⟩

theorem billed_of_untagged {tagged : String → Bool} (h : ∀ c, tagged c = false)
    (plan : LogicalPlan) : billed tagged plan = [] := by
  induction plan using LogicalPlan.inputs_induction with
  | step plan ih =>
    have hnamed : namedColumns tagged plan = [] := by
      cases plan <;> simp [namedColumns, h]
    rw [billed_of_not_named hnamed]
    exact List.flatMap_eq_nil_iff.mpr ih

/-- **A rewrite makes the debits of its bill**, and fails exactly when one of them is refused. -/
theorem rewrite_charges {rule : DPNoiseRule} {data : DPBundleData}
    (hdata : rule.parseBundle = some data) {plan : LogicalPlan} {s s' : NoiseState}
    {outcome : Except DataFusionError Transformed} (h : rule.rewrite plan s = (outcome, s')) :
    ∃ left, PrivacyBudgetTracker.chargeAll rule.rounding rule.tenantId data.price (billed data.tags plan)
        s.budget = (s'.budget, left) ∧ ((∃ result, outcome = .ok result) ↔ left = []) := by
  rw [rewrite, hdata] at h
  simp only [addNoise] at h
  split at h
  · rename_i hempty
    obtain ⟨rfl, rfl⟩ := Prod.mk.inj h
    rw [billed_of_untagged (fun c => by simp [DPBundleData.tags, Dict.isEmpty_iff.mp hempty c])]
    exact ⟨[], rfl, iff_of_true ⟨_, rfl⟩ rfl⟩
  · obtain ⟨plan', s₁, hwalk⟩ := transformDown_total (rule.visit_total data) plan
      {s with pendingError := none, changed := false}
    simp only [hwalk] at h
    obtain ⟨left, hcharge, hleft⟩ := (rule.walk_charges data plan _ _ _ hwalk).2 rfl
    cases hpending : s₁.pendingError with
    | none =>
      simp only [hpending] at h
      obtain ⟨rfl, rfl⟩ := Prod.mk.inj h
      exact ⟨left, hcharge, iff_of_true ⟨_, rfl⟩ (hleft.mp hpending)⟩
    | some e =>
      simp only [hpending] at h
      obtain ⟨rfl, rfl⟩ := Prod.mk.inj h
      exact ⟨left, hcharge, iff_of_false (by simp) (fun hnil => by simp [hleft.mpr hnil] at hpending)⟩

/-- A debit on the bill of the plan is refused. -/
def Overdrawn (rule : DPNoiseRule) (data : DPBundleData) (plan : LogicalPlan) (s : NoiseState) : Prop :=
  (PrivacyBudgetTracker.chargeAll rule.rounding rule.tenantId data.price (billed data.tags plan)
    s.budget).2 ≠ []

theorem rewrite_ok_iff {rule : DPNoiseRule} {data : DPBundleData}
    (hdata : rule.parseBundle = some data) (plan : LogicalPlan) (s : NoiseState) :
    (∃ result, (rule.rewrite plan s).1 = .ok result) ↔ ¬rule.Overdrawn data plan s := by
  obtain ⟨left, hcharge, hleft⟩ := rewrite_charges hdata (Prod.mk.eta (p := rule.rewrite plan s)).symm
  rw [hleft, Overdrawn, hcharge, not_not]

/-- A rewrite fails only by a refused debit. -/
theorem rewrite_error {rule : DPNoiseRule} {plan : LogicalPlan} {s s' : NoiseState}
    {e : DataFusionError} (h : rule.rewrite plan s = (.error e, s')) :
    ∃ data left, rule.parseBundle = some data ∧ left ≠ [] ∧
      PrivacyBudgetTracker.chargeAll rule.rounding rule.tenantId data.price (billed data.tags plan) s.budget =
        (s'.budget, left) := by
  cases hparse : rule.parseBundle with
  | none =>
    rw [rewrite] at h
    simp [hparse] at h
  | some data =>
    obtain ⟨left, hcharge, hleft⟩ := rewrite_charges hparse h
    exact ⟨data, left, rfl, fun hnil => by simpa using hleft.mpr hnil, hcharge⟩

/-- **A rejected query has cost nothing exactly when the first debit on its bill that is not free
is the one that was refused.** -/
theorem rewrite_unspent_iff {rule : DPNoiseRule} {plan : LogicalPlan} {s s' : NoiseState}
    {e : DataFusionError} (h : rule.rewrite plan s = (.error e, s')) :
    (∀ key, s'.budget.balance key = s.budget.balance key) ↔
      ∃ data before c after, rule.parseBundle = some data ∧
        billed data.tags plan = before ++ c :: after ∧
        (∀ c' ∈ before, s.budget.Free rule.rounding rule.tenantId data.price c') ∧
        s.budget.Refuses rule.rounding rule.tenantId data.price c := by
  obtain ⟨data, left, hparse, hleft, hcharge⟩ := rewrite_error h
  rw [PrivacyBudgetTracker.unspent_iff hcharge hleft]
  constructor
  · intro ⟨before, c, after, hbilled, hfree, hrefuses⟩
    exact ⟨data, before, c, after, hparse, hbilled, hfree, hrefuses⟩
  · intro ⟨data', before, c, after, hparse', hbilled, hfree, hrefuses⟩
    obtain rfl := Option.some.inj (hparse.symm.trans hparse')
    exact ⟨before, c, after, hbilled, hfree, hrefuses⟩

/-! ### A column named twice -/

/-- `salary + salary` -/
def doubledSalary : Expr :=
  .binaryExpr (.column ⟨none, "salary"⟩) (.other "+") (.column ⟨none, "salary"⟩)

/-- Enough for one debit. -/
def oneDebit : PrivacyBudgetTracker := .withEnforcement true (.ofList [(("acme", "salary"), .fin 1)])

/-- What is left after it. -/
def noDebit : PrivacyBudgetTracker :=
  oneDebit.record ("acme", "salary") (F64.Rounding.nearest.sub (.fin 1) (.fin 1))

theorem oneDebit_balance : oneDebit.balance ("acme", "salary") = .fin 1 := rfl

theorem noDebit_balance : noDebit.balance ("acme", "salary") =
    F64.Rounding.nearest.sub (.fin 1) (.fin 1) := rfl

theorem oneDebit_consume : oneDebit.consume .nearest "acme" "salary" (.fin 1) = (.ok (), noDebit) := by
  have hlt : (F64.fin 1).lt (F64.Rounding.nearest.sub (.fin 1) (.fin F64.epsilon)) = false := by
    decide +kernel
  rw [PrivacyBudgetTracker.consume]
  simp only [oneDebit_balance, hlt]
  rfl

theorem noDebit_consume :
    noDebit.consume .nearest "acme" "salary" (.fin 1) =
      (.error (F64.Rounding.nearest.sub (.fin 1) (.fin 1)), noDebit) := by
  have hlt : (F64.Rounding.nearest.sub (.fin 1) (.fin 1)).lt
      (F64.Rounding.nearest.sub (.fin 1) (.fin F64.epsilon)) = true := by
    decide +kernel
  rw [PrivacyBudgetTracker.consume]
  simp only [noDebit_balance, hlt]
  rfl

theorem consumeAll_doubled :
    payNoise.consumeAll payData ["salary", "salary"] oneDebit = (noDebit, .error "salary") := by
  have hlookup : payData.dpColumns.lookup "salary" = some ⟨.fin 1, "laplace"⟩ := rfl
  have htenant : payNoise.tenantId = "acme" := rfl
  have hrounding : payNoise.rounding = .nearest := rfl
  simp only [consumeAll, hlookup, htenant, hrounding, oneDebit_consume, noDebit_consume]
  rfl

/-- The error of a refused debit. -/
def exhausted (tenantId column : String) : DataFusionError :=
  .external s!"privacy budget exhausted for tenant '{tenantId}', column '{column}'"

theorem payNoise_visit_doubled :
    payNoise.visit payData (payApproved doubledSalary) ⟨oneDebit, [], none, false⟩ =
      (.ok (.descend (payApproved doubledSalary)), ⟨noDebit,
        [payNoise.emitBudgetExhausted "salary"], some (exhausted "acme" "salary"), false⟩) := by
  have hcollect : collectAggColumns [.aggregateFunction "sum" [doubledSalary] false none []] =
      ["salary", "salary"] := rfl
  simp only [visit, payApproved, Option.isSome_none, Bool.false_eq_true, if_false]
  rw [hcollect]
  simp only [consumeAll_doubled]
  rfl

theorem payNoise_rewrite_doubled :
    payNoise.rewrite (payApproved doubledSalary) ⟨oneDebit, [], none, false⟩ =
      (.error (exhausted "acme" "salary"), ⟨noDebit, [payNoise.emitBudgetExhausted "salary"],
        some (exhausted "acme" "salary"), false⟩) := by
  rw [rewrite, payNoise_parseBundle]
  show payNoise.addNoise payData _ _ = _
  rw [addNoise, transformDown_eq, Pass.bind_run, payNoise_visit_doubled]
  rfl

theorem rewrite_unspent_doubled :
    (∀ key, noDebit.balance key = oneDebit.balance key) ↔
      ∃ data before c after, payNoise.parseBundle = some data ∧
        billed data.tags (payApproved doubledSalary) = before ++ c :: after ∧
        (∀ c' ∈ before, oneDebit.Free payNoise.rounding payNoise.tenantId data.price c') ∧
        oneDebit.Refuses payNoise.rounding payNoise.tenantId data.price c :=
  rewrite_unspent_iff payNoise_rewrite_doubled

/-- **A query rejected by its second debit has paid for the first.** -/
theorem rejected_charged :
    ¬ ∀ (rule : DPNoiseRule) plan s e s', rule.rewrite plan s = (.error e, s') →
      ∀ key, s'.budget.balance key = s.budget.balance key := by
  intro h
  have hsame := h payNoise (payApproved doubledSalary) _ _ _ payNoise_rewrite_doubled
    ("acme", "salary")
  rw [noDebit_balance, oneDebit_balance] at hsame
  exact absurd hsame (by decide +kernel)

end DPNoiseRule
end Griot.Logical
