import Griot.Logical.DpCharge

/-! Noise that is noise.

The epsilon of a column comes from the bundle as it is written there. It is debited, and its
reciprocal is written with six decimals into the noise node. A scale is a number above zero
near that reciprocal exactly when the epsilon is positive and below two million
(`hasScale_iff`); the rule does not look. So its noise is real for the bundles whose epsilons
all are, and otherwise only where the budget refuses a query before it comes to such a column
(`realNoise_iff`). -/
namespace Griot.Logical

open Lib Budget

/-! ### Scales -/

/-- A text is the reciprocal of an epsilon, up to the sixth decimal and above zero. -/
def Scaled (epsilon : F64) (scaleStr : String) : Prop :=
  ∃ e v, epsilon.toRat? = some e ∧ 0 < e ∧ decimalValue scaleStr.toList = some v ∧ 0 < v ∧
    |v - 1 / e| ≤ 1 / (2 * 10 ^ 6)

/-- What the rule writes for an epsilon. -/
def scaleOf (r : F64.Rounding) (epsilon : F64) : String := formatFixed6 (r.div (.fin 1) epsilon)

/-- The reciprocal, taken exactly, is written as a scale. -/
def HasScale (epsilon : F64) : Prop := Scaled epsilon (scaleOf .exact epsilon)

theorem scaleOf_fin {e : ℚ} (h : 0 < e) :
    scaleOf .exact (.fin e) = formatFixed6 (.fin (1 / e)) := by
  simp [scaleOf, F64.Rounding.div, F64.Rounding.exact, F64.toRat?, h.ne']

/-- **The epsilons that have a scale** are positive and not too large for six decimals. -/
theorem hasScale_iff (epsilon : F64) :
    HasScale epsilon ↔ ∃ e, epsilon = .fin e ∧ 0 < e ∧ e < 2 * 10 ^ 6 := by
  have hbound : ∀ e : ℚ, 0 < e → (1 / (2 * 10 ^ 6) < 1 / e ↔ e < 2 * 10 ^ 6) := fun e he =>
    one_div_lt_one_div (by norm_num) he
  constructor
  · intro ⟨e, v, hepsilon, hpos, hvalue, hv, _⟩
    obtain rfl : epsilon = .fin e := by
      cases epsilon with
      | fin q => rw [Option.some.inj hepsilon]
      | negZero => exact absurd hpos (by simp [← Option.some.inj hepsilon])
      | _ => cases hepsilon
    obtain ⟨v', hvalue', -, hpositive⟩ := formatFixed6_near (one_div_pos.mpr hpos).le
    rw [scaleOf_fin hpos, hvalue'] at hvalue
    obtain rfl := Option.some.inj hvalue
    exact ⟨e, rfl, hpos, (hbound e hpos).mp (hpositive.mp hv)⟩
  · intro ⟨e, hepsilon, hpos, hlarge⟩
    subst hepsilon
    obtain ⟨v, hvalue, hnear, hpositive⟩ := formatFixed6_near (one_div_pos.mpr hpos).le
    rw [HasScale, scaleOf_fin hpos]
    exact ⟨e, v, rfl, hpos, hvalue, hpositive.mpr ((hbound e hpos).mpr hlarge), hnear⟩

/-! ### The noise of a plan -/

/-- The column and the scale of a noise node. -/
def LogicalPlan.noiseLabel : LogicalPlan → Option (String × String)
  | laplaceNoise column scaleStr _ _ => some (column, scaleStr)
  | _ => none

/-- All noise nodes of a plan, wherever they stand. -/
def noiseLabels (plan : LogicalPlan) : List (String × String) :=
  plan.occurrences.filterMap fun o => o.2.noiseLabel

theorem noiseLabel_withInputs (plan : LogicalPlan) (kids : List LogicalPlan) :
    (plan.withInputs kids).noiseLabel = plan.noiseLabel := by
  unfold LogicalPlan.withInputs
  split <;> rfl

/-- The same noise is in a plan wherever the plan stands. -/
theorem noiseLabels_at (plan : LogicalPlan) (site : Site) :
    (plan.occurrencesAt site).filterMap (fun o => o.2.noiseLabel) = noiseLabels plan := by
  have hnodes (os : List (Site × LogicalPlan)) : (os.filterMap fun o => o.2.noiseLabel) =
      (os.map Prod.snd).filterMap LogicalPlan.noiseLabel := by
    rw [List.filterMap_map]
    rfl
  rw [noiseLabels, hnodes, hnodes, plan.nodes_at site]

/-- A node, the plans in its expressions, its inputs. -/
theorem noiseLabels_eq (plan : LogicalPlan) :
    noiseLabels plan = plan.noiseLabel.toList ++
      ((plan.exprs.flatMap Expr.occurrences).filterMap fun o => o.2.noiseLabel) ++
      plan.inputs.flatMap noiseLabels := by
  rw [noiseLabels, LogicalPlan.occurrences, LogicalPlan.occurrencesAt_eq, List.filterMap_cons,
    List.filterMap_append]
  simp only [List.filterMap_flatMap, noiseLabels_at]
  cases plan.noiseLabel <;> simp

/-- What the rule writes into the node for a column. -/
def DPBundleData.noise (r : F64.Rounding) (data : DPBundleData) (c : String) : String × String :=
  (c, scaleOf r (data.price c))

namespace DPNoiseRule

theorem noiseLabels_wrap (r : F64.Rounding) (schema : DFSchema) (found : List (String × F64)) :
    ∀ node : LogicalPlan,
    (noiseLabels (wrap r node schema found)).Perm
      (noiseLabels node ++ found.map fun f => (f.1, scaleOf r f.2)) := by
  induction found with
  | nil => exact fun node => by simp [wrap]
  | cons f found ih =>
    intro node
    have hnode : noiseLabels (.laplaceNoise f.1 (scaleOf r f.2) node schema) =
        (f.1, scaleOf r f.2) :: noiseLabels node := by
      rw [noiseLabels_eq]
      simp [LogicalPlan.noiseLabel, LogicalPlan.exprs, LogicalPlan.inputs]
    have hrest := ih (.laplaceNoise f.1 (scaleOf r f.2) node schema)
    rw [hnode] at hrest
    exact hrest.trans List.perm_middle.symm

/-- A walk without a refused debit puts in one node for every naming on its bill. -/
structure Injects (r : F64.Rounding) (data : DPBundleData) (plan : LogicalPlan) (s : NoiseState)
    (plan' : LogicalPlan) (s' : NoiseState) : Prop where
  pending : s'.pendingError = none → s.pendingError = none
  labels : s'.pendingError = none → (noiseLabels plan').Perm
    (noiseLabels plan ++ (billed data.tags plan).map (data.noise r))

theorem walked_injects {r : F64.Rounding} {data : DPBundleData} {ps ps' : List LogicalPlan}
    {s s' : NoiseState} (h : Walked (Injects r data) ps s ps' s') (hs : s'.pendingError = none) :
    s.pendingError = none ∧ (ps'.flatMap noiseLabels).Perm
      (ps.flatMap noiseLabels ++ (ps.flatMap (billed data.tags)).map (data.noise r)) := by
  induction h with
  | nil s => exact ⟨hs, by simp⟩
  | @cons p p' ps ps' s s₁ s₂ hp _ ih =>
    obtain ⟨hs₁, hrest⟩ := ih hs
    refine ⟨hp.pending hs₁, ?_⟩
    simp only [List.flatMap_cons, List.map_append]
    refine ((hp.labels hs₁).append hrest).trans ?_
    simp only [List.append_assoc]
    exact (List.perm_append_comm_assoc _ _ _).append_left (noiseLabels p)

theorem walk_injects (rule : DPNoiseRule) (data : DPBundleData) (plan : LogicalPlan)
    (s : NoiseState) (plan' : LogicalPlan) (s' : NoiseState)
    (h : transformDown (rule.visit data) plan s = (.ok plan', s')) :
    Injects rule.rounding data plan s plan' s' := by
  refine transformDown_induct (R := Injects rule.rounding data) ?_ ?_ plan s plan' s' h
  · intro plan s node s' hv
    obtain ⟨-, hjump⟩ | ⟨-, -, hjump, -⟩ | ⟨found, hs, -, hjump, hfound, hne⟩ :=
      rule.visit_cases data plan s hv
    · exact absurd hjump (by simp)
    · exact absurd hjump (by simp)
    · obtain rfl := Visit.jump.inj hjump
      refine ⟨fun _ => hs, fun _ => ?_⟩
      have hnamed : namedColumns data.tags plan ≠ [] := by simpa [hfound] using hne
      have hwrap := noiseLabels_wrap rule.rounding plan.schema found plan
      rw [hfound, List.map_map] at hwrap
      rw [billed_of_named hnamed, hfound]
      exact hwrap
  · intro plan s node s₁ kids s₂ hv hwalked
    obtain ⟨hpending, -⟩ | ⟨hs, -, hnode, hnamed⟩ | ⟨found, -, -, hnode, -⟩ :=
      rule.visit_cases data plan s hv
    · -- A debit was refused: nothing clears it.
      have hrefused : s₂.pendingError ≠ none := fun hs => by
        rw [(walked_injects hwalked hs).1] at hpending
        cases hpending
      exact ⟨fun hs => absurd hs hrefused, fun hs => absurd hs hrefused⟩
    · obtain rfl : node = plan := Visit.descend.inj hnode
      refine ⟨fun _ => hs, fun hs' => ?_⟩
      rw [noiseLabels_eq, noiseLabels_eq node, noiseLabel_withInputs, LogicalPlan.exprs_withInputs,
        node.inputs_withInputs hwalked.length_eq, billed_of_not_named hnamed]
      simp only [List.append_assoc]
      exact ((walked_injects hwalked hs').2.append_left _).append_left _
    · exact absurd hnode (by simp)

/-- **A rewrite that succeeds puts in the noise of its bill**, and no other. -/
theorem rewrite_injects {rule : DPNoiseRule} {data : DPBundleData}
    (hdata : rule.parseBundle = some data) {plan : LogicalPlan} {s s' : NoiseState}
    {result : Transformed} (h : rule.rewrite plan s = (.ok result, s')) :
    (noiseLabels result.data).Perm
      (noiseLabels plan ++ (billed data.tags plan).map (data.noise rule.rounding)) := by
  rw [rewrite, hdata] at h
  simp only [addNoise] at h
  split at h
  · rename_i hempty
    obtain ⟨rfl, -⟩ : ⟨plan, false⟩ = result ∧ s = s' := by simpa using h
    rw [billed_of_untagged (fun c => by simp [DPBundleData.tags, Dict.isEmpty_iff.mp hempty c])]
    simp
  · split at h
    · simp at h
    · rename_i newPlan s₁ hwalk
      split at h
      · simp at h
      · rename_i hpending
        obtain ⟨rfl, -⟩ : ⟨newPlan, s₁.changed⟩ = result ∧ s₁ = s' := by simpa using h
        exact (rule.walk_injects data plan _ newPlan s₁ hwalk).labels hpending

/-! ### The debits of a rewrite -/

/-- The debits a rewrite made: those of its bill, in order, up to the first that is refused. -/
structure Debits (rule : DPNoiseRule) (data : DPBundleData) (plan : LogicalPlan) (s s' : NoiseState)
    (made left : List String) : Prop where
  billed_eq : billed data.tags plan = made ++ left
  charged : PrivacyBudgetTracker.chargeAll rule.rounding rule.tenantId data.price made s.budget =
    (s'.budget, [])
  refused : ∀ c ∈ left.head?, s'.budget.Refuses rule.rounding rule.tenantId data.price c

theorem rewrite_debits {rule : DPNoiseRule} {data : DPBundleData}
    (hdata : rule.parseBundle = some data) {plan : LogicalPlan} {s s' : NoiseState}
    {outcome : Except DataFusionError Transformed} (h : rule.rewrite plan s = (outcome, s')) :
    ∃ made left, rule.Debits data plan s s' made left ∧
      ((∃ result, outcome = .ok result) ↔ left = []) := by
  obtain ⟨left, hcharge, hok⟩ := rewrite_charges hdata h
  obtain ⟨made, hbilled, hmade, hleft⟩ := PrivacyBudgetTracker.chargeAll_split hcharge
  exact ⟨made, left, ⟨hbilled, hmade, hleft⟩, hok⟩

/-- There is one way to make the debits of a bill. -/
theorem Debits.left_eq {rule : DPNoiseRule} {data : DPBundleData} {plan : LogicalPlan}
    {s s₁ s₂ : NoiseState} {made₁ made₂ left₁ left₂ : List String}
    (h₁ : rule.Debits data plan s s₁ made₁ left₁) (h₂ : rule.Debits data plan s s₂ made₂ left₂) :
    made₁ = made₂ ∧ left₁ = left₂ := by
  have hcharge := PrivacyBudgetTracker.chargeAll_of_split h₁.charged h₁.refused
  rw [← h₁.billed_eq, h₂.billed_eq,
    PrivacyBudgetTracker.chargeAll_of_split h₂.charged h₂.refused] at hcharge
  obtain rfl := (Prod.mk.inj hcharge).2
  exact ⟨List.append_cancel_right (h₁.billed_eq.symm.trans h₂.billed_eq), rfl⟩

theorem tagged_of_billed {tagged : String → Bool} (plan : LogicalPlan) :
    ∀ c ∈ billed tagged plan, tagged c = true := by
  induction plan using LogicalPlan.inputs_induction with
  | step plan ih =>
    intro c hc
    by_cases hnamed : namedColumns tagged plan = []
    · rw [billed_of_not_named hnamed] at hc
      obtain ⟨p, hp, hc⟩ := List.mem_flatMap.mp hc
      exact ih p hp c hc
    · rw [billed_of_named hnamed] at hc
      cases plan with
      | aggregate groupExpr aggrExpr input schema =>
        rw [namedColumns] at hc
        split at hc
        · exact (List.mem_filter.mp hc).2
        · cases hc
      | _ => cases hc

/-! ### Real noise -/

/-- **Injected noise is real**: a rewrite that succeeds has put in nodes with the scales of their
epsilons; whatever comes of it, each debit it made took off something positive and no balance is
higher than before; and a bundle with an epsilon that has no scale is refused. -/
structure RealNoise (rule : DPNoiseRule) (data : DPBundleData) (plan : LogicalPlan)
    (s : NoiseState) : Prop where
  injected : ∀ result s', rule.rewrite plan s = (.ok result, s') → ∃ added,
    (noiseLabels result.data).Perm (noiseLabels plan ++ added) ∧
      ∀ label ∈ added, Scaled (data.price label.1) label.2
  debited : ∀ outcome s' made left, rule.rewrite plan s = (outcome, s') →
    rule.Debits data plan s s' made left → s.budget.enabled = true →
      ∀ c ∈ made, ∃ e, data.price c = .fin e ∧ 0 < e ∧ s'.budget.balance (rule.tenantId, c) =
        (fun z => rule.rounding.sub z (.fin e))^[made.count c] (s.budget.balance (rule.tenantId, c))
  never_raised : ∀ outcome s', rule.rewrite plan s = (outcome, s') →
    ∀ key, (s.budget.balance key).lt (s'.budget.balance key) = false
  rejected : (∃ c config, data.dpColumns.lookup c = some config ∧
      ¬ HasScale config.epsilonPerQuery) →
    ∃ e s', rule.rewrite plan s = (.error e, s')

/-- What a column of a bill is charged is the epsilon its bundle gives it. -/
theorem price_of_billed {data : DPBundleData} {P : F64 → Prop}
    (h : ∀ c config, data.dpColumns.lookup c = some config → P config.epsilonPerQuery)
    (plan : LogicalPlan) : ∀ c ∈ billed data.tags plan, P (data.price c) := by
  intro c hc
  obtain ⟨config, hconfig⟩ := Option.isSome_iff_exists.mp (tagged_of_billed plan c hc)
  have hprice : data.price c = config.epsilonPerQuery := by simp [DPBundleData.price, hconfig]
  rw [hprice]
  exact h c config hconfig

/-- The debits of a rewrite are made at positive prices. -/
def Positive (rule : DPNoiseRule) (data : DPBundleData) (plan : LogicalPlan) (s : NoiseState) :
    Prop :=
  ∀ s' made left, rule.Debits data plan s s' made left → ∀ c ∈ made,
    ∃ e, data.price c = .fin e ∧ 0 < e

/-- Where the prices are positive, what they buy is taken off and nothing is raised. -/
theorem realNoise_of_positive {rule : DPNoiseRule} {data : DPBundleData}
    (hdata : rule.parseBundle = some data) (hexact : rule.rounding = .exact) {plan : LogicalPlan}
    {s : NoiseState} (hpositive : rule.Positive data plan s)
    (hinjected : ∀ result s', rule.rewrite plan s = (.ok result, s') → ∃ added,
      (noiseLabels result.data).Perm (noiseLabels plan ++ added) ∧
        ∀ label ∈ added, Scaled (data.price label.1) label.2)
    (hrejected : (∃ c config, data.dpColumns.lookup c = some config ∧
      ¬ HasScale config.epsilonPerQuery) → ∃ e s', rule.rewrite plan s = (.error e, s')) :
    rule.RealNoise data plan s where
  injected := hinjected
  debited := by
    intro outcome s' made left _ hdebits henabled c hc
    obtain ⟨e, he, hpos⟩ := hpositive s' made left hdebits c hc
    refine ⟨e, he, hpos, ?_⟩
    rw [PrivacyBudgetTracker.chargeAll_balance hdebits.charged henabled c, he]
  never_raised := by
    intro outcome s' h
    obtain ⟨made, left, hdebits, -⟩ := rewrite_debits hdata h
    exact PrivacyBudgetTracker.chargeAll_never_raises (hexact ▸ hdebits.charged)
      (hpositive s' made left hdebits)
  rejected := hrejected

theorem realNoise_of_scales {rule : DPNoiseRule} {data : DPBundleData}
    (hdata : rule.parseBundle = some data) (hexact : rule.rounding = .exact) (plan : LogicalPlan)
    (s : NoiseState)
    (hscales : ∀ c config, data.dpColumns.lookup c = some config → HasScale config.epsilonPerQuery) :
    rule.RealNoise data plan s := by
  have hprice := price_of_billed hscales plan
  refine realNoise_of_positive hdata hexact ?_ ?_ ?_
  · intro s' made left hdebits c hc
    have hbilled : c ∈ billed data.tags plan := by
      rw [hdebits.billed_eq]
      exact List.mem_append_left left hc
    obtain ⟨e, he, hpos, -⟩ := (hasScale_iff _).mp (hprice c hbilled)
    exact ⟨e, he, hpos⟩
  · intro result s' h
    refine ⟨_, rewrite_injects hdata h, ?_⟩
    rw [List.forall_mem_map, hexact]
    exact hprice
  · intro ⟨c, config, hconfig, hnone⟩
    exact absurd (hscales c config hconfig) hnone

/-- A query that is refused is not answered with noise of any kind. -/
theorem realNoise_of_refused {rule : DPNoiseRule} {data : DPBundleData}
    (hdata : rule.parseBundle = some data) (hexact : rule.rounding = .exact) {plan : LogicalPlan}
    {s : NoiseState} {before after : List String} {c : String} {t : PrivacyBudgetTracker}
    (hbilled : billed data.tags plan = before ++ c :: after)
    (hcharged : PrivacyBudgetTracker.chargeAll rule.rounding rule.tenantId data.price before s.budget =
      (t, []))
    (hrefused : t.Refuses rule.rounding rule.tenantId data.price c)
    (hpos : ∀ c' ∈ before, ∃ e, data.price c' = .fin e ∧ 0 < e) :
    rule.RealNoise data plan s := by
  have hstop : rule.Debits data plan s {s with budget := t} before (c :: after) :=
    ⟨hbilled, hcharged, by simpa using hrefused⟩
  have hrejects : ∀ outcome s', rule.rewrite plan s = (outcome, s') → ∃ e, outcome = .error e := by
    intro outcome s' h
    obtain ⟨made, left, hdebits, hok⟩ := rewrite_debits hdata h
    obtain ⟨-, rfl⟩ := hdebits.left_eq hstop
    cases outcome with
    | ok result => exact absurd (hok.mp ⟨result, rfl⟩) (by simp)
    | error e => exact ⟨e, rfl⟩
  refine realNoise_of_positive hdata hexact ?_ ?_ ?_
  · intro s' made left hdebits
    obtain ⟨rfl, -⟩ := hdebits.left_eq hstop
    exact hpos
  · intro result s' h
    obtain ⟨e, he⟩ := hrejects _ _ h
    cases he
  · intro _
    obtain ⟨e, he⟩ := hrejects _ _ (Prod.mk.eta (p := rule.rewrite plan s)).symm
    exact ⟨e, _, Prod.ext he rfl⟩

/-- **The noise of a bundle is real exactly when every epsilon in it has a scale**, or the budget
refuses the query after debits that are all positive. -/
theorem realNoise_iff {rule : DPNoiseRule} {data : DPBundleData}
    (hdata : rule.parseBundle = some data) (hexact : rule.rounding = .exact) (plan : LogicalPlan)
    (s : NoiseState) :
    rule.RealNoise data plan s ↔
      (∀ c config, data.dpColumns.lookup c = some config →
        ∃ e, config.epsilonPerQuery = .fin e ∧ 0 < e ∧ e < 2 * 10 ^ 6) ∨
      ∃ before c after t, billed data.tags plan = before ++ c :: after ∧
        PrivacyBudgetTracker.chargeAll rule.rounding rule.tenantId data.price before s.budget = (t, []) ∧
        t.Refuses rule.rounding rule.tenantId data.price c ∧
        ∀ c' ∈ before, ∃ e, data.price c' = .fin e ∧ 0 < e := by
  simp only [← hasScale_iff]
  constructor
  · intro hreal
    by_cases hscales : ∀ c config, data.dpColumns.lookup c = some config →
        HasScale config.epsilonPerQuery
    · exact .inl hscales
    · -- Some epsilon has no scale, so the query must have been refused.
      push Not at hscales
      obtain ⟨e, s', h⟩ := hreal.rejected hscales
      obtain ⟨made, left, hdebits, hok⟩ := rewrite_debits hdata h
      cases left with
      | nil => exact absurd (hok.mpr rfl) (by simp)
      | cons c after =>
        have hrefused := hdebits.refused c rfl
        have henabled :=
          PrivacyBudgetTracker.chargeAll_enabled rule.rounding rule.tenantId data.price made s.budget
        rw [hdebits.charged, hrefused.1] at henabled
        refine .inr ⟨made, c, after, s'.budget, hdebits.billed_eq, hdebits.charged, hrefused, ?_⟩
        intro c' hc'
        obtain ⟨e, he, hpos, -⟩ := hreal.debited _ _ _ _ h hdebits henabled.symm c' hc'
        exact ⟨e, he, hpos⟩
  · rintro (hscales | ⟨before, c, after, t, hbilled, hcharged, hrefused, hpos⟩)
    · exact realNoise_of_scales hdata hexact plan s hscales
    · exact realNoise_of_refused hdata hexact hbilled hcharged hrefused hpos

/-- The contract that tags `salary`, on arithmetic that does not round. -/
def exactNoise : DPNoiseRule := {payNoise with rounding := .exact}

theorem realNoise_iff_pay :
    exactNoise.RealNoise payData (payApproved doubledSalary) ⟨oneDebit, [], none, false⟩ ↔
      (∀ c config, payData.dpColumns.lookup c = some config →
        ∃ e, config.epsilonPerQuery = .fin e ∧ 0 < e ∧ e < 2 * 10 ^ 6) ∨
      ∃ before c after t, billed payData.tags (payApproved doubledSalary) = before ++ c :: after ∧
        PrivacyBudgetTracker.chargeAll exactNoise.rounding exactNoise.tenantId payData.price before
          oneDebit = (t, []) ∧
        t.Refuses exactNoise.rounding exactNoise.tenantId payData.price c ∧
        ∀ c' ∈ before, ∃ e, payData.price c' = .fin e ∧ 0 < e :=
  realNoise_iff (show exactNoise.parseBundle = some payData from payNoise_parseBundle) rfl
    (payApproved doubledSalary) ⟨oneDebit, [], none, false⟩

/-! ### An epsilon of zero -/

def zeroText : String :=
  "\x7b\"dp_columns\":\x7b\"salary\":\x7b\"epsilon_per_query\":0.0,\"noise_mechanism\":\"laplace\"\x7d\x7d\x7d"

def zeroDocument : Json :=
  .object [("dp_columns", .object [("salary",
    .object [("epsilon_per_query", .number 0), ("noise_mechanism", .string "laplace")])])]

def zeroNoise : DPNoiseRule :=
  ⟨.just zeroText zeroDocument (by decide), ⟨utf8 zeroText, "pay-contract", "acme"⟩, "acme", .exact⟩

def zeroData : DPBundleData := ⟨.ofList [("salary", ⟨.fin 0, "laplace"⟩)]⟩

theorem zeroNoise_parseBundle : zeroNoise.parseBundle = some zeroData := by
  rw [parseBundle, zeroNoise, ContractBundleHandle.document_just]
  show DPBundleData.ofJson zeroDocument = some zeroData
  have hnumber : (Json.number 0).asF64 = some (.fin 0) := by
    rw [Json.asF64, F64.round, if_pos rfl]
    rfl
  have hconfig : DPColumnConfig.ofJson (.object [("epsilon_per_query", .number 0),
      ("noise_mechanism", .string "laplace")]) = some ⟨.fin 0, "laplace"⟩ := by
    simp [DPColumnConfig.ofJson, Json.fits, Json.fieldOr, Json.field, Json.valuesOf, hnumber,
      Json.asString, guard]
  simp [DPBundleData.ofJson, zeroDocument, Json.fits, Json.fieldOr, Json.field, Json.valuesOf,
    Json.asMap, hconfig, guard, zeroData]

/-- `SELECT SUM(salary) FROM employees`, with noise of an infinite scale. -/
theorem zeroNoise_rewrite :
    zeroNoise.rewrite (payApproved (.column ⟨none, "salary"⟩)) ⟨.new, [], none, false⟩ =
      (.ok ⟨.laplaceNoise "salary" "inf" (payApproved (.column ⟨none, "salary"⟩))
        [⟨none, ⟨"sum", .float64, true⟩⟩], true⟩, ⟨.new, [], none, true⟩) := by
  have hscale : formatFixed6 (F64.Rounding.exact.div (.fin 1) (.fin 0)) = "inf" := by decide +kernel
  rw [rewrite, zeroNoise_parseBundle, ← hscale]
  rfl

/-- **An epsilon of zero is not refused**: the noise node gets `inf` for a scale. -/
theorem zero_epsilon_injected :
    ¬ ∀ (rule : DPNoiseRule) data, rule.parseBundle = some data → rule.rounding = .exact →
      ∀ plan s, rule.RealNoise data plan s := by
  intro h
  have hreal := h zeroNoise zeroData zeroNoise_parseBundle rfl
    (payApproved (.column ⟨none, "salary"⟩)) ⟨.new, [], none, false⟩
  have hnone : ¬ HasScale (.fin 0) := by
    rw [hasScale_iff]
    intro ⟨e, he, hpos, _⟩
    exact absurd (F64.fin.inj he) hpos.ne
  obtain ⟨e, s', hrejected⟩ := hreal.rejected ⟨"salary", ⟨.fin 0, "laplace"⟩, rfl, hnone⟩
  rw [zeroNoise_rewrite] at hrejected
  cases (Prod.mk.inj hrejected).1

end DPNoiseRule
end Griot.Logical
