import Griot.Logical.Insertion
import Griot.Logical.RowFilter

/-! What the row filter rule makes of a plan that was checked.

The contract check puts its markers where its own walk comes by, each over one scan. So in
a checked plan there is no marker inside an expression and none below another one, and the
row filter rule meets them all: what it returns is the plan in which every marker, wherever
it is, has the filter on top, and nothing else is different (`row_filter_exact`). -/
namespace Griot.Logical

open Lib Sql

/-- `ext.node.name() == "ContractApproved"` -/
def LogicalPlan.IsApproval (plan : LogicalPlan) : Prop := plan.extensionName = some "ContractApproved"

instance (plan : LogicalPlan) : Decidable plan.IsApproval :=
  inferInstanceAs (Decidable (plan.extensionName = some "ContractApproved"))

/-! ### A filter on every approval -/

section
variable (f : Expr)

/-- The filter on top of the node, if it is an approval. -/
def LogicalPlan.onApproval (plan : LogicalPlan) : LogicalPlan :=
  if plan.IsApproval then .filter f plan else plan

mutual

/-- The expression with the filter on every approval in its plans. -/
def Expr.filterApproved : Expr → Expr
  | .column c => .column c
  | .literal v => .literal v
  | .alias expr name => .alias expr.filterApproved name
  | .binaryExpr left op right => .binaryExpr left.filterApproved op right.filterApproved
  | .cast expr dataType => .cast expr.filterApproved dataType
  | .aggregateFunction func args distinct filter orderBy =>
    .aggregateFunction func (Expr.allFilterApproved args) distinct
      (Expr.optionFilterApproved filter) (Expr.allFilterApproved orderBy)
  | .subquery kind args subquery outer =>
    .subquery kind (Expr.allFilterApproved args) subquery.filterApproved outer
  | .other op args => .other op (Expr.allFilterApproved args)

def Expr.allFilterApproved : List Expr → List Expr
  | [] => []
  | e :: es => e.filterApproved :: Expr.allFilterApproved es

def Expr.optionFilterApproved : Option Expr → Option Expr
  | none => none
  | some e => some e.filterApproved

/-- The plan with every approval node `m` replaced by `Filter(f, m)`. -/
def LogicalPlan.filterApproved : LogicalPlan → LogicalPlan
  | .tableScan tableName schema filters => .tableScan tableName schema (Expr.allFilterApproved filters)
  | .emptyRelation produceOneRow schema => .emptyRelation produceOneRow schema
  | .projection expr input schema =>
    .projection (Expr.allFilterApproved expr) input.filterApproved schema
  | .filter predicate input => .filter predicate.filterApproved input.filterApproved
  | .aggregate groupExpr aggrExpr input schema =>
    .aggregate (Expr.allFilterApproved groupExpr) (Expr.allFilterApproved aggrExpr)
      input.filterApproved schema
  | .contractApproved contractId tenantId input schema =>
    .filter f (.contractApproved contractId tenantId input.filterApproved schema)
  | .laplaceNoise column scaleStr input schema =>
    .laplaceNoise column scaleStr input.filterApproved schema
  | .other kind exprs inputs schema =>
    LogicalPlan.onApproval f (.other kind (Expr.allFilterApproved exprs)
      (LogicalPlan.allFilterApproved inputs) schema)

def LogicalPlan.allFilterApproved : List LogicalPlan → List LogicalPlan
  | [] => []
  | p :: ps => p.filterApproved :: LogicalPlan.allFilterApproved ps

end

end

/-- The filter text for a principal: its own entry, of which `null` is no filter, else the
global one. -/
def RowFilterBundleData.filterText (data : RowFilterBundleData) (principalId : String) :
    Option String :=
  (data.perPrincipalRowFilters.lookup principalId).getD data.rowFilter

/-- **Filtered exactly**: no filter, no change; no translation, no plan; else a filter on
every approval and nothing else. -/
structure FilteredExactly (rule : RowFilterRule) (data : RowFilterBundleData) (plan : LogicalPlan) :
    Prop where
  absent : data.filterText rule.principal.id = none ∨ data.filterText rule.principal.id = some "" →
    rule.rewrite plan = .ok ⟨plan, false⟩
  rejected : ∀ text, data.filterText rule.principal.id = some text → text ≠ "" →
    (∀ expr, rule.parseFilterExpr text ≠ .ok expr) → ∃ e, rule.rewrite plan = .error e
  replaced : ∀ text expr result, data.filterText rule.principal.id = some text → text ≠ "" →
    rule.parseFilterExpr text = .ok expr → rule.rewrite plan = .ok result →
      result.data = plan.filterApproved expr

/-! ### Plans without an approval -/

/-- There is no approval among the nodes. -/
def Unapproved (occurrences : List (Site × LogicalPlan)) : Prop :=
  ∀ o ∈ occurrences, ¬o.2.IsApproval

theorem unapproved_append {os os' : List (Site × LogicalPlan)} :
    Unapproved (os ++ os') ↔ Unapproved os ∧ Unapproved os' := List.forall_mem_append

theorem unapproved_cons {o : Site × LogicalPlan} {os : List (Site × LogicalPlan)} :
    Unapproved (o :: os) ↔ ¬o.2.IsApproval ∧ Unapproved os := List.forall_mem_cons

section
variable (f : Expr)

mutual

theorem Expr.filterApproved_of_unapproved : ∀ e : Expr, Unapproved e.occurrences →
    Expr.filterApproved f e = e
  | .column _, _ => rfl
  | .literal _, _ => rfl
  | .alias expr _, h => by
    rw [Expr.occurrences] at h
    rw [Expr.filterApproved, Expr.filterApproved_of_unapproved expr h]
  | .binaryExpr left _ right, h => by
    rw [Expr.occurrences, unapproved_append] at h
    rw [Expr.filterApproved, Expr.filterApproved_of_unapproved left h.1,
      Expr.filterApproved_of_unapproved right h.2]
  | .cast expr _, h => by
    rw [Expr.occurrences] at h
    rw [Expr.filterApproved, Expr.filterApproved_of_unapproved expr h]
  | .aggregateFunction _ args _ filter orderBy, h => by
    rw [Expr.occurrences, unapproved_append, unapproved_append] at h
    rw [Expr.filterApproved, Expr.allFilterApproved_of_unapproved args h.1.1,
      Expr.optionFilterApproved_of_unapproved filter h.1.2,
      Expr.allFilterApproved_of_unapproved orderBy h.2]
  | .subquery _ args subquery _, h => by
    rw [Expr.occurrences, unapproved_append] at h
    rw [Expr.filterApproved, Expr.allFilterApproved_of_unapproved args h.1,
      LogicalPlan.filterApproved_of_unapproved subquery _ h.2]
  | .other _ args, h => by
    rw [Expr.occurrences] at h
    rw [Expr.filterApproved, Expr.allFilterApproved_of_unapproved args h]

theorem Expr.allFilterApproved_of_unapproved : ∀ es : List Expr,
    Unapproved (Expr.allOccurrences es) → Expr.allFilterApproved f es = es
  | [], _ => rfl
  | e :: es, h => by
    rw [Expr.allOccurrences, unapproved_append] at h
    rw [Expr.allFilterApproved, Expr.filterApproved_of_unapproved e h.1,
      Expr.allFilterApproved_of_unapproved es h.2]

theorem Expr.optionFilterApproved_of_unapproved : ∀ e : Option Expr,
    Unapproved (Expr.optionOccurrences e) → Expr.optionFilterApproved f e = e
  | none, _ => rfl
  | some e, h => by
    rw [Expr.optionFilterApproved, Expr.filterApproved_of_unapproved e h]

/-- Where there is no approval nothing changes. -/
theorem LogicalPlan.filterApproved_of_unapproved : ∀ (plan : LogicalPlan) (site : Site),
    Unapproved (plan.occurrencesAt site) → plan.filterApproved f = plan
  | .tableScan _ _ filters, site, h => by
    rw [LogicalPlan.occurrencesAt, unapproved_cons] at h
    rw [LogicalPlan.filterApproved, Expr.allFilterApproved_of_unapproved filters h.2]
  | .emptyRelation _ _, _, _ => rfl
  | .projection expr input _, site, h => by
    rw [LogicalPlan.occurrencesAt, unapproved_cons, unapproved_append] at h
    rw [LogicalPlan.filterApproved, Expr.allFilterApproved_of_unapproved expr h.2.1,
      LogicalPlan.filterApproved_of_unapproved input _ h.2.2]
  | .filter predicate input, site, h => by
    rw [LogicalPlan.occurrencesAt, unapproved_cons, unapproved_append] at h
    rw [LogicalPlan.filterApproved, Expr.filterApproved_of_unapproved predicate h.2.1,
      LogicalPlan.filterApproved_of_unapproved input _ h.2.2]
  | .aggregate groupExpr aggrExpr input _, site, h => by
    rw [LogicalPlan.occurrencesAt, unapproved_cons, unapproved_append, unapproved_append] at h
    rw [LogicalPlan.filterApproved, Expr.allFilterApproved_of_unapproved groupExpr h.2.1.1,
      Expr.allFilterApproved_of_unapproved aggrExpr h.2.1.2,
      LogicalPlan.filterApproved_of_unapproved input _ h.2.2]
  | .contractApproved _ _ _ _, site, h => by
    rw [LogicalPlan.occurrencesAt, unapproved_cons] at h
    exact absurd rfl h.1
  | .laplaceNoise _ _ input _, site, h => by
    rw [LogicalPlan.occurrencesAt, unapproved_cons] at h
    rw [LogicalPlan.filterApproved, LogicalPlan.filterApproved_of_unapproved input _ h.2]
  | .other kind exprs inputs schema, site, h => by
    rw [LogicalPlan.occurrencesAt, unapproved_cons, unapproved_append] at h
    rw [LogicalPlan.filterApproved, Expr.allFilterApproved_of_unapproved exprs h.2.1,
      LogicalPlan.allFilterApproved_of_unapproved inputs _ h.2.2, LogicalPlan.onApproval, if_neg h.1]

theorem LogicalPlan.allFilterApproved_of_unapproved : ∀ (ps : List LogicalPlan) (site : Site),
    Unapproved (LogicalPlan.allOccurrencesAt site ps) → LogicalPlan.allFilterApproved f ps = ps
  | [], _, _ => rfl
  | p :: ps, site, h => by
    rw [LogicalPlan.allOccurrencesAt, unapproved_append] at h
    rw [LogicalPlan.allFilterApproved, LogicalPlan.filterApproved_of_unapproved p _ h.1,
      LogicalPlan.allFilterApproved_of_unapproved ps _ h.2]

end

theorem LogicalPlan.allFilterApproved_eq (ps : List LogicalPlan) :
    LogicalPlan.allFilterApproved f ps = ps.map (LogicalPlan.filterApproved f) := by
  induction ps with
  | nil => rfl
  | cons p ps ih => rw [LogicalPlan.allFilterApproved, ih, List.map_cons]

end

/-! ### Checked plans -/

/-- The approvals are where a walk comes by: none in an expression, none below another. -/
inductive Fronted : LogicalPlan → Prop
  | approval {plan : LogicalPlan} (site : Site) : plan.IsApproval →
    (∀ e ∈ plan.exprs, Unapproved e.occurrences) →
    (∀ p ∈ plan.inputs, Unapproved (p.occurrencesAt site)) → Fronted plan
  | node {plan : LogicalPlan} : ¬plan.IsApproval → (∀ e ∈ plan.exprs, Unapproved e.occurrences) →
    (∀ p ∈ plan.inputs, Fronted p) → Fronted plan

theorem unapproved_flatMap {α : Type} {l : List α} {g : α → List (Site × LogicalPlan)} :
    Unapproved (l.flatMap g) ↔ ∀ a ∈ l, Unapproved (g a) := by
  constructor
  · exact fun h a ha o ho => h o (List.mem_flatMap.mpr ⟨a, ha, ho⟩)
  · intro h o ho
    obtain ⟨a, ha, ho⟩ := List.mem_flatMap.mp ho
    exact h a ha o ho

/-- A node, its expressions and its inputs. -/
theorem unapproved_iff (plan : LogicalPlan) (site : Site) :
    Unapproved (plan.occurrencesAt site) ↔ ¬plan.IsApproval ∧
      (∀ e ∈ plan.exprs, Unapproved e.occurrences) ∧
      ∀ p ∈ plan.inputs, Unapproved (p.occurrencesAt (site.under plan)) := by
  rw [LogicalPlan.occurrencesAt_eq, unapproved_cons, unapproved_append, unapproved_flatMap,
    unapproved_flatMap]

theorem isApproval_withInputs (plan : LogicalPlan) (kids : List LogicalPlan) :
    (plan.withInputs kids).IsApproval ↔ plan.IsApproval := by
  rw [LogicalPlan.IsApproval, LogicalPlan.extensionName_withInputs]
  exact Iff.rfl

/-- **A checked plan is fronted**, if there was no approval in the plan before. -/
theorem ContractCheckRule.fronted_of_rewrite {rule : ContractCheckRule} {plan : LogicalPlan}
    {s s' : CheckState} {result : Transformed} (h : rule.rewrite plan s = (.ok result, s'))
    (hplan : Unapproved plan.occurrences) : Fronted result.data := by
  rw [rewrite] at h
  cases hrun : transformDown rule.visit plan {s with changed := false} with
  | mk outcome after =>
    rw [hrun] at h
    cases outcome with
    | error e => cases (Prod.mk.inj h).1
    | ok data =>
      obtain ⟨hdata, -⟩ := Prod.mk.inj h
      obtain rfl := Except.ok.inj hdata
      refine transformDown_relates (Q := fun p p' => ∀ site, Unapproved (p.occurrencesAt site) →
        Fronted p') ?_ ?_ hrun .root hplan
      · intro p t node t' hvisit site hunapproved
        cases hscan : p.isTableScan with
        | false => simp [rule.visit_of_not_scan hscan t] at hvisit
        | true =>
          obtain ⟨tableName, t'', hv, -⟩ := rule.visit_of_scan hscan t
          obtain ⟨rfl, -⟩ : (rule.evaluateScan p tableName).1 = node ∧ t'' = t' := by
            rw [hv] at hvisit
            simpa using hvisit
          obtain ⟨-, hnode, -⟩ | ⟨-, hnode, -⟩ := rule.evaluateScan_cases p tableName
          · rw [hnode]
            refine .approval site rfl (fun e he => absurd he List.not_mem_nil) fun q hq => ?_
            obtain rfl := List.mem_singleton.mp hq
            exact hunapproved
          · rw [hnode]
            exact .node (by simp [emptyRelationFromSchema, LogicalPlan.IsApproval,
              LogicalPlan.extensionName]) (fun e he => absurd he List.not_mem_nil)
              fun q hq => absurd hq List.not_mem_nil
      · intro p t node t' kids hvisit hkids site hunapproved
        cases hscan : p.isTableScan with
        | true =>
          obtain ⟨tableName, t'', hv, -⟩ := rule.visit_of_scan hscan t
          simp [hv] at hvisit
        | false =>
          obtain ⟨rfl, -⟩ : p = node ∧ t = t' := by
            simpa [rule.visit_of_not_scan hscan t] using hvisit
          obtain ⟨hself, hexprs, hinputs⟩ := (unapproved_iff p site).mp hunapproved
          refine .node (by rwa [isApproval_withInputs]) (by rwa [LogicalPlan.exprs_withInputs]) ?_
          rw [p.inputs_withInputs hkids.length_eq.symm]
          intro kid hkid
          obtain ⟨q, hq, hfronted⟩ := exists_of_forall₂ hkids.flip hkid
          exact hfronted (site.under p) (hinputs q hq)

/-! ### The walk of the rule -/

section
variable {f : Expr}

theorem allFilterApproved_of_exprs (es : List Expr) (h : ∀ e ∈ es, Unapproved e.occurrences) :
    Expr.allFilterApproved f es = es := by
  refine Expr.allFilterApproved_of_unapproved f es ?_
  rw [Expr.allOccurrences_eq]
  exact unapproved_flatMap.mpr h

/-- An approval of which nothing else is an approval gets the filter on top. -/
theorem filterApproved_approval {plan : LogicalPlan} {site : Site} (hself : plan.IsApproval)
    (hexprs : ∀ e ∈ plan.exprs, Unapproved e.occurrences)
    (hinputs : ∀ p ∈ plan.inputs, Unapproved (p.occurrencesAt site)) :
    plan.filterApproved f = .filter f plan := by
  cases plan with
  | contractApproved contractId tenantId input schema =>
    rw [LogicalPlan.filterApproved, LogicalPlan.filterApproved_of_unapproved f input site
      (hinputs input (List.mem_singleton_self input))]
  | other kind exprs inputs schema =>
    have hall : LogicalPlan.allFilterApproved f inputs = inputs := by
      refine LogicalPlan.allFilterApproved_of_unapproved f inputs site ?_
      rw [LogicalPlan.allOccurrencesAt_eq]
      exact unapproved_flatMap.mpr hinputs
    rw [LogicalPlan.filterApproved, allFilterApproved_of_exprs exprs hexprs, hall,
      LogicalPlan.onApproval, if_pos hself]
  | _ => exact absurd hself (by simp [LogicalPlan.IsApproval, LogicalPlan.extensionName])

/-- Any other node keeps its expressions. -/
theorem filterApproved_node {plan : LogicalPlan} (hself : ¬plan.IsApproval)
    (hexprs : ∀ e ∈ plan.exprs, Unapproved e.occurrences) :
    plan.filterApproved f = plan.withInputs (plan.inputs.map (LogicalPlan.filterApproved f)) := by
  cases plan with
  | tableScan tableName schema filters =>
    rw [LogicalPlan.filterApproved, allFilterApproved_of_exprs filters hexprs]
    rfl
  | emptyRelation => rfl
  | projection expr input schema =>
    rw [LogicalPlan.filterApproved, allFilterApproved_of_exprs expr hexprs]
    rfl
  | filter predicate input =>
    rw [LogicalPlan.filterApproved, Expr.filterApproved_of_unapproved f predicate
      (hexprs predicate (List.mem_singleton_self predicate))]
    rfl
  | aggregate groupExpr aggrExpr input schema =>
    have happend : ∀ e ∈ groupExpr ++ aggrExpr, Unapproved e.occurrences := hexprs
    rw [List.forall_mem_append] at happend
    rw [LogicalPlan.filterApproved, allFilterApproved_of_exprs groupExpr happend.1,
      allFilterApproved_of_exprs aggrExpr happend.2]
    rfl
  | contractApproved => exact absurd rfl hself
  | laplaceNoise => rfl
  | other kind exprs inputs schema =>
    have hkept : ¬(LogicalPlan.other kind exprs (inputs.map (LogicalPlan.filterApproved f))
        schema).IsApproval := by
      rwa [← isApproval_withInputs (.other kind exprs inputs schema)] at hself
    rw [LogicalPlan.filterApproved, allFilterApproved_of_exprs exprs hexprs,
      LogicalPlan.allFilterApproved_eq, LogicalPlan.onApproval, if_neg hkept]
    rfl

/-- **The walk puts the filter on every approval** of a fronted plan. -/
theorem RowFilterRule.walk_eq {rule : RowFilterRule} {plan plan' : LogicalPlan} {changed changed' : Bool}
    (hrun : transformDown (rule.visit f) plan changed = (.ok plan', changed'))
    (hfronted : Fronted plan) : plan' = plan.filterApproved f := by
  refine transformDown_relates (Q := fun p p' => Fronted p → p' = p.filterApproved f) ?_ ?_ hrun
    hfronted
  · intro p t node t' hvisit hp
    rw [visit] at hvisit
    split at hvisit
    · rename_i hself
      split at hvisit
      · cases (Prod.mk.inj hvisit).1
      · obtain rfl := Visit.jump.inj (Except.ok.inj (Prod.mk.inj hvisit).1)
        cases hp with
        | approval site _ hexprs hinputs => exact (filterApproved_approval hself hexprs hinputs).symm
        | node hnot => exact absurd hself hnot
    · cases Except.ok.inj (Prod.mk.inj hvisit).1
  · intro p t node t' kids hvisit hkids hp
    rw [visit] at hvisit
    split at hvisit
    · split at hvisit
      · cases (Prod.mk.inj hvisit).1
      · cases Except.ok.inj (Prod.mk.inj hvisit).1
    · rename_i hself
      obtain rfl := Visit.descend.inj (Except.ok.inj (Prod.mk.inj hvisit).1)
      cases hp with
      | approval site h => exact absurd h hself
      | node _ hexprs hinputs =>
        rw [filterApproved_node hself hexprs]
        congr 1
        generalize p.inputs = ps at hkids hinputs
        induction hkids with
        | nil => rfl
        | cons hhead _ ih =>
          obtain ⟨hq, hqs⟩ := List.forall_mem_cons.mp hinputs
          rw [List.map_cons, hhead hq, ih hqs]

end

theorem RowFilterRule.effectiveRowFilter_eq (rule : RowFilterRule) (data : RowFilterBundleData) :
    rule.effectiveRowFilter data = data.filterText rule.principal.id := by
  rw [effectiveRowFilter, RowFilterBundleData.filterText]
  cases data.perPrincipalRowFilters.lookup rule.principal.id <;> rfl

namespace RowFilterRule
variable {rule : RowFilterRule} {data : RowFilterBundleData} {text : String} {plan : LogicalPlan}

/-- No text, or an empty one, is no filter. -/
theorem inject_rests (h : ¬ ∃ text, rule.effectiveRowFilter data = some text ∧ text ≠ "") :
    rule.inject data plan = .ok ⟨plan, false⟩ := by
  rw [inject]
  split
  · rfl
  · rfl
  · rename_i text hne htext
    exact absurd ⟨text, htext, hne⟩ h

/-- A text that is no filter is the rule's error. -/
theorem inject_error (htext : rule.effectiveRowFilter data = some text) (hne : text ≠ "")
    {e : DataFusionError} (hexpr : rule.parseFilterExpr text = .error e) :
    rule.inject data plan = .error e := by
  rw [inject, htext]
  split
  · rename_i hnone
    cases hnone
  · rename_i hempty
    exact absurd (Option.some.inj hempty) hne
  · rename_i text' hsome
    obtain rfl := Option.some.inj hsome
    rw [hexpr]
    rfl

/-- A filter is walked with. -/
theorem inject_walks (htext : rule.effectiveRowFilter data = some text) (hne : text ≠ "")
    {expr : Expr} (hexpr : rule.parseFilterExpr text = .ok expr) {result : Transformed}
    (h : rule.inject data plan = .ok result) :
    ∃ changed, transformDown (rule.visit expr) plan false = (.ok result.data, changed) := by
  rw [inject, htext] at h
  split at h
  · rename_i hnone
    cases hnone
  · rename_i hempty
    exact absurd (Option.some.inj hempty) hne
  · rename_i text' hsome
    obtain rfl := Option.some.inj hsome
    rw [hexpr] at h
    obtain ⟨expr', hexpr', h⟩ := bind_eq_ok.mp h
    obtain rfl := Except.ok.inj hexpr'
    cases hrun : transformDown (rule.visit expr) plan false with
    | mk outcome changed =>
      cases outcome with
      | error e =>
        rw [hrun] at h
        cases h
      | ok newPlan =>
        rw [hrun] at h
        obtain rfl := Except.ok.inj h
        exact ⟨changed, rfl⟩

end RowFilterRule

/-- **The row filter rule is exact** on checked plans. -/
theorem row_filter_exact {check : ContractCheckRule} {plan : LogicalPlan} {s s' : CheckState}
    {checked : Transformed} {rule : RowFilterRule} {data : RowFilterBundleData}
    (hplan : Unapproved plan.occurrences) (hcheck : check.rewrite plan s = (.ok checked, s'))
    (hparse : rule.parseBundle = some data) : FilteredExactly rule data checked.data := by
  have hfronted := ContractCheckRule.fronted_of_rewrite hcheck hplan
  have hrewrite : rule.rewrite checked.data = rule.inject data checked.data := by
    rw [RowFilterRule.rewrite, hparse]
  have htexts := rule.effectiveRowFilter_eq data
  refine ⟨?_, ?_, ?_⟩
  · intro habsent
    refine hrewrite.trans (RowFilterRule.inject_rests fun h => ?_)
    obtain ⟨text, htext, hne⟩ := h
    obtain hnone | hempty := habsent
    · cases hnone.symm.trans (htexts.symm.trans htext)
    · exact hne (Option.some.inj (hempty.symm.trans (htexts.symm.trans htext))).symm
  · intro text htext hne hnot
    cases hexpr : rule.parseFilterExpr text with
    | ok expr => exact absurd hexpr (hnot expr)
    | error e => exact ⟨e, hrewrite.trans (RowFilterRule.inject_error (htexts.trans htext) hne hexpr)⟩
  · intro text expr result htext hne hexpr hresult
    obtain ⟨changed, hrun⟩ :=
      RowFilterRule.inject_walks (htexts.trans htext) hne hexpr (hrewrite.symm.trans hresult)
    exact RowFilterRule.walk_eq hrun hfronted

/-- A bundle with the row filter `TRUE`, which its engine parses. -/
def trueFilter : RowFilterRule where
  serde := .just "\x7b\"row_filter\":\"TRUE\"\x7d" (.object [("row_filter", .string "TRUE")])
    (by decide)
  engine := {
    parseSql := fun text =>
      if text = "SELECT 1 WHERE TRUE" then
        .ok [.query (.select (some (.value (.boolean true))))]
      else .error "sql parser error"
    col := fun name => ⟨none, name⟩
    debug := fun _ => "" }
  planner := ⟨fun _ _ => none, fun _ _ => .ok [], fun _ => ""⟩
  bundle := ⟨utf8 "\x7b\"row_filter\":\"TRUE\"\x7d", "orders-contract", "acme"⟩
  principal := ⟨"user:alice", "analytics", "gold", "internal"⟩

theorem trueFilter_parseBundle : trueFilter.parseBundle = some ⟨some "TRUE", .empty⟩ := by
  have hdoc : trueFilter.bundle.document trueFilter.serde = _ :=
    ContractBundleHandle.document_just _ _ (by decide) _ _
  rw [RowFilterRule.parseBundle, hdoc]
  rfl

/-- The check by the same bundle, which asks nothing of a principal. -/
def trueCheck : ContractCheckRule := ⟨trueFilter.serde, trueFilter.bundle, trueFilter.principal⟩

theorem row_filter_exact_orders : ∃ checked s',
    trueCheck.rewrite (.tableScan "orders" [] []) ⟨[], [], ∅, false⟩ = (.ok checked, s') ∧
      FilteredExactly trueFilter ⟨some "TRUE", .empty⟩ checked.data := by
  obtain ⟨checked, s', hcheck, -⟩ :=
    trueCheck.rewrite_ok (.tableScan "orders" [] []) ⟨[], [], ∅, false⟩
  refine ⟨checked, s', hcheck, row_filter_exact ?_ hcheck trueFilter_parseBundle⟩
  intro o ho
  obtain rfl := List.mem_singleton.mp ho
  simp [LogicalPlan.IsApproval, LogicalPlan.extensionName]

end Griot.Logical
