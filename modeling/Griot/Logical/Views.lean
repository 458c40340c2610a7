import Griot.Logical.Fixpoint
import Griot.Logical.MaskFlow

/-! What a query is answered over.

A plan means what its nodes make of what their inputs mean, and a scan what the database has
(`Semantics`). To this the contract check and the row filter only change what is found by the
scans: a query is answered as if every table were the view that the contract gives of it
(`pipeline_view`). Masks and noise come above the views. So what the views do not show has no
bearing on the answer, whatever the query is (`pipeline_hides`). -/
namespace Griot.Logical

open Lib

/-! ### What plans mean -/

/-- No plan in the expression scans a table. -/
def Expr.ScanFree (e : Expr) : Prop := ∀ o ∈ e.occurrences, o.2.isTableScan = false

/-- Outside its inputs the node scans no table. -/
def LogicalPlan.IsPlain (plan : LogicalPlan) : Prop := ∀ e ∈ plan.exprs, e.ScanFree

/-- What plans mean over databases. The plans in expressions are up to the node. -/
structure Semantics (δ ρ : Type) where
  scan : δ → String → DFSchema → List Expr → ρ
  node : δ → LogicalPlan → List ρ → ρ
  /-- Of its inputs a node sees what they mean. -/
  inputs : ∀ d plan kids rs, node d (plan.withInputs kids) rs = node d plan rs
  /-- Only scans look into the database. -/
  plain : ∀ d d' plan rs, plan.IsPlain → node d plan rs = node d' plan rs
  /-- A marker shows what it is put on. -/
  approval : ∀ d contractId tenantId input schema r,
    node d (.contractApproved contractId tenantId input schema) [r] = r

namespace Semantics
variable {δ ρ : Type} (sem : Semantics δ ρ)

/-- The same nodes over other tables. -/
def withScan (scan : δ → String → DFSchema → List Expr → ρ) : Semantics δ ρ := {sem with scan}

section
variable (d : δ)

def meaning : LogicalPlan → ρ
  | .tableScan tableName schema filters => sem.scan d tableName schema filters
  | .emptyRelation produceOneRow schema => sem.node d (.emptyRelation produceOneRow schema) []
  | .projection expr input schema => sem.node d (.projection expr input schema) [meaning input]
  | .filter predicate input => sem.node d (.filter predicate input) [meaning input]
  | .aggregate groupExpr aggrExpr input schema =>
    sem.node d (.aggregate groupExpr aggrExpr input schema) [meaning input]
  | .contractApproved contractId tenantId input schema =>
    sem.node d (.contractApproved contractId tenantId input schema) [meaning input]
  | .laplaceNoise column scaleStr input schema =>
    sem.node d (.laplaceNoise column scaleStr input schema) [meaning input]
  | .other kind exprs inputs schema => sem.node d (.other kind exprs inputs schema) (meanings inputs)
where
  meanings : List LogicalPlan → List ρ
    | [] => []
    | p :: ps => meaning p :: meanings ps

theorem meanings_eq (ps : List LogicalPlan) : meaning.meanings sem d ps = ps.map (sem.meaning d) := by
  induction ps with
  | nil => rfl
  | cons p ps ih => rw [meaning.meanings, ih, List.map_cons]

theorem meaning_node {plan : LogicalPlan} (h : plan.isTableScan = false) :
    sem.meaning d plan = sem.node d plan (plan.inputs.map (sem.meaning d)) := by
  cases plan with
  | tableScan => cases h
  | other kind exprs ps schema => rw [meaning, meanings_eq, LogicalPlan.inputs]
  | _ => rfl

/-- A node over other inputs. -/
theorem meaning_withInputs {plan : LogicalPlan} (h : plan.isTableScan = false)
    {kids : List LogicalPlan} (hkids : kids.length = plan.inputs.length) :
    sem.meaning d (plan.withInputs kids) = sem.node d plan (kids.map (sem.meaning d)) := by
  rw [meaning_node sem d (by rw [LogicalPlan.isTableScan_withInputs, h]),
    plan.inputs_withInputs hkids, sem.inputs]

end
end Semantics

/-- The inputs that were put in last are there. -/
theorem LogicalPlan.withInputs_twice (plan : LogicalPlan) {kids : List LogicalPlan}
    (hkids : kids.length = plan.inputs.length) {kids' : List LogicalPlan}
    (hkids' : kids'.length = kids.length) :
    (plan.withInputs kids).withInputs kids' = plan.withInputs kids' := by
  cases plan with
  | other => rfl
  | tableScan | emptyRelation => rfl
  | _ =>
    obtain ⟨kid, rfl⟩ := List.length_eq_one_iff.mp hkids
    obtain ⟨kid', rfl⟩ := List.length_eq_one_iff.mp hkids'
    rfl

theorem ContractCheckRule.rewrite_walk {rule : ContractCheckRule} {plan : LogicalPlan} {s s' : CheckState}
    {checked : Transformed} (h : rule.rewrite plan s = (.ok checked, s')) :
    ∃ t, transformDown rule.visit plan {s with changed := false} = (.ok checked.data, t) := by
  rw [rewrite] at h
  cases hrun : transformDown rule.visit plan {s with changed := false} with
  | mk outcome t =>
    rw [hrun] at h
    cases outcome with
    | error e => cases (Prod.mk.inj h).1
    | ok data =>
      obtain rfl := Except.ok.inj (Prod.mk.inj h).1
      exact ⟨t, rfl⟩

/-! ### Views -/

/-- The filter in force, if there is one. -/
def RowFilterRule.filter? (rule : RowFilterRule) : Option Expr := do
  let data ← rule.parseBundle
  let text ← data.filterText rule.principal.id
  if text = "" then none else (rule.parseFilterExpr text).toOption

/-- What the rule makes of a checked plan. -/
def RowFilterRule.restrict (rule : RowFilterRule) (plan : LogicalPlan) : LogicalPlan :=
  rule.filter?.elim plan (plan.filterApproved ·)

namespace PipelineConfig
variable {δ ρ : Type} (config : PipelineConfig) (sem : Semantics δ ρ)

open Classical in
/-- The view that the contract gives of a table: the rows on which the filter is true, or nothing. -/
noncomputable def view (d : δ) (tableName : String) (schema : DFSchema) (filters : List Expr) : ρ :=
  if config.contractCheck.Approves then
    config.rowFilter.filter?.elim (sem.scan d tableName schema filters) fun f =>
      sem.node d (.filter f (.tableScan tableName schema filters))
        [sem.scan d tableName schema filters]
  else sem.node d (ContractCheckRule.emptyRelationFromSchema schema) []

end PipelineConfig

theorem RowFilterRule.rewrite_checked {rule : RowFilterRule} {check : ContractCheckRule}
    {plan : LogicalPlan} {s s' : CheckState} {checked filtered : Transformed}
    (hplan : Unapproved plan.occurrences) (hcheck : check.rewrite plan s = (.ok checked, s'))
    (hfilter : rule.rewrite checked.data = .ok filtered) :
    filtered.data = rule.restrict checked.data := by
  rw [restrict, filter?]
  cases hparse : rule.parseBundle with
  | none =>
    rw [rewrite, hparse] at hfilter
    obtain rfl := Except.ok.inj hfilter
    rfl
  | some data =>
    have hexact := row_filter_exact hplan hcheck hparse
    simp only [Option.bind_eq_bind, Option.bind_some]
    cases htext : data.filterText rule.principal.id with
    | none =>
      obtain rfl := Except.ok.inj (hfilter.symm.trans (hexact.absent (.inl htext)))
      rfl
    | some text =>
      by_cases hne : text = ""
      · subst hne
        obtain rfl := Except.ok.inj (hfilter.symm.trans (hexact.absent (.inr htext)))
        rfl
      · simp only [Option.bind_some, if_neg hne]
        cases hexpr : rule.parseFilterExpr text with
        | error e =>
          obtain ⟨e', he'⟩ := hexact.rejected text htext hne (by simp [hexpr])
          cases hfilter.symm.trans he'
        | ok f => exact hexact.replaced text f filtered htext hne hexpr hfilter

section View
variable {δ ρ : Type} {config : PipelineConfig} {sem : Semantics δ ρ} {d : δ}

/-- What a node is restricted to, unless it is an approval. -/
theorem restrict_node {rule : RowFilterRule} {plan : LogicalPlan} (hself : ¬plan.IsApproval)
    (hexprs : ∀ e ∈ plan.exprs, Unapproved e.occurrences) :
    rule.restrict plan = plan.withInputs (plan.inputs.map rule.restrict) := by
  cases hfilter : rule.filter? with
  | none =>
    have hid : rule.restrict = id := funext fun p => by
      rw [RowFilterRule.restrict, hfilter]
      rfl
    rw [hid, List.map_id, plan.withInputs_inputs]
    rfl
  | some f =>
    have hall : rule.restrict = LogicalPlan.filterApproved f := funext fun p => by
      rw [RowFilterRule.restrict, hfilter]
      rfl
    rw [hall, filterApproved_node hself hexprs]

/-- What stands for a scan that was checked and filtered. -/
theorem restrict_scan (config : PipelineConfig) {tableName : String} {schema : DFSchema}
    {filters : List Expr} {site : Site}
    {scan : LogicalPlan} (hscan : scan = .tableScan tableName schema filters)
    (hplan : Unapproved (scan.occurrencesAt site)) :
    (config.contractCheck.Approves ∧ ∃ marked, marked = .contractApproved
        config.bundle.contractId config.bundle.tenantId scan schema ∧
      config.rowFilter.restrict (config.contractCheck.evaluateScan scan tableName).1 =
        config.rowFilter.filter?.elim marked (.filter · marked)) ∨
    ¬config.contractCheck.Approves ∧
      config.rowFilter.restrict (config.contractCheck.evaluateScan scan tableName).1 =
        ContractCheckRule.emptyRelationFromSchema schema := by
  subst hscan
  obtain ⟨happroves, hnode, -⟩ | ⟨hdenies, hnode, -⟩ :=
    config.contractCheck.evaluateScan_cases (.tableScan tableName schema filters) tableName
  · refine .inl ⟨happroves, _, rfl, ?_⟩
    rw [hnode, RowFilterRule.restrict]
    cases config.rowFilter.filter? with
    | none => rfl
    | some f =>
      have hinputs : ∀ p ∈ [LogicalPlan.tableScan tableName schema filters],
          Unapproved (p.occurrencesAt site) := List.forall_mem_singleton.mpr hplan
      exact filterApproved_approval rfl (fun e he => absurd he List.not_mem_nil) hinputs
  · refine .inr ⟨hdenies, ?_⟩
    rw [hnode, RowFilterRule.restrict]
    cases config.rowFilter.filter? <;> rfl

/-- It means the view. -/
theorem meaning_restrict_scan {tableName : String} {schema : DFSchema} {filters : List Expr}
    {site : Site}
    (hplan : Unapproved ((LogicalPlan.tableScan tableName schema filters).occurrencesAt site)) :
    sem.meaning d (config.rowFilter.restrict
      (config.contractCheck.evaluateScan (.tableScan tableName schema filters) tableName).1) =
        config.view sem d tableName schema filters := by
  rw [PipelineConfig.view]
  obtain ⟨happroves, marked, rfl, hrestrict⟩ | ⟨hdenies, hrestrict⟩ :=
    restrict_scan config rfl hplan
  · rw [hrestrict, if_pos happroves]
    cases config.rowFilter.filter? with
    | none => exact sem.approval ..
    | some f =>
      rw [Option.elim_some, Option.elim_some, Semantics.meaning, Semantics.meaning, sem.approval,
        Semantics.meaning]
      exact sem.inputs d (.filter f (.tableScan tableName schema filters)) [_] _
  · rw [hrestrict, if_neg hdenies]
    rfl

/-- A walk of the check, then the filter, node by node. -/
theorem meaning_restrict_walk {plan plan' : LogicalPlan} {s s' : CheckState} {site : Site}
    (hrun : transformDown config.contractCheck.visit plan s = (.ok plan', s'))
    (hplan : Unapproved (plan.occurrencesAt site)) :
    sem.meaning d (config.rowFilter.restrict plan') =
      (sem.withScan (config.view sem)).meaning d plan := by
  refine transformDown_relates (Q := fun p p' => ∀ site, Unapproved (p.occurrencesAt site) →
    sem.meaning d (config.rowFilter.restrict p') = (sem.withScan (config.view sem)).meaning d p)
    ?_ ?_ hrun site hplan
  · intro p t node t' hvisit site hp
    cases p with
    | tableScan tableName schema filters =>
      obtain rfl := Visit.jump.inj (Except.ok.inj (Prod.mk.inj hvisit).1)
      exact meaning_restrict_scan hp
    | _ => cases Except.ok.inj (Prod.mk.inj hvisit).1
  · intro p t node t' kids hvisit hkids site hp
    obtain ⟨-, tableName, hjump⟩ | ⟨hscan, hdescend⟩ := config.contractCheck.visit_cases hvisit
    · cases hjump
    · obtain rfl := Visit.descend.inj hdescend
      obtain ⟨hself, hexprs, hinputs⟩ := (unapproved_iff node site).mp hp
      -- The inputs, one by one.
      have hmeanings : kids.map (sem.meaning d ∘ config.rowFilter.restrict) =
          node.inputs.map ((sem.withScan (config.view sem)).meaning d) := by
        generalize node.inputs = ps at hkids hinputs
        induction hkids with
        | nil => rfl
        | cons hhead _ ih =>
          obtain ⟨hq, hqs⟩ := List.forall_mem_cons.mp hinputs
          rw [List.map_cons, List.map_cons, ih hqs, Function.comp, hhead _ hq]
      have hlength := hkids.length_eq.symm
      rw [restrict_node (by rwa [isApproval_withInputs]) (by rwa [LogicalPlan.exprs_withInputs]),
        node.inputs_withInputs hlength, node.withInputs_twice hlength (List.length_map _),
        sem.meaning_withInputs d hscan (by rw [List.length_map, hlength]),
        (sem.withScan (config.view sem)).meaning_node d hscan, List.map_map, hmeanings]
      rfl

/-- **A query is answered over the views** once it is checked and filtered. -/
theorem pipeline_view {plan : LogicalPlan} {s s' : CheckState} {checked filtered : Transformed}
    (hplan : Unapproved plan.occurrences)
    (hcheck : config.contractCheck.rewrite plan s = (.ok checked, s'))
    (hfilter : config.rowFilter.rewrite checked.data = .ok filtered) (sem : Semantics δ ρ) (d : δ) :
    sem.meaning d filtered.data = (sem.withScan (config.view sem)).meaning d plan := by
  obtain ⟨t, hrun⟩ := ContractCheckRule.rewrite_walk hcheck
  rw [RowFilterRule.rewrite_checked hplan hcheck hfilter]
  exact meaning_restrict_walk hrun hplan

end View

/-! ### What the views do not show -/

/-- The node is none of those that the masks or the noise look at. -/
def LogicalPlan.IsQuiet : LogicalPlan → Prop
  | .projection .. => False
  | .aggregate .. => False
  | _ => True

/-- The plan is built by plain nodes on plans of quiet ones, which mean the same over both
databases. -/
inductive Settled {δ ρ : Type} (sem : Semantics δ ρ) (d d' : δ) : LogicalPlan → Prop
  | view {plan : LogicalPlan} : (∀ q, Within q plan → q.IsQuiet) →
    sem.meaning d plan = sem.meaning d' plan → Settled sem d d' plan
  | node {plan : LogicalPlan} : plan.isTableScan = false → plan.IsPlain →
    (∀ p ∈ plan.inputs, Settled sem d d' p) → Settled sem d d' plan

section Settled
variable {δ ρ : Type} {sem : Semantics δ ρ} {d d' : δ}

theorem Settled.meaning_eq {plan : LogicalPlan} (h : Settled sem d d' plan) :
    sem.meaning d plan = sem.meaning d' plan := by
  induction h with
  | view _ hmeaning => exact hmeaning
  | node hscan hplain _ ih =>
    rw [sem.meaning_node d hscan, sem.meaning_node d' hscan, List.map_congr_left ih,
      sem.plain d d' _ _ hplain]

/-- A walk that lets quiet nodes be and puts plain nodes for plain ones. -/
theorem Settled.walk {σ ε : Type} {visit : Visitor σ ε}
    (hquiet : ∀ p s, p.IsQuiet → visit p s = (.ok (.descend p), s))
    (hjump : ∀ p s node s', visit p s = (.ok (.jump node), s') → Settled sem d d' p →
      Settled sem d d' node)
    (hdescend : ∀ p s node s', visit p s = (.ok (.descend node), s') →
      node.isTableScan = p.isTableScan ∧ node.inputs.length = p.inputs.length ∧
        (p.IsPlain → node.IsPlain))
    {plan plan' : LogicalPlan} {s s' : σ} (hrun : transformDown visit plan s = (.ok plan', s'))
    (h : Settled sem d d' plan) : Settled sem d d' plan' := by
  refine (transformDown_relates (Q := fun p p' => ((∀ q, Within q p → q.IsQuiet) → p' = p) ∧
    (Settled sem d d' p → Settled sem d d' p')) ?_ ?_ hrun).2 h
  · intro p s node s' hvisit
    refine ⟨fun hall => ?_, hjump p s node s' hvisit⟩
    rw [hquiet p s (hall p .root)] at hvisit
    cases Except.ok.inj (Prod.mk.inj hvisit).1
  · intro p s node s' kids hvisit hkids
    have hsame : (∀ q, Within q p → q.IsQuiet) → node.withInputs kids = p := by
      intro hall
      rw [hquiet p s (hall p .root)] at hvisit
      obtain rfl := Visit.descend.inj (Except.ok.inj (Prod.mk.inj hvisit).1)
      have hinputs : ∀ q ∈ p.inputs, ∀ q', Within q' q → q'.IsQuiet := fun q hq q' hq' =>
        hall q' (.input hq hq')
      have hkept : kids = p.inputs := by
        generalize p.inputs = ps at hkids hinputs
        induction hkids with
        | nil => rfl
        | cons hhead _ ih =>
          obtain ⟨hq, hqs⟩ := List.forall_mem_cons.mp hinputs
          rw [hhead.1 hq, ih hqs]
      rw [hkept, p.withInputs_inputs]
    refine ⟨hsame, fun hp => ?_⟩
    cases hp with
    | view hall hmeaning =>
      rw [hsame hall]
      exact .view hall hmeaning
    | node hscan hplain hinputs =>
      obtain ⟨hscan', hlength, hplain'⟩ := hdescend p s node s' hvisit
      refine .node (by rw [LogicalPlan.isTableScan_withInputs, hscan', hscan]) ?_ ?_
      · rw [LogicalPlan.IsPlain, LogicalPlan.exprs_withInputs]
        exact hplain' hplain
      · rw [node.inputs_withInputs (by rw [hkids.length_eq.symm, hlength])]
        intro kid hkid
        obtain ⟨q, hq, -, hsettled⟩ := exists_of_forall₂ hkids.flip hkid
        exact hsettled (hinputs q hq)

/-- Masks have no plans of their own. -/
theorem MaskingRule.maskExpr_scanFree (rule : MaskingRule) (data : MaskingBundleData) {e : Expr}
    (h : e.ScanFree) : (rule.maskExpr data e).ScanFree := by
  rw [maskExpr]
  cases policyFor data e with
  | none => exact h
  | some policy =>
    have hmask : (rule.applyMask e policy).occurrences ⊆ e.occurrences := by
      cases policy <;> simp [applyMask, Expr.occurrences, Expr.scalarFunction, Expr.allOccurrences]
    exact fun o ho => h o (hmask ho)

/-- The rule walks on from every node, from a plain one to a plain one over the same inputs. -/
theorem MaskingRule.visit_plain {rule : MaskingRule} {data : MaskingBundleData} {p : LogicalPlan}
    {changed changed' : Bool} {v : Visit} (h : rule.visit data p changed = (.ok v, changed')) :
    ∃ node, v = .descend node ∧ node.isTableScan = p.isTableScan ∧
      node.inputs.length = p.inputs.length ∧ (p.IsPlain → node.IsPlain) := by
  by_cases hmasks : Masks p
  · cases p with
    | projection expr input schema =>
      obtain ⟨schema', rfl, -⟩ := visit_masks hmasks h
      refine ⟨_, rfl, rfl, rfl, fun hplain e he => ?_⟩
      obtain ⟨e', he', rfl⟩ := List.mem_map.mp he
      exact rule.maskExpr_scanFree data (hplain e' he')
    | _ => cases hmasks
  · rw [visit_of_not_masks hmasks] at h
    exact ⟨p, (Except.ok.inj (Prod.mk.inj h).1).symm, rfl, rfl, id⟩

theorem MaskingRule.rewrite_settled {rule : MaskingRule} {plan : LogicalPlan} {masked : Transformed}
    (hrun : rule.rewrite plan = .ok masked) (h : Settled sem d d' plan) :
    Settled sem d d' masked.data := by
  rw [rewrite] at hrun
  cases hparse : rule.parseBundle with
  | none =>
    rw [hparse] at hrun
    obtain rfl := Except.ok.inj hrun
    exact h
  | some data =>
    rw [hparse] at hrun
    change rule.mask data plan = _ at hrun
    rw [mask] at hrun
    split at hrun
    · obtain rfl := Except.ok.inj hrun
      exact h
    · split at hrun
      · rename_i newPlan changed hwalk
        obtain rfl := Except.ok.inj hrun
        refine h.walk ?_ ?_ ?_ hwalk
        · intro p changed hp
          exact visit_of_not_masks (by cases p <;> simp_all [LogicalPlan.IsQuiet, Masks]) changed
        · intro p changed node changed' hvisit _
          obtain ⟨_, hdescend, -⟩ := visit_plain hvisit
          cases hdescend
        · intro p changed node changed' hvisit
          obtain ⟨_, hdescend, hnode⟩ := visit_plain hvisit
          obtain rfl := Visit.descend.inj hdescend
          exact hnode
      · cases hrun

/-- Noise has no expressions. -/
theorem Settled.wrap {node : LogicalPlan} (h : Settled sem d d' node) (r : F64.Rounding)
    (schema : DFSchema) (found : List (String × F64)) :
    Settled sem d d' (DPNoiseRule.wrap r node schema found) := by
  induction found generalizing node with
  | nil => exact h
  | cons f found ih =>
    refine ih (.node rfl (fun e he => absurd he List.not_mem_nil) fun p hp => ?_)
    obtain rfl := List.mem_singleton.mp hp
    exact h

theorem DPNoiseRule.rewrite_settled {rule : DPNoiseRule} {plan : LogicalPlan} {s s' : NoiseState}
    {noised : Transformed} (hrun : rule.rewrite plan s = (.ok noised, s')) (h : Settled sem d d' plan) :
    Settled sem d d' noised.data := by
  cases hparse : rule.parseBundle with
  | none =>
    rw [rewrite] at hrun
    simp only [hparse, Prod.mk.injEq, Except.ok.injEq] at hrun
    obtain ⟨rfl, -⟩ := hrun
    exact h
  | some data =>
    rw [rewrite] at hrun
    simp only [hparse, addNoise] at hrun
    split at hrun
    · simp only [Prod.mk.injEq, Except.ok.injEq] at hrun
      obtain ⟨rfl, -⟩ := hrun
      exact h
    · split at hrun
      · cases (Prod.mk.inj hrun).1
      · rename_i newPlan t hwalk
        split at hrun
        · cases (Prod.mk.inj hrun).1
        · simp only [Prod.mk.injEq, Except.ok.injEq] at hrun
          obtain ⟨rfl, -⟩ := hrun
          refine h.walk ?_ ?_ ?_ hwalk
          · intro p s hp
            unfold visit
            split
            · rfl
            · cases p with
              | aggregate => cases hp
              | _ => rfl
          · intro p s node s' hvisit hp
            obtain ⟨-, hv⟩ | ⟨-, -, hv, -⟩ | ⟨found, -, -, hv, -⟩ := rule.visit_cases data p s hvisit
            · cases hv
            · cases hv
            · obtain rfl := Visit.jump.inj hv
              exact hp.wrap _ _ _
          · intro p s node s' hvisit
            obtain ⟨-, hv⟩ | ⟨-, -, hv, -⟩ | ⟨found, -, -, hv, -⟩ := rule.visit_cases data p s hvisit
            · obtain rfl := Visit.descend.inj hv
              exact ⟨rfl, rfl, id⟩
            · obtain rfl := Visit.descend.inj hv
              exact ⟨rfl, rfl, id⟩
            · cases hv

end Settled

/-! ### The whole pipeline -/

namespace PipelineConfig

/-- The four rules in their order, each on the plan of the one before. -/
def rewrite (config : PipelineConfig) (plan : LogicalPlan) (check : CheckState) (noise : NoiseState) :
    Except DataFusionError LogicalPlan := do
  let checked ← (config.contractCheck.rewrite plan check).1
  let filtered ← config.rowFilter.rewrite checked.data
  let masked ← config.masking.rewrite filtered.data
  let noised ← (config.dpNoise.rewrite masked.data noise).1
  return noised.data

end PipelineConfig

section Hides
variable {δ ρ : Type} {config : PipelineConfig} {sem : Semantics δ ρ} {d d' : δ}

/-- Of nodes over one input, all are quiet if they and those of the input are. -/
theorem quiet_over {plan p : LogicalPlan} (hplan : plan.IsQuiet) (hinputs : plan.inputs = [p])
    (hp : ∀ q, Within q p → q.IsQuiet) : ∀ q, Within q plan → q.IsQuiet := by
  intro q hq
  cases hq with
  | root => exact hplan
  | input hmem hq =>
    rw [hinputs] at hmem
    obtain rfl := List.mem_singleton.mp hmem
    exact hp q hq

theorem quiet_leaf {plan : LogicalPlan} (hplan : plan.IsQuiet) (hinputs : plan.inputs = []) :
    ∀ q, Within q plan → q.IsQuiet := by
  intro q hq
  cases hq with
  | root => exact hplan
  | input hmem _ =>
    rw [hinputs] at hmem
    cases hmem

/-- What stands for a scan is made of quiet nodes. -/
theorem restrict_scan_quiet {tableName : String} {schema : DFSchema} {filters : List Expr}
    {site : Site}
    (hplan : Unapproved ((LogicalPlan.tableScan tableName schema filters).occurrencesAt site)) :
    ∀ q, Within q (config.rowFilter.restrict
      (config.contractCheck.evaluateScan (.tableScan tableName schema filters) tableName).1) →
      q.IsQuiet := by
  obtain ⟨-, marked, hmarked, hrestrict⟩ | ⟨-, hrestrict⟩ := restrict_scan config rfl hplan
  · have hquiet : ∀ q, Within q marked → q.IsQuiet := by
      subst hmarked
      exact quiet_over trivial rfl (quiet_leaf trivial rfl)
    rw [hrestrict]
    cases config.rowFilter.filter? with
    | none => exact hquiet
    | some f => exact quiet_over trivial rfl hquiet
  · rw [hrestrict]
    exact quiet_leaf trivial rfl

/-- After the check and the filter a plan of plain nodes is settled where the views are the same. -/
theorem restrict_settled {plan plan' : LogicalPlan} {s s' : CheckState} {site : Site}
    (hrun : transformDown config.contractCheck.visit plan s = (.ok plan', s'))
    (hplan : Unapproved (plan.occurrencesAt site))
    (hplain : ∀ q, Within q plan → q.isTableScan = false → q.IsPlain)
    (hviews : ∀ tableName schema filters, Within (.tableScan tableName schema filters) plan →
      config.view sem d tableName schema filters = config.view sem d' tableName schema filters) :
    Settled sem d d' (config.rowFilter.restrict plan') := by
  refine transformDown_relates (Q := fun p p' => ∀ site, Unapproved (p.occurrencesAt site) →
    (∀ q, Within q p → q.isTableScan = false → q.IsPlain) →
    (∀ tableName schema filters, Within (.tableScan tableName schema filters) p →
      config.view sem d tableName schema filters = config.view sem d' tableName schema filters) →
    Settled sem d d' (config.rowFilter.restrict p')) ?_ ?_ hrun site hplan hplain hviews
  · intro p t node t' hvisit site hp _ hviews
    cases p with
    | tableScan tableName schema filters =>
      obtain rfl := Visit.jump.inj (Except.ok.inj (Prod.mk.inj hvisit).1)
      exact .view (restrict_scan_quiet hp) (((meaning_restrict_scan hp).trans
        (hviews tableName schema filters .root)).trans (meaning_restrict_scan hp).symm)
    | _ => cases Except.ok.inj (Prod.mk.inj hvisit).1
  · intro p t node t' kids hvisit hkids site hp hplain hviews
    obtain ⟨-, tableName, hjump⟩ | ⟨hscan, hdescend⟩ := config.contractCheck.visit_cases hvisit
    · cases hjump
    · obtain rfl := Visit.descend.inj hdescend
      obtain ⟨hself, hexprs, hinputs⟩ := (unapproved_iff node site).mp hp
      have hlength := hkids.length_eq.symm
      rw [restrict_node (by rwa [isApproval_withInputs]) (by rwa [LogicalPlan.exprs_withInputs]),
        node.inputs_withInputs hlength, node.withInputs_twice hlength (List.length_map _)]
      refine .node (by rw [LogicalPlan.isTableScan_withInputs, hscan]) ?_ ?_
      · rw [LogicalPlan.IsPlain, LogicalPlan.exprs_withInputs]
        exact hplain node .root hscan
      · rw [node.inputs_withInputs (by rw [List.length_map, hlength])]
        intro restricted hrestricted
        obtain ⟨kid, hkid, rfl⟩ := List.mem_map.mp hrestricted
        obtain ⟨q, hq, hsettled⟩ := exists_of_forall₂ hkids.flip hkid
        exact hsettled (site.under node) (hinputs q hq) (fun q' hq' => hplain q' (.input hq hq'))
          fun tableName schema filters hwithin => hviews tableName schema filters (.input hq hwithin)

/-- **What the views do not show has no bearing on the answer** of the pipeline to a query that
scans no table in an expression; if the contract turns the principal away, nothing has. -/
theorem pipeline_hides {plan plan' : LogicalPlan} {check : CheckState} {noise : NoiseState}
    (hplan : Unapproved plan.occurrences)
    (hplain : ∀ q, Within q plan → q.isTableScan = false → q.IsPlain)
    (hrun : config.rewrite plan check noise = .ok plan') (sem : Semantics δ ρ) {d d' : δ}
    (hviews : config.contractCheck.Approves → ∀ tableName schema filters,
      Within (.tableScan tableName schema filters) plan →
        config.view sem d tableName schema filters = config.view sem d' tableName schema filters) :
    sem.meaning d plan' = sem.meaning d' plan' := by
  obtain ⟨checked, hcheck, hrun⟩ := bind_eq_ok.mp hrun
  obtain ⟨filtered, hfilter, hrun⟩ := bind_eq_ok.mp hrun
  obtain ⟨masked, hmask, hrun⟩ := bind_eq_ok.mp hrun
  obtain ⟨noised, hnoise, hrun⟩ := bind_eq_ok.mp hrun
  obtain rfl := Except.ok.inj hrun
  have hcheck' : config.contractCheck.rewrite plan check = (.ok checked, _) := Prod.ext hcheck rfl
  obtain ⟨t, hwalk⟩ := ContractCheckRule.rewrite_walk hcheck'
  have hsettled : Settled sem d d' filtered.data := by
    rw [RowFilterRule.rewrite_checked hplan hcheck' hfilter]
    refine restrict_settled hwalk hplan hplain fun tableName schema filters hwithin => ?_
    by_cases happroves : config.contractCheck.Approves
    · exact hviews happroves tableName schema filters hwithin
    · rw [PipelineConfig.view, PipelineConfig.view, if_neg happroves, if_neg happroves]
      exact sem.plain d d' _ _ fun e he => absurd he List.not_mem_nil
  have hnoise' : config.dpNoise.rewrite masked.data noise = (.ok noised, _) := Prod.ext hnoise rfl
  exact (DPNoiseRule.rewrite_settled hnoise' (MaskingRule.rewrite_settled hmask hsettled)).meaning_eq

end Hides

/-! ### Those who are active -/

def activeText : String := "\x7b\"row_filter\":\"active\"\x7d"

def activeDocument : Json := .object [("row_filter", .string "active")]

theorem activeText_ne : activeText ≠ "" := by decide

/-- A bundle that shows those who are active, and asks nothing of a principal. -/
def activeConfig : PipelineConfig where
  serde := .just activeText activeDocument activeText_ne
  engine := {
    parseSql := fun text =>
      if text = "SELECT 1 WHERE active" then
        .ok [.query (.select (some (.identifier "active" none)))]
      else .error "sql parser error"
    col := fun name => ⟨none, name⟩
    debug := fun _ => "" }
  planner := ⟨fun _ _ => none, fun _ _ => .ok [], fun _ => ""⟩
  rounding := .nearest
  bundle := ⟨utf8 activeText, "staff-contract", "acme"⟩
  principal := ⟨"user:alice", "analytics", "gold", "internal"⟩
  tenantId := "acme"
  initialBudgets := none

theorem activeConfig_document : activeConfig.document = some activeDocument :=
  ContractBundleHandle.document_just _ _ activeText_ne _ _

def staff : LogicalPlan := .tableScan "staff" [] []

/-- `SELECT email FROM staff` -/
def staffEmails : LogicalPlan := .projection [.column ⟨none, "email"⟩] staff []

def asksActive : LogicalPlan → Bool
  | .filter (.column c) _ => c.name = "active"
  | _ => false

theorem asksActive_withInputs (plan : LogicalPlan) (kids : List LogicalPlan) :
    asksActive (plan.withInputs kids) = asksActive plan := by
  unfold LogicalPlan.withInputs
  split
  case h_2 predicate _ _ => cases predicate <;> rfl
  all_goals rfl

/-- Names, each with whether one is active; the database is one table. -/
def activeSemantics : Semantics (List (String × Bool)) (List (String × Bool)) where
  scan := fun rows _ _ _ => rows
  node := fun _ plan inputs =>
    if asksActive plan then inputs.flatten.filter Prod.snd else inputs.flatten
  inputs := fun _ plan kids _ => by rw [asksActive_withInputs]
  plain := fun _ _ _ _ _ => rfl
  approval := fun _ _ _ _ _ _ => List.append_nil _

theorem activeConfig_parseFilter : activeConfig.rowFilter.parseBundle = some ⟨some "active", .empty⟩ :=
  congrArg (·.bind RowFilterBundleData.ofJson) activeConfig_document

theorem activeConfig_filter : activeConfig.rowFilter.filter? = some (.column ⟨none, "active"⟩) := by
  rw [RowFilterRule.filter?, activeConfig_parseFilter]
  rfl

theorem activeConfig_approves : activeConfig.contractCheck.Approves :=
  ⟨⟨[], none, none⟩, congrArg (·.bind ContractBundleData.ofJson) activeConfig_document, rfl⟩

/-- The result of a walk with the filter. -/
theorem RowFilterRule.inject_ok {rule : RowFilterRule} {data : RowFilterBundleData} {text : String}
    {plan newPlan : LogicalPlan} {expr : Expr} {changed : Bool}
    (htext : rule.effectiveRowFilter data = some text) (hne : text ≠ "")
    (hexpr : rule.parseFilterExpr text = .ok expr)
    (hwalk : transformDown (rule.visit expr) plan false = (.ok newPlan, changed)) :
    rule.inject data plan = .ok ⟨newPlan, changed⟩ := by
  rw [inject, htext]
  split
  · rename_i hnone
    cases hnone
  · rename_i hempty
    exact absurd (Option.some.inj hempty) hne
  · rename_i text' hsome
    obtain rfl := Option.some.inj hsome
    rw [hexpr]
    simp only [bind, Except.bind, hwalk, pure, Except.pure]

theorem activeConfig_filters (plan : LogicalPlan) :
    ∃ filtered, activeConfig.rowFilter.rewrite plan = .ok filtered := by
  have htotal : ∀ (p : LogicalPlan) (changed : Bool), ∃ v changed',
      activeConfig.rowFilter.visit (.column ⟨none, "active"⟩) p changed = (.ok v, changed') := by
    intro p changed
    rw [RowFilterRule.visit]
    split <;> exact ⟨_, _, rfl⟩
  obtain ⟨plan', changed, hwalk⟩ := transformDown_total htotal plan false
  refine ⟨⟨plan', changed⟩, ?_⟩
  rw [RowFilterRule.rewrite, activeConfig_parseFilter]
  exact RowFilterRule.inject_ok rfl (by decide) rfl hwalk

theorem activeConfig_rewrites (plan : LogicalPlan) (check : CheckState) (noise : NoiseState) :
    ∃ plan', activeConfig.rewrite plan check noise = .ok plan' := by
  obtain ⟨checked, s', hcheck, -⟩ := activeConfig.contractCheck.rewrite_ok plan check
  obtain ⟨filtered, hfilter⟩ := activeConfig_filters checked.data
  have hmask : activeConfig.masking.rewrite filtered.data = .ok ⟨filtered.data, false⟩ := by
    have hparse : activeConfig.masking.parseBundle = some ⟨.empty⟩ :=
      congrArg (·.bind MaskingBundleData.ofJson) activeConfig_document
    rw [MaskingRule.rewrite, hparse]
    rfl
  have hnoise : activeConfig.dpNoise.rewrite filtered.data noise = (.ok ⟨filtered.data, false⟩, noise) := by
    have hparse : activeConfig.dpNoise.parseBundle = some ⟨.empty⟩ :=
      congrArg (·.bind DPBundleData.ofJson) activeConfig_document
    rw [DPNoiseRule.rewrite, hparse]
    rfl
  refine ⟨filtered.data, bind_eq_ok.mpr ⟨checked, congrArg Prod.fst hcheck, bind_eq_ok.mpr
    ⟨filtered, hfilter, bind_eq_ok.mpr ⟨_, hmask, bind_eq_ok.mpr ⟨_, congrArg Prod.fst hnoise, rfl⟩⟩⟩⟩⟩

theorem activeConfig_view (rows : List (String × Bool)) (tableName : String) (schema : DFSchema)
    (filters : List Expr) : activeConfig.view activeSemantics rows tableName schema filters =
      rows.filter Prod.snd := by
  rw [PipelineConfig.view, if_pos activeConfig_approves, activeConfig_filter]
  exact congrArg (List.filter Prod.snd) (List.append_nil rows)

theorem staffEmails_unapproved : Unapproved staffEmails.occurrences := by
  intro o ho
  simp only [staffEmails, staff, LogicalPlan.occurrences, LogicalPlan.occurrencesAt,
    Expr.allOccurrences, Expr.occurrences, List.nil_append, List.append_nil, List.mem_cons,
    List.not_mem_nil, or_false] at ho
  obtain rfl | rfl := ho <;> decide

theorem pipeline_view_staff : ∃ checked s' filtered,
    activeConfig.contractCheck.rewrite staffEmails ⟨[], [], ∅, false⟩ = (.ok checked, s') ∧
      activeConfig.rowFilter.rewrite checked.data = .ok filtered ∧
      activeSemantics.meaning [("ana", true), ("bob", false)] filtered.data = [("ana", true)] := by
  obtain ⟨checked, s', hcheck, -⟩ :=
    activeConfig.contractCheck.rewrite_ok staffEmails ⟨[], [], ∅, false⟩
  obtain ⟨filtered, hfilter⟩ := activeConfig_filters checked.data
  refine ⟨checked, s', filtered, hcheck, hfilter, ?_⟩
  rw [pipeline_view staffEmails_unapproved hcheck hfilter activeSemantics]
  show [activeConfig.view activeSemantics _ "staff" [] []].flatten = _
  rw [activeConfig_view]
  rfl

theorem pipeline_hides_staff : ∃ plan',
    activeConfig.rewrite staffEmails ⟨[], [], ∅, false⟩ activeConfig.noiseState = .ok plan' ∧
      activeSemantics.meaning [("ana", true), ("bob", false)] plan' =
        activeSemantics.meaning [("eve", false), ("ana", true)] plan' := by
  obtain ⟨plan', hrun⟩ :=
    activeConfig_rewrites staffEmails ⟨[], [], ∅, false⟩ activeConfig.noiseState
  refine ⟨plan', hrun, pipeline_hides staffEmails_unapproved ?_ hrun activeSemantics ?_⟩
  · intro q hq hscan
    cases hq with
    | root =>
      intro e he o ho
      obtain rfl := List.mem_singleton.mp he
      cases ho
    | input hmem hq =>
      obtain rfl := List.mem_singleton.mp hmem
      cases hq with
      | root => cases hscan
      | input hmem _ => cases hmem
  · intro _ tableName schema filters _
    rw [activeConfig_view, activeConfig_view]
    rfl

end Griot.Logical
