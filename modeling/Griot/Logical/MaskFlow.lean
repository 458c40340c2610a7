import Griot.Logical.Dataflow
import Griot.Logical.Insertion
import Griot.Logical.Masking

/-! Which values the masking rule masks.

The rule masks a column where a projection over an approval marker selects it, under its own
name or another. Read with these selections in place of the masks, the plan says what the
rewritten plan computes (`outputs_rewrite`). So every value computed from a masked column goes
through the mask first, and once, exactly where a selection of the column is the first thing
that happens to it, and the only one (`rewrite_masks_iff`). -/
namespace Griot.Logical

open Lib

/-! ### Masks and selections -/

/-- The column a projected expression selects. -/
def selected : Expr → Option Column
  | .column c => some c
  | .alias (.column c) _ => some c
  | _ => none

theorem selectedColumn_eq (expr : Expr) :
    MaskingRule.selectedColumn expr = (selected expr).map Column.name := by
  cases expr <;> try rfl
  -- An alias: of a column, or of anything else.
  rename_i inner name
  cases inner <;> rfl

namespace MaskingBundleData

/-- The policy of a column, if it has one other than `noop`. -/
def policyOf (data : MaskingBundleData) (name : String) : Option MaskPolicy :=
  (data.columnPolicies.lookup name).bind fun entry =>
    if MaskPolicy.fromBundleStr entry.mask ≠ .noop then some (MaskPolicy.fromBundleStr entry.mask)
    else none

theorem policyFor_eq (data : MaskingBundleData) (expr : Expr) :
    MaskingRule.policyFor data expr = (selected expr).bind fun c => data.policyOf c.name := by
  rw [MaskingRule.policyFor, selectedColumn_eq]
  cases selected expr <;> rfl

theorem policyOf_ne_noop {data : MaskingBundleData} {name : String} {policy : MaskPolicy}
    (h : data.policyOf name = some policy) : policy ≠ .noop := by
  obtain ⟨entry, -, h⟩ := Option.bind_eq_some_iff.mp h
  split at h
  · rename_i hne
    rwa [← Option.some.inj h]
  · cases h

/-- The column is selected and has a policy. -/
def selects (data : MaskingBundleData) (expr : Expr) : Option Column :=
  (selected expr).filter fun c => (data.policyOf c.name).isSome

/-- A policy whose mask is computed from the column, and not a constant. -/
def keeps : MaskPolicy → Bool
  | .hashSha256 | .tokenize | .partialMask => true
  | .redact | .null | .noop => false

/-- The column an expression is the mask of, as the rule writes masks. -/
def maskedColumn (data : MaskingBundleData) : Expr → Option Column
  | .alias (.cast (.other func [expr]) .utf8) name =>
    (selected expr).filter fun c => func = "sha256" && c.name = name &&
      (data.policyOf name = some .hashSha256 || data.policyOf name = some .tokenize)
  | .alias (.other func [.literal stars, .other inner [expr, .literal count]]) name =>
    (selected expr).filter fun c => func = "concat" && stars = .utf8 (some "***") &&
      inner = "right" && count = .int64 4 && c.name = name && data.policyOf name = some .partialMask
  | _ => none

end MaskingBundleData

/-- A selection puts the mask. -/
def Hop.masked : Hop → Hop
  | .select name => .mask name
  | hop => hop

/-- A selection puts a constant. -/
def Hop.erases (data : MaskingBundleData) : Hop → Bool
  | .select name => !(data.policyOf name).any MaskingBundleData.keeps
  | _ => false

/-- What becomes of a flow when the masks are put. -/
def Flow.putMasks (data : MaskingBundleData) (f : Flow) : Option Flow :=
  if f.hops.any (Hop.erases data) then none else some {f with hops := f.hops.map Hop.masked}

theorem carries_putMasks (data : MaskingBundleData) : Carries (Flow.putMasks data) where
  andThen {hop} hhop f := by
    have hkeep : Hop.erases data hop = false := by
      cases hop with
      | select name => exact absurd rfl (hhop name)
      | _ => rfl
    have hsame : hop.masked = hop := by
      cases hop with
      | select name => exact absurd rfl (hhop name)
      | _ => rfl
    simp only [Flow.putMasks, Flow.andThen, List.any_append, List.any_cons, List.any_nil, hkeep,
      Bool.or_false, List.map_append, List.map_cons, List.map_nil, hsame]
    split <;> rfl
  approve f := by
    by_cases herased : f.hops.any (Hop.erases data) = true <;>
      simp [Flow.putMasks, Flow.approve, herased]
  plain {f} h := by
    have hhop : ∀ hop ∈ f.hops, Hop.erases data hop = false ∧ hop.masked = hop := by
      intro hop hmem
      cases hop with
      | select name => exact absurd hmem (h name)
      | _ => exact ⟨rfl, rfl⟩
    have hnone : f.hops.any (Hop.erases data) = false :=
      List.any_eq_false.mpr fun hop hmem => by simp [(hhop hop hmem).1]
    have hsame : f.hops.map Hop.masked = f.hops :=
      (List.map_congr_left fun hop hmem => (hhop hop hmem).2).trans (List.map_id _)
    rw [Flow.putMasks, hnone, hsame]
    rfl

/-- A selected column goes through its mask, or is lost. -/
theorem putMasks_select (data : MaskingBundleData) (f : Flow) (name : String) :
    (f.andThen (.select name)).putMasks data =
      if (data.policyOf name).any MaskingBundleData.keeps then
        (f.putMasks data).map (·.andThen (.mask name)) else none := by
  cases hkeeps : (data.policyOf name).any MaskingBundleData.keeps with
  | false => simp [Flow.putMasks, Flow.andThen, Hop.erases, hkeeps]
  | true =>
    simp only [Flow.putMasks, Flow.andThen, List.any_append, List.any_cons, List.any_nil,
      Hop.erases, hkeeps, Bool.not_true, Bool.or_false, List.map_append, List.map_cons,
      List.map_nil, Hop.masked, if_true]
    split <;> rfl

/-! ### One projection -/

namespace MaskingRule

/-- What the rule projects in place of an expression. -/
def maskExpr (rule : MaskingRule) (data : MaskingBundleData) (expr : Expr) : Expr :=
  match policyFor data expr with
  | some policy => rule.applyMask expr policy
  | none => expr

/-- A projection over an approval marker. -/
def Masks : LogicalPlan → Prop
  | .projection _ input _ => input.subtreeHasApprovalMarker = true
  | _ => False

/-- The expressions of a projection over a marker are masked, and the walk goes on. The schema is
the planner's, or the one it had if there is nothing to mask. -/
theorem visit_masks {rule : MaskingRule} {data : MaskingBundleData} {expr : List Expr}
    {input : LogicalPlan} {schema : DFSchema} {changed changed' : Bool} {v : Visit}
    (hmarker : input.subtreeHasApprovalMarker = true)
    (h : rule.visit data (.projection expr input schema) changed = (.ok v, changed')) :
    ∃ schema', v = .descend (.projection (expr.map (rule.maskExpr data)) input schema') ∧
      (rule.planner.projectionSchema (expr.map (rule.maskExpr data)) input = .ok schema' ∨
        expr.map (rule.maskExpr data) = expr ∧ schema' = schema) := by
  simp only [visit, hmarker, Bool.not_true, Bool.false_eq_true, if_false] at h
  split at h
  · split at h
    · cases (Prod.mk.inj h).1
    · rename_i newSchema hschema
      exact ⟨newSchema, (Except.ok.inj (Prod.mk.inj h).1).symm, .inl hschema⟩
  · rename_i hnone
    have hsame : expr.map (rule.maskExpr data) = expr := by
      refine (List.map_congr_left fun e he => ?_).trans (List.map_id _)
      have : policyFor data e = none := by
        by_contra hsome
        exact hnone (List.any_eq_true.mpr ⟨e, he, Option.isSome_iff_ne_none.mpr hsome⟩)
      rw [maskExpr, this]
      rfl
    exact ⟨schema, by rw [hsame, (Except.ok.inj (Prod.mk.inj h).1)], .inr ⟨hsame, rfl⟩⟩

theorem visit_of_not_masks {rule : MaskingRule} {data : MaskingBundleData} {plan : LogicalPlan}
    (hplan : ¬ Masks plan) (changed : Bool) :
    rule.visit data plan changed = (.ok (.descend plan), changed) := by
  cases plan with
  | projection expr input schema =>
    have hmarker : input.subtreeHasApprovalMarker = false := by simpa [Masks] using hplan
    simp [visit, hmarker]
  | _ => rfl

section Project
variable (schemaName : Expr → String)
  (wires : NodeKind → List Expr → DFSchema → List (List FieldName) → List Wire)

/-- The mask expressions of a bundle are read as masks. -/
def reading (data : MaskingBundleData) : Reading := ⟨schemaName, wires, data.maskedColumn⟩

/-- The mask of a selected column, read as a mask. -/
theorem project_applyMask (rule : MaskingRule) (data : MaskingBundleData) {c : Column} {e : Expr}
    (hselected : selected e = some c) {policy : MaskPolicy} (hpolicy : data.policyOf c.name = some policy)
    (env : Column → List Flow) :
    (reading schemaName wires data).project noSelects env (rule.applyMask e policy)
        ((rule.applyMask e policy).flows (reading schemaName wires data) env) =
      ⟨⟨none, c.name⟩, if MaskingBundleData.keeps policy then
        (env c).map (·.andThen (.mask c.name)) else []⟩ := by
  have hname : (selectedColumn e).getD (rule.planner.debug e) = c.name := by
    rw [selectedColumn_eq, hselected]
    rfl
  have hmasked (expr : Expr) (hmask : data.maskedColumn (.alias expr c.name) = some c) :
      (Expr.alias expr c.name).flows (reading schemaName wires data) env =
        (env c).map (·.andThen (.mask c.name)) := by
    rw [Expr.flows, show (reading schemaName wires data).maskOf _ = _ from hmask]
  have hconstant (v : ScalarValue) :
      (Expr.alias (.literal v) c.name).flows (reading schemaName wires data) env = [] := by
    rw [Expr.flows, reading]
    rfl
  cases policy with
  | noop => exact absurd rfl (MaskingBundleData.policyOf_ne_noop hpolicy)
  | redact | null =>
    simp only [applyMask, hname, hconstant]
    rfl
  | hashSha256 | tokenize =>
    simp only [applyMask, hname, Expr.scalarFunction]
    rw [hmasked _ (by simp [MaskingBundleData.maskedColumn, hselected, hpolicy])]
    rfl
  | partialMask =>
    simp only [applyMask, hname, Expr.scalarFunction]
    rw [hmasked _ (by simp [MaskingBundleData.maskedColumn, hselected, hpolicy])]
    rfl

/-- A projected expression after the rule computes what the selection says. -/
theorem project_maskExpr (rule : MaskingRule) (data : MaskingBundleData) (env : Column → List Flow)
    (e : Expr) :
    (reading schemaName wires data).project noSelects
        (fun c => (env c).filterMap (Flow.putMasks data)) (rule.maskExpr data e)
        ((rule.maskExpr data e).flows (reading schemaName wires data)
          fun c => (env c).filterMap (Flow.putMasks data)) =
      ((reading schemaName wires data).project data.selects env e
        (e.flows (reading schemaName wires data) env)).carry (Flow.putMasks data) := by
  rw [maskExpr, data.policyFor_eq]
  have hplain (hselects : data.selects e = none) :
      (reading schemaName wires data).project noSelects
        (fun c => (env c).filterMap (Flow.putMasks data)) e
        (e.flows (reading schemaName wires data) fun c => (env c).filterMap (Flow.putMasks data)) =
      ((reading schemaName wires data).project data.selects env e
        (e.flows (reading schemaName wires data) env)).carry (Flow.putMasks data) := by
    rw [(carries_putMasks data).flows, Reading.project, Reading.project, hselects]
    rfl
  cases hselected : selected e with
  | none => exact hplain (by rw [MaskingBundleData.selects, hselected]; rfl)
  | some c =>
    cases hpolicy : data.policyOf c.name with
    | none =>
      simp only [Option.bind_some, hpolicy]
      exact hplain (by simp [MaskingBundleData.selects, hselected, hpolicy])
    | some policy =>
      have hselects : data.selects e = some c := by
        simp [MaskingBundleData.selects, hselected, hpolicy]
      simp only [Option.bind_some, hpolicy]
      rw [project_applyMask schemaName wires rule data hselected hpolicy, Reading.project, hselects]
      simp only [Output.carry, List.filterMap_map]
      congr 1
      have hstep : (Flow.putMasks data ∘ fun f : Flow => f.andThen (.select c.name)) = fun f : Flow =>
          if MaskingBundleData.keeps policy then (f.putMasks data).map (·.andThen (.mask c.name))
          else none := by
        funext f
        simp [putMasks_select, hpolicy]
      rw [hstep]
      cases MaskingBundleData.keeps policy with
      | false => simp
      | true => simp [List.map_filterMap]

/-- The rewritten plan computes what the selections say. -/
def Rereads (data : MaskingBundleData) (plan plan' : LogicalPlan) : Prop :=
  plan'.outputs (reading schemaName wires data) noSelects =
    (plan.outputs (reading schemaName wires data) data.selects).map (Output.carry (Flow.putMasks data))

variable {schemaName wires}

theorem readColumn_of_rereads {data : MaskingBundleData} {input kid : LogicalPlan}
    (h : Rereads schemaName wires data input kid) :
    readColumn (kid.outputs (reading schemaName wires data) noSelects) = fun c =>
      (readColumn (input.outputs (reading schemaName wires data) data.selects) c).filterMap
        (Flow.putMasks data) := by
  funext c
  rw [h, Carries.readColumn]

/-- A projection that is masked, over inputs that are. -/
theorem rereads_masks (rule : MaskingRule) {data : MaskingBundleData} {expr : List Expr}
    {input kid : LogicalPlan} (schema schema' : DFSchema)
    (hmarker : input.subtreeHasApprovalMarker = true) (hkid : Rereads schemaName wires data input kid) :
    Rereads schemaName wires data (.projection expr input schema)
      (.projection (expr.map (rule.maskExpr data)) kid schema') := by
  rw [Rereads, LogicalPlan.outputs, LogicalPlan.outputs, ite_self, if_pos hmarker,
    readColumn_of_rereads hkid]
  induction expr with
  | nil => rfl
  | cons e es ih =>
    rw [List.map_cons, Expr.allFlows, Expr.allFlows, List.zipWith_cons_cons, List.zipWith_cons_cons,
      List.map_cons]
    exact congrArg₂ List.cons (project_maskExpr schemaName wires rule data _ e) ih

theorem allOutputs_of_rereads {data : MaskingBundleData} {inputs kids : List LogicalPlan}
    (h : List.Forall₂ (Rereads schemaName wires data) inputs kids) :
    LogicalPlan.allOutputs (reading schemaName wires data) noSelects kids =
      (LogicalPlan.allOutputs (reading schemaName wires data) data.selects inputs).map
        (List.map (Output.carry (Flow.putMasks data))) := by
  rw [LogicalPlan.allOutputs_eq, LogicalPlan.allOutputs_eq, List.map_map]
  induction h with
  | nil => rfl
  | cons hhead _ ih => exact congrArg₂ List.cons hhead ih

/-- A node that the rule leaves as it is, over inputs that are masked. -/
theorem rereads_withInputs {data : MaskingBundleData} {plan : LogicalPlan} (hplan : ¬ Masks plan)
    {kids : List LogicalPlan} (h : List.Forall₂ (Rereads schemaName wires data) plan.inputs kids) :
    Rereads schemaName wires data plan (plan.withInputs kids) := by
  have ht := carries_putMasks data
  cases plan with
  | tableScan tableName schema filters =>
    cases h
    show Rereads schemaName wires data (.tableScan tableName schema filters)
      (.tableScan tableName schema filters)
    rw [Rereads, LogicalPlan.outputs, LogicalPlan.outputs, List.map_map]
    exact List.map_congr_left fun field _ => rfl
  | emptyRelation produceOneRow schema =>
    cases h
    show Rereads schemaName wires data (.emptyRelation produceOneRow schema)
      (.emptyRelation produceOneRow schema)
    rw [Rereads, LogicalPlan.outputs, LogicalPlan.outputs, List.map_map]
    exact List.map_congr_left fun field _ => rfl
  | projection expr input schema =>
    obtain ⟨kid, rfl, hkid⟩ := exists_of_forall₂_singleton h
    have hmarker : input.subtreeHasApprovalMarker = false := by simpa [Masks] using hplan
    rw [LogicalPlan.withInputs, Rereads, LogicalPlan.outputs, LogicalPlan.outputs, ite_self,
      hmarker, readColumn_of_rereads hkid]
    exact ht.project _ _ expr
  | filter predicate input =>
    obtain ⟨kid, rfl, hkid⟩ := exists_of_forall₂_singleton h
    rw [LogicalPlan.withInputs, Rereads, LogicalPlan.outputs, LogicalPlan.outputs]
    exact hkid
  | aggregate groupExpr aggrExpr input schema =>
    obtain ⟨kid, rfl, hkid⟩ := exists_of_forall₂_singleton h
    rw [LogicalPlan.withInputs, Rereads, LogicalPlan.outputs, LogicalPlan.outputs,
      readColumn_of_rereads hkid, List.map_append]
    exact congrArg₂ (· ++ ·) (ht.keyOutputs _ _ groupExpr) (ht.project _ _ aggrExpr)
  | contractApproved contractId tenantId input schema =>
    obtain ⟨kid, rfl, hkid⟩ := exists_of_forall₂_singleton h
    rw [LogicalPlan.withInputs, Rereads, LogicalPlan.outputs, LogicalPlan.outputs,
      show kid.outputs _ _ = _ from hkid, List.map_map, List.map_map]
    refine List.map_congr_left fun o _ => ?_
    simp only [Function.comp, Output.carry, List.filterMap_map, List.map_filterMap, ht.approve]
  | laplaceNoise column scaleStr input schema =>
    obtain ⟨kid, rfl, hkid⟩ := exists_of_forall₂_singleton h
    rw [LogicalPlan.withInputs, Rereads, LogicalPlan.outputs, LogicalPlan.outputs]
    exact hkid
  | other kind exprs inputs schema =>
    have hkids : LogicalPlan.allOutputs (reading schemaName wires data) noSelects kids =
        (LogicalPlan.allOutputs (reading schemaName wires data) data.selects inputs).map
          (List.map (Output.carry (Flow.putMasks data))) :=
      allOutputs_of_rereads h
    have henv : readColumn (LogicalPlan.allOutputs (reading schemaName wires data) noSelects
        kids).flatten = fun c => (readColumn (LogicalPlan.allOutputs (reading schemaName wires data)
          data.selects inputs).flatten c).filterMap (Flow.putMasks data) := by
      funext c
      rw [hkids, ← List.map_flatten, Carries.readColumn]
    have hnames : (LogicalPlan.allOutputs (reading schemaName wires data) noSelects kids).map
        (·.map Output.name) = (LogicalPlan.allOutputs (reading schemaName wires data) data.selects
          inputs).map (·.map Output.name) := by
      rw [hkids, List.map_map]
      exact List.map_congr_left fun os _ => by simp
    rw [LogicalPlan.withInputs, Rereads, LogicalPlan.outputs, LogicalPlan.outputs, hnames, henv,
      List.map_map, hkids, ht.allFlows]
    exact List.map_congr_left fun w _ => ht.wire _ _ w

/-- Either no column has a policy, or the walk puts the masks on the plan. -/
theorem rewrite_cases {rule : MaskingRule} {data : MaskingBundleData}
    (hparse : rule.parseBundle = some data) {plan : LogicalPlan} {result : Transformed}
    (h : rule.rewrite plan = .ok result) :
    (data.columnPolicies.isEmpty = true ∧ result.data = plan) ∨
      ∃ changed, transformDown (rule.visit data) plan false = (.ok result.data, changed) := by
  rw [rewrite, hparse] at h
  simp only [mask] at h
  split at h
  · rename_i hempty
    obtain rfl := Except.ok.inj h
    exact .inl ⟨hempty, rfl⟩
  · cases hrun : transformDown (rule.visit data) plan false with
    | mk out changed =>
      cases out with
      | error e => simp [hrun] at h
      | ok plan' =>
        simp only [hrun] at h
        obtain rfl := Except.ok.inj h
        exact .inr ⟨changed, rfl⟩

/-- Without policies nothing is selected. -/
theorem rereads_of_isEmpty {data : MaskingBundleData} (hempty : data.columnPolicies.isEmpty = true)
    (plan : LogicalPlan) : Rereads schemaName wires data plan plan := by
  have hpolicy (name : String) : data.policyOf name = none := by
    rw [MaskingBundleData.policyOf, Dict.isEmpty_iff.mp hempty name]
    rfl
  have hselects : data.selects = noSelects := by
    funext e
    cases hselected : selected e <;> simp [MaskingBundleData.selects, hselected, hpolicy, noSelects]
  have hcarry : ∀ o ∈ plan.outputs (reading schemaName wires data) noSelects,
      o.carry (Flow.putMasks data) = o := by
    intro o ho
    rw [Output.carry, (carries_putMasks data).filterMap_plain (plain_outputs _ plan o ho)]
  rw [Rereads, hselects, List.map_congr_left hcarry, List.map_id']

/-- **What the rewritten plan computes**, read off the plan it was given. -/
theorem outputs_rewrite {rule : MaskingRule} {data : MaskingBundleData}
    (hparse : rule.parseBundle = some data) {plan : LogicalPlan} {result : Transformed}
    (h : rule.rewrite plan = .ok result) : Rereads schemaName wires data plan result.data := by
  obtain ⟨hempty, hsame⟩ | ⟨changed, hrun⟩ := rewrite_cases hparse h
  · rw [hsame]
    exact rereads_of_isEmpty hempty plan
  · refine transformDown_relates ?_ ?_ hrun
    · intro p s node s' hvisit
      by_cases hmasks : Masks p
      · cases p with
        | projection expr input schema =>
          obtain ⟨_, hdescend, -⟩ := visit_masks hmasks hvisit
          cases hdescend
        | _ => exact absurd hmasks id
      · rw [visit_of_not_masks hmasks] at hvisit
        cases (Prod.mk.inj hvisit).1
    · intro p s node s' kids hvisit hkids
      by_cases hmasks : Masks p
      · cases p with
        | projection expr input schema =>
          obtain ⟨schema', hdescend, -⟩ := visit_masks hmasks hvisit
          obtain rfl := Visit.descend.inj hdescend
          obtain ⟨kid, rfl, hkid⟩ := exists_of_forall₂_singleton hkids
          exact rereads_masks rule schema schema' hmasks hkid
        | _ => exact absurd hmasks id
      · rw [visit_of_not_masks hmasks] at hvisit
        obtain rfl := Visit.descend.inj (Except.ok.inj (Prod.mk.inj hvisit).1)
        exact rereads_withInputs hmasks hkids

/-! ### Masked once -/

/-- Every value computed from a column with a policy, of an approved scan, is computed from the
mask of the column, applied once. -/
def MaskedOnce (R : Reading) (data : MaskingBundleData) (plan : LogicalPlan) : Prop :=
  ∀ o ∈ plan.outputs R noSelects, ∀ f ∈ o.flows, f.approved = true → data.policyOf f.column ≠ none →
    ∃ later, f.hops = .mask f.column :: later ∧ .mask f.column ∉ later

/-- The column is selected, or the query itself writes the mask of the column. -/
def Takes (name : String) (hop : Hop) : Prop :=
  hop = .select name ∨ hop = .mask name

/-- On the way of every such value a constant is put in its place, or it is selected first of all,
and not again. -/
def SelectedOnce (R : Reading) (data : MaskingBundleData) (plan : LogicalPlan) : Prop :=
  ∀ o ∈ plan.outputs R data.selects, ∀ f ∈ o.flows, f.approved = true →
    data.policyOf f.column ≠ none → (∃ hop ∈ f.hops, hop.erases data = true) ∨
      ∃ first later, f.hops = first :: later ∧ Takes f.column first ∧
        ∀ hop ∈ later, ¬ Takes f.column hop

theorem masked_eq_mask_iff {name : String} {hop : Hop} : hop.masked = .mask name ↔ Takes name hop := by
  cases hop <;> simp [Hop.masked, Takes]

/-- The masks are put on the way once exactly where the column is taken once. -/
theorem masked_once_iff (name : String) (hops : List Hop) :
    (∃ later, hops.map Hop.masked = .mask name :: later ∧ .mask name ∉ later) ↔
      ∃ first later, hops = first :: later ∧ Takes name first ∧ ∀ hop ∈ later, ¬ Takes name hop := by
  have hlater (later : List Hop) :
      .mask name ∉ later.map Hop.masked ↔ ∀ hop ∈ later, ¬ Takes name hop := by
    simp only [List.mem_map, not_exists, not_and, masked_eq_mask_iff]
  constructor
  · intro h
    obtain ⟨later, hhops, hnot⟩ := h
    obtain ⟨first, rest, rfl, hfirst, rfl⟩ := List.map_eq_cons_iff.mp hhops
    exact ⟨first, rest, rfl, masked_eq_mask_iff.mp hfirst, (hlater rest).mp hnot⟩
  · intro h
    obtain ⟨first, rest, rfl, hfirst, hrest⟩ := h
    exact ⟨rest.map Hop.masked, by rw [List.map_cons, masked_eq_mask_iff.mpr hfirst],
      (hlater rest).mpr hrest⟩

theorem putMasks_eq_some {data : MaskingBundleData} {f f' : Flow} :
    f.putMasks data = some f' ↔
      (∀ hop ∈ f.hops, hop.erases data = false) ∧ f' = {f with hops := f.hops.map Hop.masked} := by
  rw [Flow.putMasks]
  by_cases herased : f.hops.any (Hop.erases data) = true
  · rw [if_pos herased]
    obtain ⟨hop, hmem, htrue⟩ := List.any_eq_true.mp herased
    simp only [reduceCtorEq, false_iff, not_and]
    intro hnone
    exact absurd htrue (by simp [hnone hop hmem])
  · have hnone : ∀ hop ∈ f.hops, hop.erases data = false := by
      simpa using herased
    rw [if_neg herased, Option.some.injEq, eq_comm]
    exact ⟨fun h => ⟨hnone, h⟩, fun h => h.2⟩

/-- Selections become masks. -/
theorem Rereads.maskedOnce_iff {data : MaskingBundleData} {plan plan' : LogicalPlan}
    (h : Rereads schemaName wires data plan plan') :
    MaskedOnce (reading schemaName wires data) data plan' ↔
      SelectedOnce (reading schemaName wires data) data plan := by
  rw [MaskedOnce, show plan'.outputs _ _ = _ from h, SelectedOnce, List.forall_mem_map]
  refine forall₂_congr fun o _ => ?_
  constructor
  · intro hmasked f hf happroved hpolicy
    by_cases herased : ∃ hop ∈ f.hops, hop.erases data = true
    · exact .inl herased
    · have hput : f.putMasks data = some {f with hops := f.hops.map Hop.masked} :=
        putMasks_eq_some.mpr ⟨fun hop hmem =>
          Bool.eq_false_iff.mpr fun htrue => herased ⟨hop, hmem, htrue⟩, rfl⟩
      have honce := hmasked _ (List.mem_filterMap.mpr ⟨f, hf, hput⟩) happroved hpolicy
      exact .inr ((masked_once_iff f.column f.hops).mp honce)
  · intro hselected f' hf' happroved hpolicy
    obtain ⟨f, hf, hput⟩ := List.mem_filterMap.mp hf'
    obtain ⟨hnone, rfl⟩ := putMasks_eq_some.mp hput
    obtain ⟨hop, hmem, htrue⟩ | honce := hselected f hf happroved hpolicy
    · exact absurd htrue (by simp [hnone hop hmem])
    · exact (masked_once_iff f.column f.hops).mpr honce

/-- **When the rule masks every value of a masked column, and once**: a constant is put in its
place on the way, or a projection over the marker selects it before anything is computed from
it, and no projection selects it again. -/
theorem rewrite_masks_iff {rule : MaskingRule} {data : MaskingBundleData}
    (hparse : rule.parseBundle = some data) {plan : LogicalPlan} {result : Transformed}
    (h : rule.rewrite plan = .ok result) (schemaName : Expr → String)
    (wires : NodeKind → List Expr → DFSchema → List (List FieldName) → List Wire) :
    MaskedOnce (reading schemaName wires data) data result.data ↔
      SelectedOnce (reading schemaName wires data) data plan :=
  (outputs_rewrite hparse h).maskedOnce_iff

/-! ### When the rule fails -/

/-- A projection over the marker selects a masked column, and there is no schema for it with
the mask in its place. -/
def Unplanned (rule : MaskingRule) (data : MaskingBundleData) : LogicalPlan → Prop
  | .projection expr input _ => input.subtreeHasApprovalMarker = true ∧
    (∃ e ∈ expr, (policyFor data e).isSome) ∧
    ∃ e, rule.planner.projectionSchema (expr.map (rule.maskExpr data)) input = .error e
  | _ => False

theorem visit_cases (rule : MaskingRule) (data : MaskingBundleData) (plan : LogicalPlan)
    (changed : Bool) :
    (Unplanned rule data plan ∧ ∃ e changed', rule.visit data plan changed = (.error e, changed')) ∨
      ¬Unplanned rule data plan ∧
        ∃ node changed', rule.visit data plan changed = (.ok (.descend node), changed') := by
  by_cases hmasks : Masks plan
  · cases plan with
    | projection expr input schema =>
      have hmarker : input.subtreeHasApprovalMarker = true := hmasks
      by_cases hany : ∃ e ∈ expr, (policyFor data e).isSome
      · have hany' : (expr.any fun e => (policyFor data e).isSome) = true := List.any_eq_true.mpr hany
        simp only [visit, hmarker, hany', Bool.not_true, Bool.false_eq_true, if_false, if_true]
        split
        · rename_i e hschema
          exact .inl ⟨⟨hmarker, hany, e, hschema⟩, _, _, rfl⟩
        · rename_i newSchema hschema
          refine .inr ⟨fun hunplanned => ?_, _, _, rfl⟩
          obtain ⟨-, -, e, he⟩ := hunplanned
          cases hschema.symm.trans he
      · refine .inr ⟨fun hunplanned => hany hunplanned.2.1, .projection expr input schema, changed, ?_⟩
        have hnone : ¬(expr.any fun e => (policyFor data e).isSome) = true := fun h =>
          hany (List.any_eq_true.mp h)
        simp only [visit, hmarker]
        rw [if_neg hnone]
        rfl
    | _ => exact absurd hmasks id
  · refine .inr ⟨fun hunplanned => hmasks ?_, plan, changed, visit_of_not_masks hmasks changed⟩
    cases plan with
    | projection expr input schema => exact hunplanned.1
    | _ => exact absurd hunplanned id

/-- **The rule fails** exactly where the planner does. -/
theorem rewrite_ok_iff {rule : MaskingRule} {data : MaskingBundleData}
    (hparse : rule.parseBundle = some data) (plan : LogicalPlan) :
    (∃ result, rule.rewrite plan = .ok result) ↔ ¬Has (Unplanned rule data) plan := by
  have hwalk := transformDown_ok_iff (rule.visit_cases data) plan false
  rw [← hwalk, rewrite, hparse]
  simp only [mask]
  cases hempty : data.columnPolicies.isEmpty with
  | true =>
    have hnone : ∀ q, ¬Unplanned rule data q := fun q hq => by
      cases q with
      | projection expr input schema =>
        obtain ⟨-, ⟨e, -, he⟩, -⟩ := hq
        obtain ⟨policy, hpolicy⟩ := Option.isSome_iff_exists.mp he
        rw [data.policyFor_eq] at hpolicy
        obtain ⟨c, -, hc⟩ := Option.bind_eq_some_iff.mp hpolicy
        simp [MaskingBundleData.policyOf, Dict.isEmpty_iff.mp hempty] at hc
      | _ => exact absurd hq id
    exact iff_of_true ⟨_, rfl⟩ (hwalk.mpr fun ⟨q, _, hq⟩ => hnone q hq)
  | false =>
    rw [if_neg (by simp)]
    rcases transformDown (rule.visit data) plan false with ⟨e | plan', changed⟩
    · simp
    · simp

end Project

/-! ### An address that is hashed -/

def emailText : String :=
  "\x7b\"column_policies\":\x7b\"email\":\x7b\"sensitivity\":\"pii\",\"mask\":\"hash_sha256\"\x7d\x7d\x7d"

def emailDocument : Json := .object [("column_policies", .object [("email",
  .object [("sensitivity", .string "pii"), ("mask", .string "hash_sha256")])])]

/-- A contract that hashes `email`. -/
def emailRule : MaskingRule where
  serde := .just emailText emailDocument (by decide)
  planner := ⟨fun _ _ => none, fun _ _ => .ok [], fun _ => ""⟩
  bundle := ⟨utf8 emailText, "users-contract", "acme"⟩

def emailData : MaskingBundleData := ⟨.ofList [("email", ⟨"pii", "hash_sha256"⟩)]⟩

theorem emailRule_parseBundle : emailRule.parseBundle = some emailData := by
  rw [parseBundle, emailRule, ContractBundleHandle.document_just]
  rfl

/-- The approved scan of `users`. -/
def emailScan : LogicalPlan :=
  .contractApproved "users-contract" "acme"
    (.tableScan "users" [⟨some "users", ⟨"email", .utf8, false⟩⟩] [])
    [⟨some "users", ⟨"email", .utf8, false⟩⟩]

def email : Expr := .column ⟨none, "email"⟩

/-- A projection of one expression. -/
def emailPlan (expr : Expr) (input : LogicalPlan) : LogicalPlan := .projection [expr] input []

/-- Other nodes hand on nothing. -/
def emailReading : Reading := reading (fun _ => "expr") (fun _ _ _ _ => []) emailData

theorem emailRule_rewrite (plan plan' : LogicalPlan) (changed : Bool)
    (h : transformDown (emailRule.visit emailData) plan false = (.ok plan', changed)) :
    emailRule.rewrite plan = .ok ⟨plan', changed⟩ := by
  rw [rewrite, emailRule_parseBundle]
  simp only [mask]
  rw [if_neg (by decide), h]

theorem email_selectedOnce : SelectedOnce emailReading emailData (emailPlan email emailScan) := by
  intro o ho f hf _ _
  have houtput : o ∈ [(⟨⟨none, "email"⟩, [⟨"email", true, [.select "email"]⟩]⟩ : Output)] := ho
  obtain rfl := List.mem_singleton.mp houtput
  obtain rfl := List.mem_singleton.mp hf
  exact .inr ⟨.select "email", [], rfl, .inl rfl, fun hop hhop => absurd hhop List.not_mem_nil⟩

/-- `SELECT email FROM users` -/
theorem select_masked_once :
    ∃ result, emailRule.rewrite (emailPlan email emailScan) = .ok result ∧
      MaskedOnce emailReading emailData result.data := by
  have hrun := emailRule_rewrite (emailPlan email emailScan) _ _ rfl
  exact ⟨_, hrun, (rewrite_masks_iff emailRule_parseBundle hrun _ _).mpr email_selectedOnce⟩

/-- A value of `email` that does not come by its mask, or comes by it again. -/
theorem not_maskedOnce {plan : LogicalPlan} {name : FieldName} (hops : List Hop)
    (houtputs : plan.outputs emailReading noSelects = [⟨name, [⟨"email", true, hops⟩]⟩])
    (hhops : ∀ later, hops = .mask "email" :: later → .mask "email" ∈ later) :
    ¬ MaskedOnce emailReading emailData plan := by
  intro hmasked
  obtain ⟨later, heq, hnot⟩ := hmasked ⟨name, [⟨"email", true, hops⟩]⟩
    (houtputs ▸ List.mem_singleton_self _) _ (List.mem_singleton_self _) rfl
    (show emailData.policyOf "email" ≠ none by decide)
  exact hnot (hhops later heq)

/-- **Unmasked**: `SELECT upper(email) FROM users`, the scan without a projection, and a projection
of a projection, which is hashed twice. -/
theorem mask_missed :
    (∃ result, emailRule.rewrite (emailPlan (.scalarFunction "upper" [email]) emailScan) = .ok result ∧
      ¬ MaskedOnce emailReading emailData result.data) ∧
    (∃ result, emailRule.rewrite emailScan = .ok result ∧
      ¬ MaskedOnce emailReading emailData result.data) ∧
    ∃ result, emailRule.rewrite (emailPlan email (emailPlan email emailScan)) = .ok result ∧
      ¬ MaskedOnce emailReading emailData result.data := by
  refine ⟨⟨_, emailRule_rewrite _ _ _ rfl, ?_⟩, ⟨_, emailRule_rewrite _ _ _ rfl, ?_⟩,
    ⟨_, emailRule_rewrite _ _ _ rfl, ?_⟩⟩
  · exact not_maskedOnce [.compute] rfl (by simp)
  · exact not_maskedOnce [] rfl (by simp)
  · exact not_maskedOnce [.mask "email", .mask "email"] rfl (by simp)

end MaskingRule

end Griot.Logical
