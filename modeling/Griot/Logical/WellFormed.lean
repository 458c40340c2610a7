import Griot.Logical.MaskFlow
import Griot.Logical.Preservation

/-! The rules and well-formed plans.

A masked column goes by its bare name and is text, whatever qualifier, alias and type it had. So
the masking rule leaves a valid plan well formed exactly if no field of the root is masked that
was shown otherwise, and no node reads one by another name. With what the other rules leave,
this says when a rule keeps a plan well formed (`rules_preserve_iff`). -/
namespace Griot.Logical

open Lib

/-- What the engine documents of the fields of projected expressions. -/
structure Planner.Types (planner : Planner) (fieldOf : FieldOf) : Prop where
  projection {exprs : List Expr} {input : LogicalPlan} {schema : DFSchema} :
    planner.projectionSchema exprs input = .ok schema → schema = exprs.map (fieldOf input.schema)
  column (schema : DFSchema) (c : Column) :
    (fieldOf schema (.column c)).fieldName = ⟨c.relation, c.name⟩
  aliased (schema : DFSchema) (expr : Expr) (name : String) :
    (fieldOf schema (.alias expr name)).shape = (⟨none, name⟩, (fieldOf schema expr).field.dataType)
  text (schema : DFSchema) (s : Option String) :
    (fieldOf schema (.literal (.utf8 s))).field.dataType = .utf8
  cast (schema : DFSchema) (expr : Expr) (dataType : DataType) :
    (fieldOf schema (.cast expr dataType)).field.dataType = dataType

namespace MaskingBundleData

/-- The column an expression selects and its policy, if it is masked. -/
def masks (data : MaskingBundleData) (expr : Expr) : Option (Column × MaskPolicy) :=
  (selected expr).bind fun c => (data.policyOf c.name).map (c, ·)

theorem policyFor_eq_masks (data : MaskingBundleData) (expr : Expr) :
    MaskingRule.policyFor data expr = (data.masks expr).map Prod.snd := by
  rw [data.policyFor_eq, masks]
  cases selected expr with
  | none => rfl
  | some c => simp

/-- What a column is replaced by, without the alias. -/
def maskInner (expr : Expr) : MaskPolicy → Expr
  | .noop => expr
  | .redact => .literal (.utf8 (some "<REDACTED>"))
  | .hashSha256 | .tokenize => .cast (.scalarFunction "sha256" [expr]) .utf8
  | .partialMask => .scalarFunction "concat" [.literal (.utf8 (some "***")),
      .scalarFunction "right" [expr, .literal (.int64 4)]]
  | .null => .literal (.utf8 none)

/-- The type of a masked column. The engine decides in which form of text the last four
characters stand. -/
def maskType (fieldOf : FieldOf) (schema : DFSchema) (expr : Expr) : MaskPolicy → DataType
  | .partialMask => (fieldOf schema (maskInner expr .partialMask)).field.dataType
  | _ => .utf8

/-- The field an expression is projected as, masked if it is to be. -/
def maskedField (data : MaskingBundleData) (fieldOf : FieldOf) (schema : DFSchema) (expr : Expr) :
    FieldName × DataType :=
  match data.masks expr with
  | some (c, policy) => (⟨none, c.name⟩, maskType fieldOf schema expr policy)
  | none => (fieldOf schema expr).shape

/-- The columns an expression reads once it is masked. -/
def maskedColumns (data : MaskingBundleData) (expr : Expr) : List Column :=
  match data.masks expr with
  | some (_, policy) => if keeps policy then expr.columns else []
  | none => expr.columns

/-- What a plan shows once the projections over a marker are masked. -/
def maskedShape (data : MaskingBundleData) (fieldOf : FieldOf) (plan : LogicalPlan) : Shape :=
  match plan.shownBy with
  | .projection expr input _ =>
    if input.subtreeHasApprovalMarker then expr.map (data.maskedField fieldOf input.schema)
    else plan.shape
  | _ => plan.shape

/-- The columns a node reads once the projections over a marker are masked. -/
def maskedReads (data : MaskingBundleData) : LogicalPlan → List Column
  | .projection expr input _ =>
    if input.subtreeHasApprovalMarker then expr.flatMap data.maskedColumns
    else expr.flatMap Expr.columns
  | plan => plan.reads

end MaskingBundleData

/-- A column is selected under its bare name. -/
def KeepsName : Expr → Prop
  | .column c => c.relation = none
  | .alias (.column c) name => name = c.name
  | _ => True

/-- The masks go unnoticed: the masked fields of the root had the bare name of their column and
the type of the mask, and no node reads a name that is not shown any more. -/
structure SurvivesMasks (lookup : Lookup) (fieldOf : FieldOf) (data : MaskingBundleData)
    (plan : LogicalPlan) : Prop where
  root : ∀ expr input schema, plan.shownBy = .projection expr input schema →
    input.subtreeHasApprovalMarker = true → ∀ e ∈ expr, ∀ c policy,
      data.masks e = some (c, policy) → KeepsName e ∧
        (fieldOf input.schema e).field.dataType =
          MaskingBundleData.maskType fieldOf input.schema e policy
  reads : ∀ q, Within q plan →
    Finds lookup (data.maskedShape fieldOf) (data.maskedReads q) q

/-! ### One expression -/

section Masking
variable {lookup : Lookup} {fieldOf : FieldOf} {data : MaskingBundleData} {plan : LogicalPlan}

theorem selected_of_masks {e : Expr} {c : Column} {policy : MaskPolicy}
    (h : data.masks e = some (c, policy)) :
    selected e = some c ∧ data.policyOf c.name = some policy := by
  obtain ⟨c', hselected, h⟩ := Option.bind_eq_some_iff.mp h
  obtain ⟨policy', hpolicy, h⟩ := Option.map_eq_some_iff.mp h
  obtain ⟨rfl, rfl⟩ := Prod.mk.inj h
  exact ⟨hselected, hpolicy⟩

/-- A selection is a column, or a column under an alias. -/
theorem selected_cases {e : Expr} {c : Column} (h : selected e = some c) :
    e = .column c ∨ ∃ name, e = .alias (.column c) name := by
  unfold selected at h
  split at h
  · exact .inl (by rw [Option.some.inj h])
  · exact .inr ⟨_, by rw [Option.some.inj h]⟩
  · cases h

theorem maskExpr_of_masks (rule : MaskingRule) {e : Expr} {c : Column} {policy : MaskPolicy}
    (h : data.masks e = some (c, policy)) : rule.maskExpr data e = rule.applyMask e policy := by
  rw [MaskingRule.maskExpr, data.policyFor_eq_masks, h]
  rfl

theorem maskExpr_of_none (rule : MaskingRule) {e : Expr} (h : data.masks e = none) :
    rule.maskExpr data e = e := by
  rw [MaskingRule.maskExpr, data.policyFor_eq_masks, h]
  rfl

section Policy
variable {e : Expr} {c : Column} {policy : MaskPolicy}

/-- A mask goes by the bare name of the column. -/
theorem applyMask_eq (rule : MaskingRule) (hselected : selected e = some c) (hpolicy : policy ≠ .noop) :
    rule.applyMask e policy = .alias (MaskingBundleData.maskInner e policy) c.name := by
  have hname : (MaskingRule.selectedColumn e).getD (rule.planner.debug e) = c.name := by
    rw [selectedColumn_eq, hselected]
    rfl
  cases policy with
  | noop => exact absurd rfl hpolicy
  | _ => simp only [MaskingRule.applyMask, hname, MaskingBundleData.maskInner]

theorem columns_maskInner (hpolicy : policy ≠ .noop) :
    (MaskingBundleData.maskInner e policy).columns =
      if MaskingBundleData.keeps policy then e.columns else [] := by
  cases policy with
  | noop => exact absurd rfl hpolicy
  | _ =>
    simp [MaskingBundleData.maskInner, MaskingBundleData.keeps, Expr.scalarFunction, Expr.columns,
      Expr.allColumns]

theorem occurrences_maskInner (h : e.occurrences = []) :
    (MaskingBundleData.maskInner e policy).occurrences = [] := by
  cases policy <;>
    simp [MaskingBundleData.maskInner, Expr.scalarFunction, Expr.occurrences, Expr.allOccurrences, h]

theorem type_maskInner {planner : Planner} (htypes : planner.Types fieldOf) (hpolicy : policy ≠ .noop)
    (schema : DFSchema) : (fieldOf schema (MaskingBundleData.maskInner e policy)).field.dataType =
      MaskingBundleData.maskType fieldOf schema e policy := by
  cases policy with
  | noop => exact absurd rfl hpolicy
  | partialMask => rfl
  | redact | null => exact htypes.text schema _
  | hashSha256 | tokenize => exact htypes.cast schema _ _

end Policy

/-- A masked expression shows the masked field. -/
theorem shape_maskExpr {rule : MaskingRule} (htypes : rule.planner.Types fieldOf) (schema : DFSchema)
    (e : Expr) :
    (fieldOf schema (rule.maskExpr data e)).shape = data.maskedField fieldOf schema e := by
  rw [MaskingBundleData.maskedField]
  cases hmasks : data.masks e with
  | none => rw [maskExpr_of_none rule hmasks]
  | some mask =>
    obtain ⟨c, policy⟩ := mask
    obtain ⟨hselected, hpolicy⟩ := selected_of_masks hmasks
    have hne := MaskingBundleData.policyOf_ne_noop hpolicy
    rw [maskExpr_of_masks rule hmasks, applyMask_eq rule hselected hne, htypes.aliased,
      type_maskInner htypes hne]

theorem columns_maskExpr (rule : MaskingRule) (e : Expr) :
    (rule.maskExpr data e).columns = data.maskedColumns e := by
  rw [MaskingBundleData.maskedColumns]
  cases hmasks : data.masks e with
  | none => rw [maskExpr_of_none rule hmasks]
  | some mask =>
    obtain ⟨c, policy⟩ := mask
    obtain ⟨hselected, hpolicy⟩ := selected_of_masks hmasks
    have hne := MaskingBundleData.policyOf_ne_noop hpolicy
    rw [maskExpr_of_masks rule hmasks, applyMask_eq rule hselected hne, Expr.columns,
      columns_maskInner hne]

/-- A selection holds no plan, and neither does its mask. -/
theorem occurrences_maskExpr (rule : MaskingRule) (e : Expr) :
    (rule.maskExpr data e).occurrences = e.occurrences := by
  cases hmasks : data.masks e with
  | none => rw [maskExpr_of_none rule hmasks]
  | some mask =>
    obtain ⟨c, policy⟩ := mask
    obtain ⟨hselected, hpolicy⟩ := selected_of_masks hmasks
    have hempty : e.occurrences = [] := by
      obtain rfl | ⟨name, rfl⟩ := selected_cases hselected <;> rfl
    rw [maskExpr_of_masks rule hmasks,
      applyMask_eq rule hselected (MaskingBundleData.policyOf_ne_noop hpolicy), Expr.occurrences,
      occurrences_maskInner hempty, hempty]

/-- The field stays as it is. -/
theorem maskedField_eq_iff {planner : Planner} (htypes : planner.Types fieldOf) (schema : DFSchema)
    (e : Expr) :
    data.maskedField fieldOf schema e = (fieldOf schema e).shape ↔
      ∀ c policy, data.masks e = some (c, policy) → KeepsName e ∧
        (fieldOf schema e).field.dataType =
          MaskingBundleData.maskType fieldOf schema e policy := by
  rw [MaskingBundleData.maskedField]
  cases hmasks : data.masks e with
  | none => exact iff_of_true rfl fun _ _ h => by cases h
  | some mask =>
    obtain ⟨c, policy⟩ := mask
    obtain ⟨hselected, -⟩ := selected_of_masks hmasks
    have hname : (fieldOf schema e).fieldName = ⟨none, c.name⟩ ↔ KeepsName e := by
      obtain rfl | ⟨name, rfl⟩ := selected_cases hselected
      · rw [htypes.column, KeepsName]
        simp
      · rw [show (fieldOf schema (.alias (.column c) name)).fieldName = ⟨none, name⟩ from
          congrArg Prod.fst (htypes.aliased schema (.column c) name), KeepsName]
        simp
    rw [DFField.shape, Prod.mk.injEq, eq_comm, hname, eq_comm]
    constructor
    · intro h c' policy' hsome
      obtain ⟨-, rfl⟩ := Prod.mk.inj (Option.some.inj hsome)
      exact h
    · intro h
      exact h c policy rfl

/-! ### One walk -/

theorem visit_of_no_policy {rule : MaskingRule} (h : ∀ e, data.masks e = none) (p : LogicalPlan)
    (changed : Bool) : rule.visit data p changed = (.ok (.descend p), changed) := by
  cases p with
  | projection expr input schema =>
    have hnone : expr.any (fun e => (MaskingRule.policyFor data e).isSome) = false := by
      simp [data.policyFor_eq_masks, h]
    simp only [MaskingRule.visit, hnone, Bool.false_eq_true, if_false, ite_self]
  | _ => rfl

/-- What is rewritten is walked; without policies the walk leaves everything as it is. -/
theorem walk_of_rewrite {rule : MaskingRule} (hparse : rule.parseBundle = some data)
    {result : Transformed} (h : rule.rewrite plan = .ok result) :
    ∃ changed, transformDown (rule.visit data) plan false = (.ok result.data, changed) := by
  obtain ⟨hempty, hsame⟩ | hrun := MaskingRule.rewrite_cases hparse h
  · have hmasks (e : Expr) : data.masks e = none := by
      rw [MaskingBundleData.masks, Option.bind_eq_none_iff]
      intro c _
      rw [MaskingBundleData.policyOf, Dict.isEmpty_iff.mp hempty c.name]
      rfl
    exact ⟨false, hsame ▸ transformDown_rests fun q _ => visit_of_no_policy hmasks q false⟩
  · exact hrun

/-- A projection that is masked, with the planner's schema or, if there was nothing to mask, its
own. -/
theorem tracked_masked {rule : MaskingRule} (htypes : rule.planner.Types fieldOf) {expr : List Expr}
    {input : LogicalPlan} {schema schema' : DFSchema} {kids : List LogicalPlan}
    (hmarker : input.subtreeHasApprovalMarker = true)
    (hvalid : Valid lookup fieldOf (.projection expr input schema))
    (hschema : rule.planner.projectionSchema (expr.map (rule.maskExpr data)) input = .ok schema' ∨
      expr.map (rule.maskExpr data) = expr ∧ schema' = schema)
    (hkids : List.Forall₂ (fun p p' => Valid lookup fieldOf p →
      Tracked lookup (data.maskedShape fieldOf) (fun _ => False)
        (fun q => Finds lookup (data.maskedShape fieldOf) (data.maskedReads q) q) p p') [input] kids) :
    Tracked lookup (data.maskedShape fieldOf) (fun _ => False)
      (fun q => Finds lookup (data.maskedShape fieldOf) (data.maskedReads q) q)
      (.projection expr input schema)
      ((LogicalPlan.projection (expr.map (rule.maskExpr data)) input schema').withInputs kids) := by
  have hfields : schema' = (expr.map (rule.maskExpr data)).map (fieldOf input.schema) := by
    obtain hplanned | ⟨hsame, rfl⟩ := hschema
    · exact htypes.projection hplanned
    · rw [hsame, hvalid.typed expr input schema' .root]
  have htracked := tracked_inputs hvalid hkids
  refine tracked_descend id htracked rfl rfl ?_ ?_ ?_
  · obtain ⟨kid, rfl, -⟩ := exists_of_forall₂_singleton htracked
    rw [LogicalPlan.withInputs, LogicalPlan.shape, LogicalPlan.schema, hfields, List.map_map,
      List.map_map, MaskingBundleData.maskedShape, LogicalPlan.shownBy_of_none rfl]
    simp only [if_pos hmarker]
    exact List.map_congr_left fun e _ => shape_maskExpr htypes input.schema e
  · intro e he
    obtain ⟨e, hmem, rfl⟩ := List.mem_map.mp he
    rw [ExprResolved, occurrences_maskExpr]
    exact (resolved_iff.mp hvalid.resolved).2.1 e hmem
  · rw [MaskingBundleData.maskedReads, if_pos hmarker, LogicalPlan.reads, LogicalPlan.exprs,
      List.flatMap_map]
    simp only [columns_maskExpr]

/-- Any other node. -/
theorem tracked_unmasked {plan : LogicalPlan} {kids : List LogicalPlan}
    (hmasks : ¬ MaskingRule.Masks plan) (hvalid : Valid lookup fieldOf plan)
    (hkids : List.Forall₂ (fun p p' => Valid lookup fieldOf p →
      Tracked lookup (data.maskedShape fieldOf) (fun _ => False)
        (fun q => Finds lookup (data.maskedShape fieldOf) (data.maskedReads q) q) p p')
      plan.inputs kids) :
    Tracked lookup (data.maskedShape fieldOf) (fun _ => False)
      (fun q => Finds lookup (data.maskedShape fieldOf) (data.maskedReads q) q) plan
      (plan.withInputs kids) := by
  have hreads : data.maskedReads plan = plan.reads := by
    cases plan with
    | projection expr input schema => exact if_neg hmasks
    | _ => rfl
  refine tracked_walked hvalid id hkids (fun p hp => ?_) (fun hnone => ?_) (by rw [hreads])
  · rw [MaskingBundleData.maskedShape, MaskingBundleData.maskedShape,
      LogicalPlan.shownBy_of_lender hp, LogicalPlan.shape_of_lender hp]
  · rw [MaskingBundleData.maskedShape, LogicalPlan.shownBy_of_none hnone]
    cases plan with
    | projection expr input schema => exact if_neg hmasks
    | _ => rfl

theorem tracked_of_masks {rule : MaskingRule} (htypes : rule.planner.Types fieldOf)
    {plan' : LogicalPlan} {changed changed' : Bool}
    (h : transformDown (rule.visit data) plan changed = (.ok plan', changed'))
    (hvalid : Valid lookup fieldOf plan) :
    Tracked lookup (data.maskedShape fieldOf) (fun _ => False)
      (fun q => Finds lookup (data.maskedShape fieldOf) (data.maskedReads q) q) plan plan' := by
  refine transformDown_relates (Q := fun p p' => Valid lookup fieldOf p →
    Tracked lookup (data.maskedShape fieldOf) (fun _ => False)
      (fun q => Finds lookup (data.maskedShape fieldOf) (data.maskedReads q) q) p p') ?_ ?_ h hvalid
  · intro p s node s' hvisit
    by_cases hmasks : MaskingRule.Masks p
    · cases p with
      | projection expr input schema =>
        obtain ⟨_, hdescend, -⟩ := MaskingRule.visit_masks hmasks hvisit
        cases hdescend
      | _ => exact absurd hmasks id
    · rw [MaskingRule.visit_of_not_masks hmasks] at hvisit
      cases (Prod.mk.inj hvisit).1
  · intro p s node s' kids hvisit hkids hvalid
    by_cases hmasks : MaskingRule.Masks p
    · cases p with
      | projection expr input schema =>
        obtain ⟨schema', hdescend, hschema⟩ := MaskingRule.visit_masks hmasks hvisit
        obtain rfl := Visit.descend.inj hdescend
        exact tracked_masked htypes hmasks hvalid hschema hkids
      | _ => exact absurd hmasks id
    · rw [MaskingRule.visit_of_not_masks hmasks] at hvisit
      obtain rfl := Visit.descend.inj (Except.ok.inj (Prod.mk.inj hvisit).1)
      exact tracked_unmasked hmasks hvalid hkids

/-- Under the masks the root shows what it did. -/
theorem maskedShape_eq_iff {planner : Planner} (htypes : planner.Types fieldOf)
    (hvalid : Valid lookup fieldOf plan) :
    data.maskedShape fieldOf plan = plan.shape ↔
      ∀ expr input schema, plan.shownBy = .projection expr input schema →
        input.subtreeHasApprovalMarker = true → ∀ e ∈ expr, ∀ c policy,
          data.masks e = some (c, policy) → KeepsName e ∧
            (fieldOf input.schema e).field.dataType =
              MaskingBundleData.maskType fieldOf input.schema e policy := by
  rw [MaskingBundleData.maskedShape]
  split
  · rename_i expr input schema hshown
    have hshape : plan.shape = expr.map fun e => (fieldOf input.schema e).shape := by
      have hwithin := plan.within_shownBy
      rw [hshown] at hwithin
      rw [← plan.shape_shownBy, hshown, LogicalPlan.shape, LogicalPlan.schema,
        hvalid.typed expr input schema hwithin, List.map_map]
      rfl
    have hexpr : expr.map (data.maskedField fieldOf input.schema) = plan.shape ↔
        ∀ e ∈ expr, ∀ c policy, data.masks e = some (c, policy) → KeepsName e ∧
          (fieldOf input.schema e).field.dataType =
            MaskingBundleData.maskType fieldOf input.schema e policy := by
      rw [hshape, List.map_inj_left]
      exact forall₂_congr fun e _ => maskedField_eq_iff htypes input.schema e
    constructor
    · intro h expr' input' schema' hshown' hmarker
      obtain ⟨rfl, rfl, -⟩ := LogicalPlan.projection.inj (hshown.symm.trans hshown')
      rw [if_pos hmarker] at h
      exact hexpr.mp h
    · intro h
      split
      · rename_i hmarker
        exact hexpr.mpr (h expr input schema hshown hmarker)
      · rfl
  · rename_i hother
    exact iff_of_true rfl fun expr input schema hshown => absurd hshown (hother expr input schema)

theorem MaskingRule.preserves_iff {rule : MaskingRule} (htypes : rule.planner.Types fieldOf)
    {result : Transformed} (hvalid : Valid lookup fieldOf plan) (h : rule.rewrite plan = .ok result) :
    Preserved lookup plan result.data ↔
      ∀ data, rule.parseBundle = some data → SurvivesMasks lookup fieldOf data plan := by
  cases hparse : rule.parseBundle with
  | none =>
    rw [MaskingRule.rewrite, hparse] at h
    obtain rfl := Except.ok.inj h
    exact iff_of_true hvalid.preserved fun _ hdata => by cases hdata
  | some data =>
    obtain ⟨changed, hrun⟩ := walk_of_rewrite hparse h
    rw [(tracked_of_masks htypes hrun hvalid).preserved_iff, maskedShape_eq_iff htypes hvalid]
    simp only [reached_iff_within fun _ hfalse => absurd hfalse id]
    constructor
    · intro hkept data' hdata
      obtain rfl := Option.some.inj hdata
      exact ⟨hkept.1, hkept.2⟩
    · intro hkept
      have hsurvives := hkept data rfl
      exact ⟨hsurvives.root, hsurvives.reads⟩

/-! ### The four rules -/

/-- **When the rules keep a valid plan well formed**: the contract check if it approves, or the
denial goes unnoticed; the row filter if its columns are shown wherever it is put; the masking rule
if the masks go unnoticed; and the noise rule always. -/
theorem rules_preserve_iff (hvalid : Valid lookup fieldOf plan) :
    (∀ (rule : ContractCheckRule) s s' result, rule.rewrite plan s = (.ok result, s') →
      (Preserved lookup plan result.data ↔
        rule.Approves ∨ ContractCheckRule.SurvivesDenial lookup plan)) ∧
    (∀ (rule : RowFilterRule) result, rule.rewrite plan = .ok result →
      (Preserved lookup plan result.data ↔
        ∀ filterExpr, rule.Puts filterExpr → RowFilterRule.FilterResolves lookup filterExpr plan)) ∧
    (∀ (rule : MaskingRule) result, rule.planner.Types fieldOf → rule.rewrite plan = .ok result →
      (Preserved lookup plan result.data ↔
        ∀ data, rule.parseBundle = some data → SurvivesMasks lookup fieldOf data plan)) ∧
    ∀ (rule : DPNoiseRule) s s' result, rule.rewrite plan s = (.ok result, s') →
      Preserved lookup plan result.data :=
  ⟨fun _ _ _ _ h => ContractCheckRule.preserves_iff hvalid h,
    fun _ _ h => RowFilterRule.preserves_iff hvalid h,
    fun _ _ htypes h => MaskingRule.preserves_iff htypes hvalid h,
    fun _ _ _ _ h => DPNoiseRule.preserves hvalid h⟩

end Masking

/-! ### An address under an alias -/

/-- By name, and by qualifier if the reference has one. -/
def findsByName : Lookup := fun inputs c => ∃ fields ∈ inputs, ∃ f ∈ fields, c.finds f = true

def plainType (schema : DFSchema) : Expr → DataType
  | .column c => ((schema.find? fun f => c.finds f.fieldName).map (·.field.dataType)).getD .utf8
  | .alias expr _ => plainType schema expr
  | .cast _ dataType => dataType
  | .literal (.int64 _) => .int64
  | _ => .utf8

def plainName : Expr → FieldName
  | .column c => ⟨c.relation, c.name⟩
  | .alias _ name => ⟨none, name⟩
  | _ => ⟨none, "expr"⟩

def plainField : FieldOf := fun schema e =>
  ⟨(plainName e).qualifier, ⟨(plainName e).name, plainType schema e, true⟩⟩

def plainPlanner : Planner where
  filterError := fun _ _ => none
  projectionSchema := fun exprs input => .ok (exprs.map (plainField input.schema))
  debug := fun _ => ""

theorem plainPlanner_types : plainPlanner.Types plainField where
  projection h := (Except.ok.inj h).symm
  column _ _ := rfl
  aliased _ _ _ := rfl
  text _ _ := rfl
  cast _ _ _ := rfl

/-- The contract that hashes `email`. -/
def hashRule : MaskingRule := {MaskingRule.emailRule with planner := plainPlanner}

theorem hashRule_parseBundle : hashRule.parseBundle = some MaskingRule.emailData :=
  MaskingRule.emailRule_parseBundle

def usersScan : LogicalPlan :=
  .tableScan "users" [⟨some "users", ⟨"email", .utf8, true⟩⟩] []

def usersApproved : LogicalPlan :=
  .contractApproved "users-contract" "acme" usersScan [⟨some "users", ⟨"email", .utf8, true⟩⟩]

/-- `SELECT users.email AS name`, over the scan or over its marker. -/
def selectEmail (name : String) (input : LogicalPlan) : LogicalPlan :=
  .projection [.alias (.column ⟨some "users", "email"⟩) name] input [⟨none, ⟨name, .utf8, true⟩⟩]

theorem valid_usersScan : Valid findsByName plainField usersScan where
  resolved := by
    rw [resolved_iff]
    simp [NodeResolved, Finds, usersScan, LogicalPlan.isTableScan, LogicalPlan.exprs,
      LogicalPlan.inputs]
  typed expr input schema hwithin := by
    cases hwithin with
    | input hp => cases hp

theorem valid_usersApproved : Valid findsByName plainField usersApproved where
  resolved := resolved_over rfl rfl valid_usersScan.resolved
  typed expr input schema hwithin := by
    cases hwithin with
    | input hp hwithin =>
      obtain rfl := List.mem_singleton.mp hp
      exact valid_usersScan.typed expr input schema hwithin

theorem valid_selectEmail (name : String) (input : LogicalPlan)
    (hschema : input.schema = [⟨some "users", ⟨"email", .utf8, true⟩⟩])
    (hvalid : Valid findsByName plainField input) :
    Valid findsByName plainField (selectEmail name input) where
  resolved := by
    rw [resolved_iff]
    refine ⟨?_, by simp [selectEmail, LogicalPlan.exprs, ExprResolved, Expr.occurrences], ?_⟩
    · simp [NodeResolved, Finds, selectEmail, LogicalPlan.reads, LogicalPlan.exprs,
        LogicalPlan.inputs, Expr.columns, LogicalPlan.shape, hschema, findsByName, DFField.shape,
        DFField.fieldName, Column.finds]
    · simpa [selectEmail, LogicalPlan.inputs] using hvalid.resolved
  typed expr input' schema hwithin := by
    cases hwithin with
    | root =>
      rw [hschema]
      rfl
    | input hp hwithin =>
      obtain rfl := List.mem_singleton.mp hp
      exact hvalid.typed expr input' schema hwithin

theorem hashRule_rewrite (plan plan' : LogicalPlan) (changed : Bool)
    (h : transformDown (hashRule.visit MaskingRule.emailData) plan false = (.ok plan', changed)) :
    hashRule.rewrite plan = .ok ⟨plan', changed⟩ := by
  rw [MaskingRule.rewrite, hashRule_parseBundle]
  simp only [MaskingRule.mask]
  rw [if_neg (by decide), h]

/-- The hash of `email` is text and goes by the name `email`. -/
theorem rules_preserve_hashed :
    ∃ result, hashRule.rewrite (selectEmail "email" usersApproved) = .ok result ∧
      Preserved findsByName (selectEmail "email" usersApproved) result.data := by
  have hrun := hashRule_rewrite (selectEmail "email" usersApproved) _ _ rfl
  have hvalid := valid_selectEmail "email" usersApproved rfl valid_usersApproved
  refine ⟨_, hrun, ((rules_preserve_iff hvalid).2.2.1 hashRule _ plainPlanner_types hrun).mpr ?_⟩
  intro data hparse
  obtain rfl := Option.some.inj (hashRule_parseBundle.symm.trans hparse)
  constructor
  · intro expr input schema hshown _ e he c policy hmasks
    obtain ⟨rfl, rfl, -⟩ := LogicalPlan.projection.inj hshown
    obtain rfl := List.mem_singleton.mp he
    obtain ⟨-, rfl⟩ := Prod.mk.inj (Option.some.inj hmasks)
    exact ⟨rfl, rfl⟩
  · intro q hwithin
    cases hwithin with
    | root => exact fun _ c hc => ⟨_, List.mem_singleton_self _, _, List.mem_singleton_self _, by
        obtain rfl := List.mem_singleton.mp hc
        decide⟩
    | input hp hwithin =>
      obtain rfl := List.mem_singleton.mp hp
      cases hwithin with
      | root => exact fun _ c hc => by cases hc
      | input hp hwithin =>
        obtain rfl := List.mem_singleton.mp hp
        cases hwithin with
        | root => exact fun hscan => by cases hscan
        | input hp => cases hp

/-- A bundle without bytes: everything is denied. -/
def noBundleCheck : ContractCheckRule where
  serde := hashRule.serde
  bundle := ⟨[], "users-contract", "acme"⟩
  principal := ⟨"user:alice", "analytics", "gold", "internal"⟩

/-- **Lost names**: `SELECT users.email AS e` shows `email` once it is masked, and over a denied scan
`users.email` is not found. -/
theorem names_lost :
    (∃ result, Valid findsByName plainField (selectEmail "e" usersApproved) ∧
      hashRule.planner.Types plainField ∧
      hashRule.rewrite (selectEmail "e" usersApproved) = .ok result ∧
      result.data.shape = [(⟨none, "email"⟩, .utf8)] ∧
      ¬ Preserved findsByName (selectEmail "e" usersApproved) result.data) ∧
    ∃ result s', Valid findsByName plainField (selectEmail "e" usersScan) ∧
      noBundleCheck.rewrite (selectEmail "e" usersScan) ⟨[], [], ∅, false⟩ = (.ok result, s') ∧
      ¬ Preserved findsByName (selectEmail "e" usersScan) result.data := by
  constructor
  · refine ⟨_, valid_selectEmail "e" _ rfl valid_usersApproved, plainPlanner_types,
      hashRule_rewrite _ _ _ rfl, rfl, fun h => absurd h.shape ?_⟩
    decide
  · refine ⟨_, _, valid_selectEmail "e" _ rfl valid_usersScan, rfl, fun h => ?_⟩
    obtain ⟨fields, hfields, f, hf, hfinds⟩ := (resolved_iff.mp h.resolved).1 rfl
      ⟨some "users", "email"⟩ (List.mem_singleton_self _)
    obtain rfl := List.mem_singleton.mp hfields
    obtain rfl := List.mem_singleton.mp hf
    exact absurd hfinds (by decide)

end Griot.Logical
