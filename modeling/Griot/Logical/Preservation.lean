import Griot.Logical.Fixpoint
import Griot.Logical.Resolution
import Griot.Sql.Grammar

/-! What the contract check, the row filter and the noise leave of a valid plan.

Markers and noise show what is below them, so they leave it well formed. An emptied scan has
lost its qualifiers, and all its fields if two have one name; a filter may read a column that
is not shown where it is put. Otherwise these rules leave a valid plan well formed too. -/
namespace Griot.Logical

open Lib Sql

section Rules
variable {lookup : Lookup} {fieldOf : FieldOf} {plan : LogicalPlan}

/-! ### Nodes put over a plan -/

/-- A node that reads nothing is resolved if its input is. -/
theorem resolved_over {node : LogicalPlan} (hexprs : node.exprs = [])
    (hinputs : node.inputs = [plan]) (h : Resolved lookup plan) : Resolved lookup node := by
  rw [resolved_iff, NodeResolved, LogicalPlan.reads, hexprs, hinputs]
  simpa [Finds] using h

/-- Walks that leave every field as it is. -/
theorem tracked_over {shows : LogicalPlan → Shape} {stop : LogicalPlan → Prop} {node : LogicalPlan}
    (hshape : node.shape = shows plan) (h : Resolved lookup node) :
    Tracked lookup shows stop (fun _ => True) plan node :=
  ⟨hshape, iff_of_true h fun _ _ => trivial⟩

/-- A node walked through where no field changes. -/
theorem tracked_unchanged {stop ok : LogicalPlan → Prop} {kids : List LogicalPlan}
    (hvalid : Valid lookup fieldOf plan) (hstop : ¬ stop plan) (hok : ok plan)
    (hkids : List.Forall₂ (fun p p' => Valid lookup fieldOf p →
      Tracked lookup LogicalPlan.shape stop ok p p') plan.inputs kids) :
    Tracked lookup LogicalPlan.shape stop ok plan (plan.withInputs kids) :=
  tracked_walked hvalid hstop hkids (fun _ => LogicalPlan.shape_of_lender) (fun _ => rfl)
    (iff_of_true hok (resolved_iff.mp hvalid.resolved).1)

/-! ### The contract check -/

namespace ContractCheckRule

/-- What a plan shows once the scans are emptied. -/
def emptiedShape (plan : LogicalPlan) : Shape :=
  if plan.shownBy.isTableScan then (emptyRelationFromSchema plan.shownBy.schema).shape else plan.shape

/-- A denial goes unnoticed: the fields of the root are no scan's, or have no qualifiers and
distinct names, and no node reads a name that an emptied scan does not show. -/
structure SurvivesDenial (lookup : Lookup) (plan : LogicalPlan) : Prop where
  root : plan.shownBy.isTableScan = true →
    (∀ f ∈ plan.shownBy.schema, f.qualifier = none) ∧
      (plan.shownBy.schema.map fun f => f.field.name).Nodup
  reads : ∀ q, Within q plan → Finds lookup emptiedShape q.reads q

theorem shape_emptyRelation_iff (schema : DFSchema) :
    (emptyRelationFromSchema schema).shape = schema.map DFField.shape ↔
      (∀ f ∈ schema, f.qualifier = none) ∧ (schema.map fun f => f.field.name).Nodup := by
  have hnames : ((schema.map fun f : DFField => {f with qualifier := none}).map
      fun f => f.field.name) = schema.map fun f => f.field.name := by
    rw [List.map_map]
    rfl
  by_cases hnodup : (schema.map fun f => f.field.name).Nodup
  · have hshape : (emptyRelationFromSchema schema).shape =
        schema.map fun f => DFField.shape {f with qualifier := none} := by
      simp only [LogicalPlan.shape, emptyRelationFromSchema, LogicalPlan.schema, hnames, if_pos hnodup,
        List.map_map, Function.comp_def]
    rw [hshape, List.map_inj_left, and_iff_left hnodup]
    refine forall₂_congr fun f _ => ?_
    simp [DFField.shape, DFField.fieldName, eq_comm]
  · refine iff_of_false (fun h => hnodup ?_) fun h => hnodup h.2
    have hempty : (emptyRelationFromSchema schema).shape = [] := by
      simp only [LogicalPlan.shape, emptyRelationFromSchema, LogicalPlan.schema, hnames,
        if_neg hnodup, List.map_nil]
    rw [hempty] at h
    obtain rfl := List.map_eq_nil_iff.mp h.symm
    exact List.nodup_nil

theorem resolved_emptyRelation (schema : DFSchema) :
    Resolved lookup (emptyRelationFromSchema schema) := by
  rw [resolved_iff]
  simp [NodeResolved, Finds, LogicalPlan.reads, emptyRelationFromSchema, LogicalPlan.exprs,
    LogicalPlan.inputs]

theorem inputs_of_scan {scan : LogicalPlan} (h : scan.isTableScan = true) : scan.inputs = [] := by
  cases scan with
  | tableScan => rfl
  | _ => cases h

theorem shownBy_of_scan {scan : LogicalPlan} (h : scan.isTableScan = true) : scan.shownBy = scan := by
  cases scan with
  | tableScan => rfl
  | _ => cases h

/-- Markers show what their scans show. -/
theorem tracked_of_approves {rule : ContractCheckRule} (happroves : rule.Approves) {s s' : CheckState}
    {result : Transformed} (h : rule.rewrite plan s = (.ok result, s'))
    (hvalid : Valid lookup fieldOf plan) :
    Tracked lookup LogicalPlan.shape (fun _ => False) (fun _ => True) plan result.data := by
  refine transformDown_relates (Q := fun p p' => Valid lookup fieldOf p →
    Tracked lookup LogicalPlan.shape (fun _ => False) (fun _ => True) p p') ?_ ?_
    (transformDown_of_rewrite h) hvalid
  · intro p s node s' hvisit hvalid
    obtain ⟨hscan, tableName, hjump⟩ | ⟨-, hdescend⟩ := rule.visit_cases hvisit
    · obtain rfl := Visit.jump.inj hjump
      obtain ⟨-, hnode, -⟩ | ⟨hdenied, -⟩ := rule.evaluateScan_cases p tableName
      · rw [hnode]
        exact tracked_over rfl (resolved_over rfl rfl hvalid.resolved)
      · exact absurd happroves hdenied
    · cases hdescend
  · intro p s node s' kids hvisit hkids hvalid
    obtain ⟨-, _, hjump⟩ | ⟨-, hdescend⟩ := rule.visit_cases hvisit
    · cases hjump
    · obtain rfl := Visit.descend.inj hdescend
      exact tracked_unchanged hvalid id trivial hkids

theorem tracked_of_denied {rule : ContractCheckRule} (hdenied : ¬ rule.Approves) {s s' : CheckState}
    {result : Transformed} (h : rule.rewrite plan s = (.ok result, s'))
    (hvalid : Valid lookup fieldOf plan) :
    Tracked lookup emptiedShape (·.isTableScan = true) (fun q => Finds lookup emptiedShape q.reads q)
      plan result.data := by
  refine transformDown_relates (Q := fun p p' => Valid lookup fieldOf p →
    Tracked lookup emptiedShape (·.isTableScan = true)
      (fun q => Finds lookup emptiedShape q.reads q) p p') ?_ ?_ (transformDown_of_rewrite h) hvalid
  · intro p s node s' hvisit _
    obtain ⟨hscan, tableName, hjump⟩ | ⟨-, hdescend⟩ := rule.visit_cases hvisit
    · obtain rfl := Visit.jump.inj hjump
      obtain ⟨happroves, -⟩ | ⟨-, hnode, -⟩ := rule.evaluateScan_cases p tableName
      · exact absurd happroves hdenied
      · rw [hnode]
        refine ⟨?_, iff_of_true (resolved_emptyRelation p.schema) (forall_reached.mpr ⟨?_, ?_⟩)⟩
        · rw [emptiedShape, shownBy_of_scan hscan, if_pos hscan]
        · exact fun hnot => absurd hscan (by simp [hnot])
        · exact fun hnot => absurd hscan hnot
    · cases hdescend
  · intro p s node s' kids hvisit hkids hvalid
    obtain ⟨-, _, hjump⟩ | ⟨hscan, hdescend⟩ := rule.visit_cases hvisit
    · cases hjump
    · obtain rfl := Visit.descend.inj hdescend
      refine tracked_walked hvalid (by simp [hscan]) hkids (fun q hq => ?_) (fun hnone => ?_) Iff.rfl
      · rw [emptiedShape, emptiedShape, LogicalPlan.shownBy_of_lender hq,
          LogicalPlan.shape_of_lender hq]
      · rw [emptiedShape, LogicalPlan.shownBy_of_none hnone, if_neg (by simp [hscan])]

theorem preserves_iff {rule : ContractCheckRule} {s s' : CheckState} {result : Transformed}
    (hvalid : Valid lookup fieldOf plan) (h : rule.rewrite plan s = (.ok result, s')) :
    Preserved lookup plan result.data ↔ rule.Approves ∨ SurvivesDenial lookup plan := by
  by_cases happroves : rule.Approves
  · rw [(tracked_of_approves happroves h hvalid).preserved_iff]
    exact iff_of_true ⟨rfl, fun _ _ => trivial⟩ (.inl happroves)
  · rw [(tracked_of_denied happroves h hvalid).preserved_iff, or_iff_right happroves]
    have hroot : emptiedShape plan = plan.shape ↔ (plan.shownBy.isTableScan = true →
        (∀ f ∈ plan.shownBy.schema, f.qualifier = none) ∧
          (plan.shownBy.schema.map fun f => f.field.name).Nodup) := by
      rw [emptiedShape, ← plan.shape_shownBy]
      split
      · rename_i hscan
        rw [← shape_emptyRelation_iff, imp_iff_right hscan]
        rfl
      · rename_i hscan
        exact iff_of_true rfl fun hscan' => absurd hscan' hscan
    simp only [reached_iff_within fun _ => inputs_of_scan, hroot]
    exact ⟨fun h => ⟨h.1, h.2⟩, fun h => ⟨h.root, h.reads⟩⟩

end ContractCheckRule

/-! ### The row filter -/

namespace RowFilterRule

/-- Where the filter is put, the columns it reads are shown. -/
def FilterResolves (lookup : Lookup) (filterExpr : Expr) (plan : LogicalPlan) : Prop :=
  ∀ q, Reached IsMarker q plan → IsMarker q →
    ∀ c ∈ filterExpr.columns, lookup [q.shape.map Prod.fst] c

/-- A translated filter has no subqueries. -/
theorem occurrences_of_translated (engine : SqlEngine) :
    ∀ sqlExpr expr, sqlExprToDfExpr engine sqlExpr = .ok expr → expr.occurrences = []
  | .binaryOp left op right, expr, h => by
    rw [sqlExprToDfExpr] at h
    obtain ⟨dfOp, -, h⟩ := bind_eq_ok.mp h
    obtain ⟨leftExpr, hleft, h⟩ := bind_eq_ok.mp h
    obtain ⟨rightExpr, hright, h⟩ := bind_eq_ok.mp h
    obtain rfl := Except.ok.inj h
    rw [Expr.occurrences, occurrences_of_translated engine left leftExpr hleft,
      occurrences_of_translated engine right rightExpr hright]
    rfl
  | .not inner, expr, h
  | .isNull inner, expr, h
  | .isNotNull inner, expr, h => by
    rw [sqlExprToDfExpr] at h
    obtain ⟨innerExpr, hinner, h⟩ := bind_eq_ok.mp h
    obtain rfl := Except.ok.inj h
    simp [Expr.not, Expr.isNull, Expr.isNotNull, Expr.occurrences, Expr.allOccurrences,
      occurrences_of_translated engine inner innerExpr hinner]
  | .inList inner list negated, expr, h => by
    rw [sqlExprToDfExpr] at h
    obtain ⟨innerExpr, hinner, h⟩ := bind_eq_ok.mp h
    obtain ⟨listExprs, hlist, h⟩ := bind_eq_ok.mp h
    obtain rfl := Except.ok.inj h
    rw [Expr.inList, Expr.occurrences, Expr.allOccurrences,
      occurrences_of_translated engine inner innerExpr hinner, List.nil_append]
    exact listOccurrences list listExprs hlist
  | .like negated _ inner pattern _, expr, h => by
    rw [sqlExprToDfExpr] at h
    obtain ⟨innerExpr, hinner, h⟩ := bind_eq_ok.mp h
    obtain ⟨patternExpr, hpattern, h⟩ := bind_eq_ok.mp h
    obtain rfl := Except.ok.inj h
    rw [Expr.occurrences, occurrences_of_translated engine inner innerExpr hinner,
      occurrences_of_translated engine pattern patternExpr hpattern]
    rfl
  | .identifier _ _, expr, h => by
    obtain rfl := Except.ok.inj h
    rfl
  | .value v, expr, h => by
    obtain ⟨value, -, rfl⟩ := literalToDf_ok_iff.mp h
    rfl
  | .nested sqlExpr, expr, h => occurrences_of_translated engine sqlExpr expr h
  | .other _, _, h => absurd h (by simp [sqlExprToDfExpr])
where
  listOccurrences : ∀ sqlExprs exprs, sqlExprToDfExpr.listToDf engine sqlExprs = .ok exprs →
      Expr.allOccurrences exprs = []
    | [], exprs, h => by
      obtain rfl := Except.ok.inj h
      rfl
    | e :: es, exprs, h => by
      rw [sqlExprToDfExpr.listToDf] at h
      obtain ⟨expr, hexpr, h⟩ := bind_eq_ok.mp h
      obtain ⟨rest, hrest, h⟩ := bind_eq_ok.mp h
      obtain rfl := Except.ok.inj h
      rw [Expr.allOccurrences, occurrences_of_translated engine e expr hexpr,
        listOccurrences es rest hrest]
      rfl

theorem translated_of_parseFilterExpr {rule : RowFilterRule} {text : String} {filterExpr : Expr}
    (h : rule.parseFilterExpr text = .ok filterExpr) :
    ∃ sqlExpr, sqlExprToDfExpr rule.engine sqlExpr = .ok filterExpr := by
  rw [parseFilterExpr] at h
  split at h
  · rename_i expr hexpr
    obtain rfl := Except.ok.inj h
    rw [filterToDf] at hexpr
    obtain ⟨sqlExpr, -, hexpr⟩ := bind_eq_ok.mp hexpr
    split at hexpr
    · rename_i hok
      obtain rfl := Except.ok.inj hexpr
      exact ⟨sqlExpr, hok⟩
    · cases hexpr
  · cases h

theorem tracked_of_puts {rule : RowFilterRule} {filterExpr : Expr} (hputs : rule.Puts filterExpr)
    {plan' : LogicalPlan} {changed changed' : Bool}
    (h : transformDown (rule.visit filterExpr) plan changed = (.ok plan', changed'))
    (hvalid : Valid lookup fieldOf plan) :
    Tracked lookup LogicalPlan.shape IsMarker
      (fun q => IsMarker q → ∀ c ∈ filterExpr.columns, lookup [q.shape.map Prod.fst] c) plan plan' := by
  have hnested : ExprResolved lookup filterExpr := by
    obtain ⟨data, text, -, -, -, hexpr⟩ := hputs
    obtain ⟨sqlExpr, htranslated⟩ := translated_of_parseFilterExpr hexpr
    rw [ExprResolved, occurrences_of_translated rule.engine sqlExpr filterExpr htranslated]
    simp
  refine transformDown_relates (Q := fun p p' => Valid lookup fieldOf p →
    Tracked lookup LogicalPlan.shape IsMarker
      (fun q => IsMarker q → ∀ c ∈ filterExpr.columns, lookup [q.shape.map Prod.fst] c) p p')
    ?_ ?_ h hvalid
  · intro p s node s' hvisit hvalid
    obtain ⟨hmarker, hjump⟩ | ⟨-, hdescend⟩ := rule.visit_cases filterExpr hvisit
    · obtain rfl := Visit.jump.inj hjump
      refine ⟨rfl, ?_⟩
      rw [resolved_iff, forall_reached]
      have hreads : NodeResolved lookup (.filter filterExpr p) ↔
          ∀ c ∈ filterExpr.columns, lookup [p.shape.map Prod.fst] c := by
        simp [NodeResolved, Finds, LogicalPlan.isTableScan, LogicalPlan.reads, LogicalPlan.exprs,
          LogicalPlan.inputs]
      rw [hreads]
      constructor
      · intro h
        exact ⟨fun _ => h.1, fun hnot => absurd hmarker hnot⟩
      · intro h
        refine ⟨h.1 hmarker, fun e he => ?_, fun q hq => ?_⟩
        · obtain rfl := List.mem_singleton.mp he
          exact hnested
        · obtain rfl := List.mem_singleton.mp hq
          exact hvalid.resolved
    · cases hdescend
  · intro p s node s' kids hvisit hkids hvalid
    obtain ⟨-, hjump⟩ | ⟨hmarker, hdescend⟩ := rule.visit_cases filterExpr hvisit
    · cases hjump
    · obtain rfl := Visit.descend.inj hdescend
      exact tracked_unchanged hvalid hmarker (fun hp => absurd hp hmarker) hkids

theorem preserves_iff {rule : RowFilterRule} {result : Transformed} (hvalid : Valid lookup fieldOf plan)
    (h : rule.rewrite plan = .ok result) :
    Preserved lookup plan result.data ↔
      ∀ filterExpr, rule.Puts filterExpr → FilterResolves lookup filterExpr plan := by
  obtain ⟨hnone, hsame⟩ | ⟨filterExpr, changed, hputs, hrun⟩ := rewrite_cases h
  · rw [hsame]
    exact iff_of_true hvalid.preserved fun _ hputs => absurd hputs.inForce hnone
  · rw [(tracked_of_puts hputs hrun hvalid).preserved_iff, and_iff_right rfl]
    constructor
    · intro hok filterExpr' hputs'
      obtain rfl := hputs.unique hputs'
      exact hok
    · intro hok
      exact hok filterExpr hputs

end RowFilterRule

/-! ### The noise -/

namespace DPNoiseRule

theorem resolved_wrap (r : F64.Rounding) (schema : DFSchema) (found : List (String × F64)) :
    ∀ node : LogicalPlan,
    Resolved lookup node → Resolved lookup (wrap r node schema found) := by
  induction found with
  | nil => exact fun _ h => h
  | cons f found ih => exact fun _ h => ih _ (resolved_over rfl rfl h)

theorem tracked_of_walk {rule : DPNoiseRule} {data : DPBundleData} {plan' : LogicalPlan}
    {s s' : NoiseState} (h : transformDown (rule.visit data) plan s = (.ok plan', s'))
    (hvalid : Valid lookup fieldOf plan) :
    Tracked lookup LogicalPlan.shape (fun _ => False) (fun _ => True) plan plan' := by
  refine transformDown_relates (Q := fun p p' => Valid lookup fieldOf p →
    Tracked lookup LogicalPlan.shape (fun _ => False) (fun _ => True) p p') ?_ ?_ h hvalid
  · intro p s node s' hvisit hvalid
    obtain ⟨-, hv⟩ | ⟨-, -, hv, -⟩ | ⟨found, -, -, hv, -⟩ := rule.visit_cases data p s hvisit
    · cases hv
    · cases hv
    · obtain rfl := Visit.jump.inj hv
      refine tracked_over ?_ (resolved_wrap _ p.schema found p hvalid.resolved)
      rw [LogicalPlan.shape, schema_wrap _ p.schema found p rfl]
      rfl
  · intro p s node s' kids hvisit hkids hvalid
    have hnode : node = p := by
      obtain ⟨-, hv⟩ | ⟨-, -, hv, -⟩ | ⟨found, -, -, hv, -⟩ := rule.visit_cases data p s hvisit
      · exact Visit.descend.inj hv
      · exact Visit.descend.inj hv
      · cases hv
    rw [hnode]
    exact tracked_unchanged hvalid id trivial hkids

/-- The noise goes unnoticed. -/
theorem preserves {rule : DPNoiseRule} {s s' : NoiseState} {result : Transformed}
    (hvalid : Valid lookup fieldOf plan) (h : rule.rewrite plan s = (.ok result, s')) :
    Preserved lookup plan result.data := by
  obtain ⟨-, hsame⟩ | ⟨data, -, -, hrun⟩ := rewrite_cases h
  · rw [hsame]
    exact hvalid.preserved
  · exact (tracked_of_walk hrun hvalid).preserved_iff.mpr ⟨rfl, fun _ _ => trivial⟩

end DPNoiseRule

end Rules

end Griot.Logical
