import Griot.Logical.DpCoverage
import Griot.Logical.FilterExact
import Griot.Logical.Insertion
import Griot.Logical.Pipeline

/-! Which plans the rules leave alone the second time.

An optimizer applies its rules until the plan stops changing. Each rule puts nodes over the
nodes it looks for, and these are still there the next time: the marker goes over the scan
again, the filter over the marker and the noise over the aggregate, which pays again. A plan
the rules have produced is left alone, and nothing is paid for, exactly where they found
nothing to put a node over (`settles_iff`). -/
namespace Griot.Logical

open Lib Budget

/-! ### What the rules look for -/

/-- A node some rule takes for the marker of an approved scan. -/
def IsMarker (plan : LogicalPlan) : Prop := plan.extensionName = some "ContractApproved"

instance (plan : LogicalPlan) : Decidable (IsMarker plan) := inferInstanceAs (Decidable (_ = _))

/-- An aggregate over an approved scan that names a tagged column. -/
def NamesTagged (data : DPBundleData) (plan : LogicalPlan) : Prop :=
  namedColumns data.tags plan ≠ []

theorem anyApproved_eq (ps : List LogicalPlan) : LogicalPlan.subtreeHasApprovalMarker.anyApproved ps =
    ps.any LogicalPlan.subtreeHasApprovalMarker := by
  induction ps with
  | nil => rfl
  | cons p ps ih => rw [LogicalPlan.subtreeHasApprovalMarker.anyApproved, ih, List.any_cons]

theorem subtreeHasApprovalMarker_eq (plan : LogicalPlan) : plan.subtreeHasApprovalMarker =
    (decide (IsMarker plan) || plan.inputs.any LogicalPlan.subtreeHasApprovalMarker) := by
  cases plan with
  | other kind exprs ps schema =>
    rw [LogicalPlan.subtreeHasApprovalMarker, anyApproved_eq]
    cases kind <;> simp [IsMarker, LogicalPlan.extensionName, LogicalPlan.inputs]
  | _ => simp [LogicalPlan.subtreeHasApprovalMarker, IsMarker, LogicalPlan.extensionName,
      LogicalPlan.inputs]

/-- The search finds the markers. -/
theorem has_isMarker_iff (plan : LogicalPlan) :
    Has IsMarker plan ↔ plan.subtreeHasApprovalMarker = true := by
  induction plan using LogicalPlan.inputs_induction with
  | step plan ih =>
    rw [has_iff, subtreeHasApprovalMarker_eq, Bool.or_eq_true, decide_eq_true_iff, List.any_eq_true]
    exact or_congr Iff.rfl (exists_congr fun p => and_congr_right (ih p))

theorem kept_marker : Kept fun plan plan' => Has IsMarker plan → Has IsMarker plan' :=
  kept_has fun plan kids h => by rwa [IsMarker, plan.extensionName_withInputs]

theorem kept_scan : Kept fun plan plan' => Has (·.isTableScan = true) plan →
    Has (·.isTableScan = true) plan' :=
  kept_has fun plan kids h => by rwa [plan.isTableScan_withInputs]

theorem namesTagged_aggregate (data : DPBundleData) (groupExpr aggrExpr : List Expr)
    (input : LogicalPlan) (schema : DFSchema) :
    NamesTagged data (.aggregate groupExpr aggrExpr input schema) ↔
      Has IsMarker input ∧ (collectAggColumns aggrExpr).filter data.tags ≠ [] := by
  rw [NamesTagged, namedColumns, has_isMarker_iff]
  cases input.subtreeHasApprovalMarker <;> simp

/-- An aggregate keeps what it names; its input keeps its marker. -/
theorem namesTagged_withInputs {data : DPBundleData} {plan : LogicalPlan} {kids : List LogicalPlan}
    (h : List.Forall₂ (fun p p' => Has IsMarker p → Has IsMarker p') plan.inputs kids)
    (hplan : NamesTagged data plan) : NamesTagged data (plan.withInputs kids) := by
  cases plan with
  | aggregate groupExpr aggrExpr input schema =>
    obtain ⟨kid, rfl, hkeep⟩ := exists_of_forall₂_singleton h
    obtain ⟨hmarker, htagged⟩ := (namesTagged_aggregate ..).mp hplan
    exact (namesTagged_aggregate ..).mpr ⟨hkeep hmarker, htagged⟩
  | _ => exact absurd rfl hplan

/-- What the filter and the noise are put over is still there. -/
structure Keeps (data : DPBundleData) (plan plan' : LogicalPlan) : Prop where
  marker : Has IsMarker plan → Has IsMarker plan'
  tagged : Has (NamesTagged data) plan → Has (NamesTagged data) plan'

theorem kept_keeps (data : DPBundleData) : Kept (Keeps data) where
  inputs {plan kids} h := by
    have hmarkers := h.imp fun _ _ => Keeps.marker
    refine ⟨kept_marker.inputs hmarkers, fun hplan => ?_⟩
    rw [has_iff, plan.inputs_withInputs h.length_eq.symm]
    obtain hplan | ⟨p, hp, hhas⟩ := has_iff.mp hplan
    · exact .inl (namesTagged_withInputs hmarkers hplan)
    · obtain ⟨k, hk, hpk⟩ := exists_of_forall₂ h hp
      exact .inr ⟨k, hk, hpk.tagged hhas⟩
  above h hmem :=
    ⟨kept_marker.above h.marker hmem, fun hplan => has_iff.mpr (.inr ⟨_, hmem, h.tagged hplan⟩)⟩

/-! ### The rules put nodes over what they look for -/

theorem ContractCheckRule.inserting {rule : ContractCheckRule} (h : rule.Approves) :
    Inserting rule.visit (·.isTableScan = true) fun _ => True where
  rest hscan _ := rule.visit_of_not_scan (by simpa using hscan) _
  act {q s s' v} hscan _ hvisit _ := by
    obtain ⟨-, tableName, rfl⟩ | ⟨hnot, -⟩ := rule.visit_cases hvisit
    · refine ⟨_, rfl, ?_⟩
      obtain ⟨-, hnode, -⟩ | ⟨hdenied, -⟩ := rule.evaluateScan_cases q tableName
      · rw [hnode]
        exact .one (List.mem_singleton_self q)
      · exact absurd h hdenied
    · exact absurd hscan (by simp [hnot])
  dirty h := absurd trivial h

/-- One step of the walk. -/
theorem RowFilterRule.visit_cases (rule : RowFilterRule) (filterExpr : Expr) {p : LogicalPlan}
    {changed changed' : Bool} {v : Visit} (h : rule.visit filterExpr p changed = (.ok v, changed')) :
    (IsMarker p ∧ v = .jump (.filter filterExpr p)) ∨ ¬ IsMarker p ∧ v = .descend p := by
  by_cases hmarker : IsMarker p
  · rw [visit, if_pos (show p.extensionName = some "ContractApproved" from hmarker)] at h
    cases herror : rule.planner.filterError filterExpr p with
    | some e => simp [herror] at h
    | none =>
      simp only [herror] at h
      exact .inl ⟨hmarker, (Except.ok.inj (Prod.mk.inj h).1).symm⟩
  · rw [visit, if_neg (show ¬ p.extensionName = some "ContractApproved" from hmarker)] at h
    exact .inr ⟨hmarker, (Except.ok.inj (Prod.mk.inj h).1).symm⟩

theorem RowFilterRule.inserting (rule : RowFilterRule) (filterExpr : Expr) :
    Inserting (rule.visit filterExpr) IsMarker fun _ => True where
  rest hmarker _ := if_neg hmarker
  act {q s s' v} hmarker _ hvisit _ := by
    obtain ⟨-, rfl⟩ | ⟨hnot, -⟩ := rule.visit_cases filterExpr hvisit
    · exact ⟨_, rfl, .one (List.mem_singleton_self q)⟩
    · exact absurd hmarker hnot
  dirty h := absurd trivial h

namespace DPNoiseRule

/-- Without a tagged column nothing is paid for. -/
theorem consumeAll_untagged (rule : DPNoiseRule) {data : DPBundleData} {cs : List String}
    (h : cs.filter data.tags = []) (t : PrivacyBudgetTracker) :
    rule.consumeAll data cs t = (t, .ok []) := by
  induction cs with
  | nil => rfl
  | cons c cs ih =>
    rw [List.filter_eq_nil_iff, List.forall_mem_cons] at h
    have hc : data.dpColumns.lookup c = none := by simpa [DPBundleData.tags] using h.1
    rw [consumeAll, hc]
    exact ih (List.filter_eq_nil_iff.mpr h.2)

theorem wrap_over (r : F64.Rounding) (schema : DFSchema) {node : LogicalPlan} {found : List (String × F64)}
    (h : found ≠ []) : Over node (wrap r node schema found) := by
  have hmore (found : List (String × F64)) : ∀ {node' : LogicalPlan}, Over node node' →
      Over node (wrap r node' schema found) := by
    induction found with
    | nil => exact fun hover => hover
    | cons f found ih => exact fun hover => ih (.more hover (List.mem_singleton_self _))
  cases found with
  | nil => exact absurd rfl h
  | cons f found => exact hmore found (.one (List.mem_singleton_self _))

theorem inserting (rule : DPNoiseRule) (data : DPBundleData) :
    Inserting (rule.visit data) (NamesTagged data) fun s => s.pendingError = none where
  rest {q s} hnone hclean := by
    rw [NamesTagged, not_not] at hnone
    obtain ⟨budget, records, pending, changed⟩ := s
    obtain rfl : pending = none := hclean
    cases q with
    | aggregate groupExpr aggrExpr input schema =>
      cases hmarker : input.subtreeHasApprovalMarker with
      | false => simp [visit, hmarker]
      | true =>
        rw [namedColumns, if_pos hmarker] at hnone
        simp [visit, hmarker, rule.consumeAll_untagged hnone]
    | _ => simp [visit]
  act {q s s' v} htagged _ hvisit hclean := by
    obtain ⟨hpending, -⟩ | ⟨-, -, -, hnone⟩ | ⟨found, -, -, hjump, -, hfound⟩ :=
      rule.visit_cases data q s hvisit
    · simp [hclean] at hpending
    · exact absurd hnone htagged
    · exact ⟨_, hjump, wrap_over _ q.schema hfound⟩
  dirty {q s s' v} hdirty hvisit hclean := by
    obtain ⟨hpending, -⟩ | ⟨hstart, -⟩ | ⟨_, hstart, -⟩ := rule.visit_cases data q s hvisit
    · simp [hclean] at hpending
    · exact hdirty hstart
    · exact hdirty hstart

end DPNoiseRule

/-! ### One rule, once -/

/-- The plan is no smaller, and what the later rules look for is still there. -/
structure Enlarges (plan plan' : LogicalPlan) : Prop where
  size : plan.size ≤ plan'.size
  keeps : ∀ data, Keeps data plan plan'

theorem enlarges_of_inserting {σ ε : Type} {visit : Visitor σ ε} {target : LogicalPlan → Prop}
    {clean : σ → Prop} (h : Inserting visit target clean) {plan plan' : LogicalPlan} {s s' : σ}
    (hrun : transformDown visit plan s = (.ok plan', s')) (hclean : clean s') :
    Enlarges plan plan' :=
  ⟨h.walk kept_size hrun hclean, fun data => h.walk (kept_keeps data) hrun hclean⟩

namespace ContractCheckRule

theorem transformDown_of_rewrite {rule : ContractCheckRule} {plan : LogicalPlan}
    {s s' : CheckState} {result : Transformed} (h : rule.rewrite plan s = (.ok result, s')) :
    transformDown rule.visit plan {s with changed := false} = (.ok result.data, s') := by
  unfold rewrite at h
  cases hrun : transformDown rule.visit plan {s with changed := false} with
  | mk out s₁ =>
    cases out with
    | error e => simp [hrun] at h
    | ok plan' =>
      simp only [hrun] at h
      obtain ⟨hresult, rfl⟩ := Prod.mk.inj h
      rw [← Except.ok.inj hresult]

/-- A denied plan: its scans are gone, and nothing else. -/
structure Emptied (plan plan' : LogicalPlan) : Prop where
  scans : ¬ Has (·.isTableScan = true) plan'
  enlarges : Enlarges plan plan'
  back : ∀ data, Keeps data plan' plan

theorem emptied_leaf {scan : LogicalPlan} (h : scan.isTableScan = true) (schema : DFSchema) :
    Emptied scan (emptyRelationFromSchema schema) := by
  have hempty (kind : LogicalPlan → Prop)
      (hkind : ¬ kind (emptyRelationFromSchema schema)) : ¬ Has kind (emptyRelationFromSchema schema) := by
    rw [has_iff]
    simpa [emptyRelationFromSchema, LogicalPlan.inputs] using hkind
  have hscan (kind : LogicalPlan → Prop) (hkind : ¬ kind scan) : ¬ Has kind scan := by
    cases scan with
    | tableScan =>
      rw [has_iff]
      simpa [LogicalPlan.inputs] using hkind
    | _ => simp [LogicalPlan.isTableScan] at h
  have hnotMarker : ¬ IsMarker scan := by
    cases scan with
    | tableScan => simp [IsMarker, LogicalPlan.extensionName]
    | _ => simp [LogicalPlan.isTableScan] at h
  have hnotTagged (data : DPBundleData) : ¬ NamesTagged data scan := by
    cases scan with
    | tableScan => simp [NamesTagged, namedColumns]
    | _ => simp [LogicalPlan.isTableScan] at h
  refine ⟨hempty _ (by simp [emptyRelationFromSchema_isTableScan]), ⟨?_, fun data => ?_⟩,
    fun data => ?_⟩
  · cases scan with
    | tableScan => exact le_rfl
    | _ => simp [LogicalPlan.isTableScan] at h
  · exact ⟨fun hhas => absurd hhas (hscan _ hnotMarker),
      fun hhas => absurd hhas (hscan _ (hnotTagged data))⟩
  · refine ⟨fun hhas => absurd hhas (hempty _ ?_), fun hhas => absurd hhas (hempty _ ?_)⟩
    · simp [IsMarker, emptyRelationFromSchema, LogicalPlan.extensionName]
    · simp [NamesTagged, namedColumns, emptyRelationFromSchema]

theorem emptied_inputs {plan : LogicalPlan} (hscan : plan.isTableScan = false)
    {kids : List LogicalPlan} (h : List.Forall₂ Emptied plan.inputs kids) :
    Emptied plan (plan.withInputs kids) := by
  have hlength := h.length_eq.symm
  refine ⟨?_, ⟨kept_size.inputs (h.imp fun _ _ hp => hp.enlarges.size), fun data =>
    (kept_keeps data).inputs (h.imp fun _ _ hp => hp.enlarges.keeps data)⟩, fun data => ?_⟩
  · rw [has_iff, plan.inputs_withInputs hlength, plan.isTableScan_withInputs]
    intro hhas
    obtain htrue | ⟨kid, hkid, hhas⟩ := hhas
    · simp [hscan] at htrue
    · obtain ⟨p, -, hp⟩ := exists_of_forall₂ h.flip hkid
      exact hp.scans hhas
  · have hback : List.Forall₂ (Keeps data) (plan.withInputs kids).inputs plan.inputs := by
      rw [plan.inputs_withInputs hlength]
      exact (h.imp fun _ _ hp => hp.back data).flip
    simpa only [plan.withInputs_withInputs hlength] using (kept_keeps data).inputs hback

theorem emptied_of_denied {rule : ContractCheckRule} (h : ¬ rule.Approves) {plan : LogicalPlan}
    {s s' : CheckState} {result : Transformed} (hrun : rule.rewrite plan s = (.ok result, s')) :
    Emptied plan result.data := by
  refine transformDown_relates ?_ ?_ (transformDown_of_rewrite hrun)
  · intro p s node s' hvisit
    obtain ⟨hscan, tableName, hjump⟩ | ⟨-, hdescend⟩ := rule.visit_cases hvisit
    · obtain rfl := Visit.jump.inj hjump
      obtain ⟨happroves, -⟩ | ⟨-, hempty, -⟩ := rule.evaluateScan_cases p tableName
      · exact absurd happroves h
      · rw [hempty]
        exact emptied_leaf hscan p.schema
    · cases hdescend
  · intro p s node s' kids hvisit hkids
    obtain ⟨-, _, hjump⟩ | ⟨hscan, hdescend⟩ := rule.visit_cases hvisit
    · cases hjump
    · obtain rfl := Visit.descend.inj hdescend
      exact emptied_inputs hscan hkids

theorem rewrite_enlarges {rule : ContractCheckRule} {plan : LogicalPlan} {s s' : CheckState}
    {result : Transformed} (h : rule.rewrite plan s = (.ok result, s')) :
    Enlarges plan result.data := by
  by_cases happroves : rule.Approves
  · exact enlarges_of_inserting (inserting happroves) (transformDown_of_rewrite h) trivial
  · exact (emptied_of_denied happroves h).enlarges

/-- An approved scan gets a marker each time. -/
theorem rewrite_grows {rule : ContractCheckRule} {plan : LogicalPlan} {s s' : CheckState}
    {result : Transformed} (h : rule.rewrite plan s = (.ok result, s')) (happroves : rule.Approves)
    (hscan : Has (·.isTableScan = true) plan) :
    plan.size < result.data.size ∧ Has (·.isTableScan = true) result.data :=
  ⟨(inserting happroves).grows (transformDown_of_rewrite h) trivial hscan,
    (inserting happroves).walk kept_scan (transformDown_of_rewrite h) trivial hscan⟩

theorem rewrite_rests (rule : ContractCheckRule) {plan : LogicalPlan}
    (h : ¬ Has (·.isTableScan = true) plan) (s : CheckState) :
    rule.rewrite plan s = (.ok ⟨plan, false⟩, {s with changed := false}) := by
  have hrun : transformDown rule.visit plan {s with changed := false} =
      (.ok plan, {s with changed := false}) := transformDown_rests fun q hwithin =>
    rule.visit_of_not_scan (Bool.eq_false_iff.mpr fun hscan => h ⟨q, hwithin, hscan⟩) _
  rw [rewrite, hrun]

end ContractCheckRule

namespace RowFilterRule

/-- The filter in force for the principal is not empty. -/
def InForce (rule : RowFilterRule) : Prop :=
  ∃ data text, rule.parseBundle = some data ∧ rule.effectiveRowFilter data = some text ∧ text ≠ ""

/-- The expression of the filter in force. -/
def Puts (rule : RowFilterRule) (filterExpr : Expr) : Prop :=
  ∃ data text, rule.parseBundle = some data ∧ rule.effectiveRowFilter data = some text ∧
    text ≠ "" ∧ rule.parseFilterExpr text = .ok filterExpr

theorem Puts.inForce {rule : RowFilterRule} {filterExpr : Expr} (h : rule.Puts filterExpr) :
    rule.InForce := by
  obtain ⟨data, text, hparse, htext, hne, -⟩ := h
  exact ⟨data, text, hparse, htext, hne⟩

theorem Puts.unique {rule : RowFilterRule} {filterExpr filterExpr' : Expr}
    (h : rule.Puts filterExpr) (h' : rule.Puts filterExpr') : filterExpr = filterExpr' := by
  obtain ⟨data, text, hparse, htext, -, hexpr⟩ := h
  obtain ⟨data', text', hparse', htext', -, hexpr'⟩ := h'
  obtain rfl := Option.some.inj (hparse.symm.trans hparse')
  obtain rfl := Option.some.inj (htext.symm.trans htext')
  exact Except.ok.inj (hexpr.symm.trans hexpr')

/-- Either no filter is in force, or the walk puts one on the plan. -/
theorem rewrite_cases {rule : RowFilterRule} {plan : LogicalPlan} {result : Transformed}
    (h : rule.rewrite plan = .ok result) :
    (¬ rule.InForce ∧ result.data = plan) ∨
      ∃ filterExpr changed, rule.Puts filterExpr ∧
        transformDown (rule.visit filterExpr) plan false = (.ok result.data, changed) := by
  unfold rewrite at h
  cases hparse : rule.parseBundle with
  | none =>
    rw [hparse] at h
    exact .inl ⟨by simp [InForce, hparse], (Except.ok.inj h) ▸ rfl⟩
  | some data =>
    rw [hparse] at h
    change rule.inject data plan = .ok result at h
    by_cases hforce : ∃ text, rule.effectiveRowFilter data = some text ∧ text ≠ ""
    · obtain ⟨text, htext, hne⟩ := hforce
      cases hexpr : rule.parseFilterExpr text with
      | error e => cases (inject_error htext hne hexpr).symm.trans h
      | ok filterExpr =>
        obtain ⟨changed, hrun⟩ := inject_walks htext hne hexpr h
        exact .inr ⟨filterExpr, changed, ⟨data, text, hparse, htext, hne, hexpr⟩, hrun⟩
    · refine .inl ⟨by simpa [InForce, hparse] using hforce, ?_⟩
      rw [inject_rests hforce] at h
      exact (Except.ok.inj h) ▸ rfl

theorem rewrite_enlarges {rule : RowFilterRule} {plan : LogicalPlan} {result : Transformed}
    (h : rule.rewrite plan = .ok result) :
    Enlarges plan result.data ∧
      (Has (·.isTableScan = true) plan → Has (·.isTableScan = true) result.data) := by
  obtain ⟨-, hsame⟩ | ⟨filterExpr, changed, -, hrun⟩ := rewrite_cases h
  · rw [hsame]
    exact ⟨⟨le_rfl, fun data => (kept_keeps data).refl plan⟩, id⟩
  · have hinserting := rule.inserting filterExpr
    exact ⟨enlarges_of_inserting hinserting hrun trivial, hinserting.walk kept_scan hrun trivial⟩

/-- A marker gets the filter each time. -/
theorem rewrite_grows {rule : RowFilterRule} {plan : LogicalPlan} {result : Transformed}
    (h : rule.rewrite plan = .ok result) (hforce : rule.InForce) (hmarker : Has IsMarker plan) :
    plan.size < result.data.size := by
  obtain ⟨hnot, -⟩ | ⟨filterExpr, changed, -, hrun⟩ := rewrite_cases h
  · exact absurd hforce hnot
  · exact (rule.inserting filterExpr).grows hrun trivial hmarker

theorem rewrite_rests {rule : RowFilterRule} {plan : LogicalPlan} {result : Transformed}
    (h : rule.rewrite plan = .ok result) (hnone : rule.InForce → ¬ Has IsMarker plan) :
    result.data = plan := by
  obtain ⟨-, hsame⟩ | ⟨filterExpr, changed, hputs, hrun⟩ := rewrite_cases h
  · exact hsame
  · rw [(rule.inserting filterExpr).rests trivial (hnone hputs.inForce)] at hrun
    exact (Except.ok.inj (Prod.mk.inj hrun).1).symm

end RowFilterRule

namespace DPNoiseRule

/-- Either the bundle tags nothing, or the walk puts the noise on the plan. -/
theorem rewrite_cases {rule : DPNoiseRule} {plan : LogicalPlan} {s s' : NoiseState}
    {result : Transformed} (h : rule.rewrite plan s = (.ok result, s')) :
    ((∀ data, rule.parseBundle = some data → data.dpColumns.isEmpty = true) ∧ result.data = plan) ∨
      ∃ data, rule.parseBundle = some data ∧ s'.pendingError = none ∧
        transformDown (rule.visit data) plan {s with pendingError := none, changed := false} =
          (.ok result.data, s') := by
  unfold rewrite at h
  cases hparse : rule.parseBundle with
  | none =>
    rw [hparse] at h
    exact .inl ⟨fun _ hdata => by simp at hdata, (Except.ok.inj (Prod.mk.inj h).1) ▸ rfl⟩
  | some data =>
    rw [hparse] at h
    simp only [addNoise] at h
    split at h
    · rename_i hempty
      refine .inl ⟨fun data' hdata => ?_, (Except.ok.inj (Prod.mk.inj h).1) ▸ rfl⟩
      rwa [← Option.some.inj hdata]
    · refine .inr ⟨data, rfl, ?_⟩
      split at h
      · cases (Prod.mk.inj h).1
      · rename_i newPlan s₁ hrun
        split at h
        · cases (Prod.mk.inj h).1
        · rename_i hpending
          obtain ⟨hresult, rfl⟩ := Prod.mk.inj h
          obtain rfl := Except.ok.inj hresult
          exact ⟨hpending, hrun⟩

theorem not_has_tagged {data : DPBundleData} (h : data.dpColumns.isEmpty = true)
    (plan : LogicalPlan) : ¬ Has (NamesTagged data) plan := by
  intro hhas
  obtain ⟨q, -, hq⟩ := hhas
  have hnone : ∀ c, data.tags c = false := fun c => by
    simp [DPBundleData.tags, (Dict.isEmpty_iff.mp h) c]
  cases q with
  | aggregate groupExpr aggrExpr input schema =>
    exact ((namesTagged_aggregate ..).mp hq).2 (List.filter_eq_nil_iff.mpr fun c _ => by simp [hnone c])
  | _ => exact absurd rfl hq

theorem rewrite_enlarges {rule : DPNoiseRule} {plan : LogicalPlan} {s s' : NoiseState}
    {result : Transformed} (h : rule.rewrite plan s = (.ok result, s')) :
    Enlarges plan result.data ∧
      (Has (·.isTableScan = true) plan → Has (·.isTableScan = true) result.data) := by
  obtain ⟨-, hsame⟩ | ⟨data, -, hclean, hrun⟩ := rewrite_cases h
  · rw [hsame]
    exact ⟨⟨le_rfl, fun data => (kept_keeps data).refl plan⟩, id⟩
  · have hinserting := rule.inserting data
    exact ⟨enlarges_of_inserting hinserting hrun hclean, hinserting.walk kept_scan hrun hclean⟩

/-- A tagged aggregate is wrapped, and paid for, each time. -/
theorem rewrite_grows {rule : DPNoiseRule} {plan : LogicalPlan} {s s' : NoiseState}
    {result : Transformed} (h : rule.rewrite plan s = (.ok result, s')) {data : DPBundleData}
    (hparse : rule.parseBundle = some data) (htagged : Has (NamesTagged data) plan) :
    plan.size < result.data.size := by
  obtain ⟨hempty, -⟩ | ⟨data', hparse', hclean, hrun⟩ := rewrite_cases h
  · exact absurd htagged (not_has_tagged (hempty data hparse) plan)
  · obtain rfl := Option.some.inj (hparse.symm.trans hparse')
    exact (rule.inserting data).grows hrun hclean htagged

theorem rewrite_rests (rule : DPNoiseRule) {plan : LogicalPlan}
    (h : ∀ data, rule.parseBundle = some data → ¬ Has (NamesTagged data) plan) (s : NoiseState) :
    ∃ s', rule.rewrite plan s = (.ok ⟨plan, false⟩, s') ∧ s'.budget = s.budget := by
  unfold rewrite
  cases hparse : rule.parseBundle with
  | none => exact ⟨s, rfl, rfl⟩
  | some data =>
    simp only [addNoise]
    split
    · exact ⟨s, rfl, rfl⟩
    · rw [(rule.inserting data).rests rfl (h data hparse)]
      exact ⟨_, rfl, rfl⟩

end DPNoiseRule

/-! ### The rules in order -/

/-- What the rules of a pipeline own. -/
structure RuleStates where
  check : CheckState
  noise : NoiseState

namespace PipelineConfig

/-- The contract check, the row filter and the noise, each on the plan of the one before. -/
def applyRules (config : PipelineConfig) (plan : LogicalPlan) :
    Pass RuleStates DataFusionError LogicalPlan := fun s =>
  match config.contractCheck.rewrite plan s.check with
  | (.error e, check) => (.error e, {s with check})
  | (.ok checked, check) => match config.rowFilter.rewrite checked.data with
    | .error e => (.error e, {s with check})
    | .ok filtered => match config.dpNoise.rewrite filtered.data s.noise with
      | (.error e, noise) => (.error e, ⟨check, noise⟩)
      | (.ok noised, noise) => (.ok noised.data, ⟨check, noise⟩)

theorem applyRules_eq_ok {config : PipelineConfig} {plan plan' : LogicalPlan} {s s' : RuleStates} :
    config.applyRules plan s = (.ok plan', s') ↔ ∃ checked filtered noised,
      config.contractCheck.rewrite plan s.check = (.ok checked, s'.check) ∧
      config.rowFilter.rewrite checked.data = .ok filtered ∧
      config.dpNoise.rewrite filtered.data s.noise = (.ok noised, s'.noise) ∧
      noised.data = plan' := by
  obtain ⟨check', noise'⟩ := s'
  unfold applyRules
  constructor
  · intro h
    split at h
    · cases (Prod.mk.inj h).1
    · rename_i checked check hcheck
      split at h
      · cases (Prod.mk.inj h).1
      · rename_i filtered hfilter
        split at h
        · cases (Prod.mk.inj h).1
        · rename_i noised noise hnoise
          obtain ⟨hplan, hstates⟩ := Prod.mk.inj h
          obtain ⟨rfl, rfl⟩ := RuleStates.mk.inj hstates
          exact ⟨checked, filtered, noised, hcheck, hfilter, hnoise, Except.ok.inj hplan⟩
  · intro h
    obtain ⟨checked, filtered, noised, hcheck, hfilter, hnoise, rfl⟩ := h
    simp only [hcheck, hfilter, hnoise]

/-- No rule finds a node to put another over: no scan if the principal is approved, no marker if a
filter is in force, and no aggregate over a marker that names a tagged column. -/
structure FindsNothing (config : PipelineConfig) (plan : LogicalPlan) : Prop where
  scans : config.contractCheck.Approves → ¬ Has (·.isTableScan = true) plan
  markers : config.rowFilter.InForce → ¬ Has IsMarker plan
  aggregates : ∀ data, config.dpNoise.parseBundle = some data → ¬ Has (NamesTagged data) plan

/-- Applied to what they have just produced, the rules leave the plan as it is and pay for
nothing. -/
def Settles (config : PipelineConfig) (plan : LogicalPlan) (s : RuleStates) : Prop :=
  ∃ s', config.applyRules plan s = (.ok plan, s') ∧ s'.noise.budget = s.noise.budget

/-- The first application leaves nothing to the second. -/
theorem settles_of_findsNothing {config : PipelineConfig} {plan plan' : LogicalPlan}
    {s s' : RuleStates} (hrun : config.applyRules plan s = (.ok plan', s'))
    (h : config.FindsNothing plan) : config.Settles plan' s' := by
  obtain ⟨checked, filtered, noised, hcheck, hfilter, hnoise, rfl⟩ := applyRules_eq_ok.mp hrun
  -- The check leaves no scan, and no marker or aggregate that was not there.
  have hchecked : ¬ Has (·.isTableScan = true) checked.data ∧ ∀ data, Keeps data checked.data plan := by
    by_cases happroves : config.contractCheck.Approves
    · rw [config.contractCheck.rewrite_rests (h.scans happroves)] at hcheck
      obtain rfl := Except.ok.inj (Prod.mk.inj hcheck).1
      exact ⟨h.scans happroves, fun data => (kept_keeps data).refl plan⟩
    · have hemptied := ContractCheckRule.emptied_of_denied happroves hcheck
      exact ⟨hemptied.scans, hemptied.back⟩
  have hfiltered : filtered.data = checked.data :=
    RowFilterRule.rewrite_rests hfilter fun hforce hmarker =>
      h.markers hforce ((hchecked.2 .default).marker hmarker)
  have haggregates : ∀ data, config.dpNoise.parseBundle = some data →
      ¬ Has (NamesTagged data) filtered.data := fun data hparse htagged =>
    h.aggregates data hparse ((hchecked.2 data).tagged (hfiltered ▸ htagged))
  have hnoised : noised.data = filtered.data := by
    obtain ⟨_, hrest, -⟩ := config.dpNoise.rewrite_rests haggregates s.noise
    obtain ⟨hresult, -⟩ := Prod.mk.inj (hnoise.symm.trans hrest)
    rw [Except.ok.inj hresult]
  obtain ⟨noise, hagain, hbudget⟩ := config.dpNoise.rewrite_rests haggregates s'.noise
  rw [Settles, hnoised, hfiltered]
  refine ⟨⟨{s'.check with changed := false}, noise⟩, applyRules_eq_ok.mpr ?_, hbudget⟩
  exact ⟨_, filtered, _, config.contractCheck.rewrite_rests hchecked.1 _, hfilter, hagain, hfiltered⟩

/-- What a rule put a node over is there again, and the plan grows. -/
theorem findsNothing_of_settles {config : PipelineConfig} {plan plan' : LogicalPlan}
    {s s' : RuleStates} (hrun : config.applyRules plan s = (.ok plan', s'))
    (h : config.Settles plan' s') : config.FindsNothing plan := by
  obtain ⟨checked, filtered, noised, hcheck, hfilter, hnoise, rfl⟩ := applyRules_eq_ok.mp hrun
  obtain ⟨s'', hagain, -⟩ := h
  obtain ⟨checked', filtered', noised', hcheck', hfilter', hnoise', hsame⟩ :=
    applyRules_eq_ok.mp hagain
  have hchecked := ContractCheckRule.rewrite_enlarges hcheck
  have hchecked' := ContractCheckRule.rewrite_enlarges hcheck'
  obtain ⟨hfiltered, hfilteredScan⟩ := RowFilterRule.rewrite_enlarges hfilter
  obtain ⟨hfiltered', -⟩ := RowFilterRule.rewrite_enlarges hfilter'
  obtain ⟨hnoised, hnoisedScan⟩ := DPNoiseRule.rewrite_enlarges hnoise
  obtain ⟨hnoised', -⟩ := DPNoiseRule.rewrite_enlarges hnoise'
  have hsize : noised'.data.size = noised.data.size := congrArg LogicalPlan.size hsame
  have hcheckedSize := hchecked'.size
  have hfilteredSize := hfiltered'.size
  have hnoisedSize := hnoised'.size
  refine ⟨fun happroves hscan => ?_, fun hforce hmarker => ?_, fun data hparse htagged => ?_⟩
  · have hscan' := (ContractCheckRule.rewrite_grows hcheck happroves hscan).2
    have hgrows := (ContractCheckRule.rewrite_grows hcheck' happroves
      (hnoisedScan (hfilteredScan hscan'))).1
    omega
  · have hkeeps := fun {p p'} (h : Enlarges p p') => (h.keeps .default).marker
    have hgrows := RowFilterRule.rewrite_grows hfilter' hforce
      (hkeeps hchecked' (hkeeps hnoised (hkeeps hfiltered (hkeeps hchecked hmarker))))
    omega
  · have hkeeps := fun {p p'} (h : Enlarges p p') => (h.keeps data).tagged
    have hgrows := DPNoiseRule.rewrite_grows hnoise' hparse (hkeeps hfiltered'
      (hkeeps hchecked' (hkeeps hnoised (hkeeps hfiltered (hkeeps hchecked htagged)))))
    omega

/-- **When a second application changes nothing**: exactly when the rules found nothing to put a
node over in the plan they were given first. -/
theorem settles_iff {config : PipelineConfig} {plan plan' : LogicalPlan} {s s' : RuleStates}
    (h : config.applyRules plan s = (.ok plan', s')) :
    config.Settles plan' s' ↔ config.FindsNothing plan :=
  ⟨findsNothing_of_settles h, settles_of_findsNothing h⟩

/-! ### A sum that is paid for again -/

open DPNoiseRule

/-- The contract that tags `salary`, with a budget of `2.0`. -/
def payConfig : PipelineConfig where
  serde := paySerde
  engine := ⟨fun _ => .ok [], fun name => ⟨none, name⟩, fun _ => ""⟩
  planner := ⟨fun _ _ => none, fun _ _ => .ok [], fun _ => ""⟩
  rounding := .nearest
  bundle := payBundle
  principal := ⟨"user:alice", "analytics", "gold", "internal"⟩
  tenantId := "acme"
  initialBudgets := some (.ofList [(("acme", "salary"), .fin 2)])

def payStates : RuleStates := ⟨⟨[], [], ∅, false⟩, payConfig.noiseState⟩

theorem payConfig_rowFilter (plan : LogicalPlan) :
    payConfig.rowFilter.rewrite plan = .ok ⟨plan, false⟩ := by
  have hparse : payConfig.rowFilter.parseBundle = some .default := by
    rw [RowFilterRule.parseBundle]
    show (ContractBundleHandle.document payBundle paySerde).bind _ = _
    rw [payBundle, paySerde, ContractBundleHandle.document_just]
    rfl
  rw [RowFilterRule.rewrite, hparse]
  rfl

def salary : Expr := .column ⟨none, "salary"⟩

def payNoised (node : LogicalPlan) : LogicalPlan :=
  .laplaceNoise "salary" (formatFixed6 (F64.Rounding.nearest.div (.fin 1) (.fin 1))) node
    [⟨none, ⟨"sum", .float64, true⟩⟩]

/-- One debit of `1.0`. -/
theorem pay_consume {t : PrivacyBudgetTracker} (ht : t.enabled = true) {balance : F64}
    (hbalance : t.balance ("acme", "salary") = balance)
    (hcovers : balance.lt (F64.Rounding.nearest.sub (.fin 1) (.fin F64.epsilon)) = false) :
    payNoise.consumeAll payData ["salary"] t =
      (t.record ("acme", "salary") (F64.Rounding.nearest.sub balance (.fin 1)),
        .ok [("salary", .fin 1)]) := by
  have hconsume : t.consume .nearest "acme" "salary" (.fin 1) =
      (.ok (), t.record ("acme", "salary") (F64.Rounding.nearest.sub balance (.fin 1))) := by
    obtain ⟨hlt, -⟩ | ⟨-, hconsume⟩ :=
      PrivacyBudgetTracker.consume_cases .nearest ht "acme" "salary" (.fin 1)
    · rw [hbalance, hcovers] at hlt
      cases hlt
    · rw [hconsume, hbalance]
  have hlookup : payData.dpColumns.lookup "salary" = some ⟨.fin 1, "laplace"⟩ := rfl
  have htenant : payNoise.tenantId = "acme" := rfl
  have hrounding : payNoise.rounding = .nearest := rfl
  simp only [consumeAll, hlookup, htenant, hrounding, hconsume]
  rfl

/-- `SELECT SUM(salary)` over an input. -/
def paySum (input : LogicalPlan) : LogicalPlan :=
  .aggregate [] [.aggregateFunction "sum" [salary] false none []] input
    [⟨none, ⟨"sum", .float64, true⟩⟩]

theorem payNoise_visit {input : LogicalPlan} (hinput : input.subtreeHasApprovalMarker = true)
    {s : NoiseState} (hs : s.pendingError = none) {budget : PrivacyBudgetTracker}
    (hconsume : payNoise.consumeAll payData ["salary"] s.budget = (budget, .ok [("salary", .fin 1)])) :
    payNoise.visit payData (paySum input) s =
      (.ok (.jump (payNoised (paySum input))), {s with budget, changed := true}) := by
  have hcolumns : collectAggColumns [.aggregateFunction "sum" [salary] false none []] = ["salary"] := rfl
  simp only [visit, hs, paySum, hinput, hcolumns, hconsume]
  rfl

/-- The scan with so many markers over it. -/
def payMarked : Nat → LogicalPlan
  | 0 => .tableScan "employees" [⟨some "employees", ⟨"salary", .float64, true⟩⟩] []
  | n + 1 => .contractApproved "pay-contract" "acme" (payMarked n)
      [⟨some "employees", ⟨"salary", .float64, true⟩⟩]

/-- The sum with so many noise nodes over it. -/
def paySums (marked : Nat) : Nat → LogicalPlan
  | 0 => paySum (payMarked marked)
  | n + 1 => payNoised (paySums marked n)

/-- The check puts one more marker on the scan. -/
theorem payCheck_transform (marked noised : Nat) (s : CheckState) :
    ∃ s', transformDown payCheck.visit (paySums marked noised) s =
      (.ok (paySums (marked + 1) noised), s') := by
  have hmarked : ∃ s', transformDown payCheck.visit (payMarked marked) s =
      (.ok (payMarked (marked + 1)), s') := by
    induction marked with
    | zero =>
      refine ⟨?_, ?_⟩
      rotate_left
      · rw [payMarked, transformDown, Pass.bind_run, ContractCheckRule.visit_tableScan,
          payCheck_evaluateScan]
        rfl
    | succ marked ih =>
      obtain ⟨s', hrun⟩ := ih
      exact ⟨s', transformDown_descend rfl (ContractCheckRule.visit_of_not_scan _ rfl _) hrun⟩
  induction noised with
  | zero =>
    obtain ⟨s', hrun⟩ := hmarked
    exact ⟨s', transformDown_descend rfl (ContractCheckRule.visit_of_not_scan _ rfl _) hrun⟩
  | succ noised ih =>
    obtain ⟨s', hrun⟩ := ih
    exact ⟨s', transformDown_descend rfl (ContractCheckRule.visit_of_not_scan _ rfl _) hrun⟩

/-- The walk goes through the noise to the aggregate, which pays again. -/
theorem payNoise_transform (marked noised : Nat) {s : NoiseState} (hs : s.pendingError = none)
    {budget : PrivacyBudgetTracker}
    (hconsume : payNoise.consumeAll payData ["salary"] s.budget =
      (budget, .ok [("salary", .fin 1)])) :
    transformDown (payNoise.visit payData) (paySums (marked + 1) noised) s =
      (.ok (paySums (marked + 1) (noised + 1)), {s with budget, changed := true}) := by
  induction noised with
  | zero =>
    rw [transformDown_eq, Pass.bind_run, paySums, payNoise_visit rfl hs hconsume]
    rfl
  | succ noised ih =>
    have hvisit : payNoise.visit payData (paySums (marked + 1) (noised + 1)) s =
        (.ok (.descend (paySums (marked + 1) (noised + 1))), s) := by
      simp [visit, hs, paySums, payNoised]
    exact transformDown_descend rfl hvisit ih

/-- Each application puts one more marker and one more noise node, and pays once more. -/
theorem payConfig_applyRules (marked noised : Nat) {s : RuleStates}
    (henabled : s.noise.budget.enabled = true) {balance : F64}
    (hbalance : s.noise.budget.balance ("acme", "salary") = balance)
    (hcovers : balance.lt (F64.Rounding.nearest.sub (.fin 1) (.fin F64.epsilon)) = false) :
    ∃ s', payConfig.applyRules (paySums marked noised) s =
        (.ok (paySums (marked + 1) (noised + 1)), s') ∧
      s'.noise.budget = s.noise.budget.record ("acme", "salary")
        (F64.Rounding.nearest.sub balance (.fin 1)) := by
  obtain ⟨check, hcheck⟩ := payCheck_transform marked noised {s.check with changed := false}
  have hchecked : payConfig.contractCheck.rewrite (paySums marked noised) s.check =
      (.ok ⟨paySums (marked + 1) noised, check.changed⟩, check) := by
    show payCheck.rewrite _ _ = _
    rw [ContractCheckRule.rewrite, hcheck]
  have hwalk := payNoise_transform marked noised
    (s := {s.noise with pendingError := none, changed := false}) rfl
    (pay_consume henabled hbalance hcovers)
  have hnoised : payConfig.dpNoise.rewrite (paySums (marked + 1) noised) s.noise =
      (.ok ⟨paySums (marked + 1) (noised + 1), true⟩, ⟨s.noise.budget.record ("acme", "salary")
        (F64.Rounding.nearest.sub balance (.fin 1)), s.noise.auditRecords, none, true⟩) := by
    show payNoise.rewrite _ _ = _
    rw [DPNoiseRule.rewrite, payNoise_parseBundle]
    show payNoise.addNoise payData _ _ = _
    rw [addNoise, if_neg (by decide), hwalk]
  exact ⟨⟨check, _⟩, applyRules_eq_ok.mpr ⟨_, _, _, hchecked, payConfig_rowFilter _, hnoised, rfl⟩, rfl⟩

theorem settles_iff_paySums :
    ∃ s', payConfig.applyRules (paySums 0 0) payStates = (.ok (paySums 1 1), s') ∧
      (payConfig.Settles (paySums 1 1) s' ↔ payConfig.FindsNothing (paySums 0 0)) := by
  obtain ⟨s', hrun, -⟩ := payConfig_applyRules 0 0 (s := payStates) rfl rfl (by decide +kernel)
  exact ⟨s', hrun, settles_iff hrun⟩

/-- **The second application marks, noises and pays again.** -/
theorem second_application_pays :
    ∃ s' s'', payConfig.applyRules (paySums 0 0) payStates = (.ok (paySums 1 1), s') ∧
      payConfig.applyRules (paySums 1 1) s' = (.ok (paySums 2 2), s'') ∧
      paySums 2 2 ≠ paySums 1 1 ∧
      s'.noise.budget.balance ("acme", "salary") = .fin 1 ∧
      s''.noise.budget.balance ("acme", "salary") = .fin 0 := by
  obtain ⟨s', hfirst, hbudget⟩ :=
    payConfig_applyRules 0 0 (s := payStates) rfl rfl (by decide +kernel)
  have hone : s'.noise.budget.balance ("acme", "salary") = .fin 1 := by
    rw [hbudget, PrivacyBudgetTracker.balance_record, if_pos rfl]
    decide +kernel
  obtain ⟨s'', hsecond, hbudget'⟩ := payConfig_applyRules 1 1 (s := s')
    (by rw [hbudget]; rfl) hone (by decide +kernel)
  refine ⟨s', s'', hfirst, hsecond, fun heq => ?_, hone, ?_⟩
  · have hsize := congrArg LogicalPlan.size heq
    simp [paySums, payNoised, paySum, payMarked, LogicalPlan.size] at hsize
  · rw [hbudget', PrivacyBudgetTracker.balance_record, if_pos rfl]
    decide +kernel

end PipelineConfig

end Griot.Logical
