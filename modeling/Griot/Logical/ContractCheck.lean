import Griot.Logical.Traverse
import Griot.Policy

/-! The contract check: the first rule of the pipeline.

Every scan the walk reaches is replaced: by an empty relation when the bundle
cannot be read or the principal does not satisfy it, by the scan under an
approval marker otherwise. One audit record tells which. The walk does not enter
expressions, so a scan in the plan of a subquery expression is neither replaced
nor recorded: the rule keeps its promise exactly on the plans that have none
(`rewrite_covers_iff`). -/
namespace Griot.Logical

open Lib

/-! ### What rules record and return -/

inductive AuditKind where
  | contractCheckDenied
  | purposeMismatch
  | tierMismatch
  | classificationMismatch
  | contractCheckApproved
  | privacyBudgetExhausted
  deriving DecidableEq

/-- The text of an audit record, as its arguments. -/
inductive AuditDetail where
  /-- no contract bundle present -/
  | noBundle
  /-- declared_purpose '{}' not in allowed_purposes {:?} -/
  | purpose (declared : String) (allowed : List String)
  /-- principal tier '{}' below required '{}' -/
  | tier (principal required : String)
  /-- principal classification '{}' != required '{}' -/
  | classification (principal required : String)
  /-- principal satisfies all contract constraints -/
  | satisfied
  /-- contract check denied -/
  | denied
  /-- privacy budget exhausted for column '{}' -/
  | budget (column : String)
  deriving DecidableEq

structure AuditRecord where
  kind : AuditKind
  tableName : String
  tenantId : String
  contractId : Option String
  detail : AuditDetail
  deriving DecidableEq

/-- The principal making the query. -/
structure Principal where
  id : String
  declaredPurpose : String
  tier : String
  classification : String

structure ContractCheckMarker where
  contractId : String
  tenantId : String
  deriving DecidableEq

/-- What a rewrite returns: the plan, and whether it changed. -/
structure Transformed where
  data : LogicalPlan
  transformed : Bool

/-! ### The bundle and the principal -/

structure ContractBundleData where
  allowedPurposes : List String
  requiredTier : Option String
  requiredClassification : Option String

def ContractBundleData.ofJson (doc : Json) : Option ContractBundleData := do
  guard (doc.fits 3)
  let allowedPurposes ← doc.fieldOr 0 "allowed_purposes" (Json.asVec Json.asString) (some [])
  let requiredTier ← doc.fieldOr 1 "required_tier" (Json.asOption Json.asString) (some none)
  let requiredClassification ←
    doc.fieldOr 2 "required_classification" (Json.asOption Json.asString) (some none)
  return ⟨allowedPurposes, requiredTier, requiredClassification⟩

/-- `TIER_ORDER` -/
def tierOrder : List String := ["bronze", "silver", "gold"]

def tierRank (tier : String) : Option Nat := tierOrder.findIdx? (· = tier)

structure ContractCheckRule where
  serde : SerdeJson
  bundle : ContractBundleHandle
  principal : Principal

/-- What the rule accumulates while it walks. -/
structure CheckState where
  auditRecords : List AuditRecord
  approvedTables : List ContractCheckMarker
  approvedSet : Finset String
  changed : Bool

namespace ContractCheckRule

def parseBundle (rule : ContractCheckRule) : Option ContractBundleData :=
  (rule.bundle.document rule.serde).bind ContractBundleData.ofJson

/-- The tier is denied only when both tiers are known and the principal's is lower. -/
def tierTooLow (rule : ContractCheckRule) (data : ContractBundleData) : Bool :=
  match data.requiredTier with
  | none => false
  | some required => match tierRank required, tierRank rule.principal.tier with
    | some requiredRank, some principalRank => principalRank < requiredRank
    | _, _ => false

def checkPrincipal (rule : ContractCheckRule) (data : ContractBundleData) :
    Except AuditKind Unit :=
  if data.allowedPurposes ≠ [] ∧ rule.principal.declaredPurpose ∉ data.allowedPurposes then
    .error .purposeMismatch
  else if rule.tierTooLow data then .error .tierMismatch
  else match data.requiredClassification with
    | none => .ok ()
    | some required =>
      if rule.principal.classification ≠ required then .error .classificationMismatch else .ok ()

def denialDetail (rule : ContractCheckRule) (data : ContractBundleData) : AuditKind → AuditDetail
  | .purposeMismatch => .purpose rule.principal.declaredPurpose data.allowedPurposes
  | .tierMismatch => .tier rule.principal.tier (data.requiredTier.getD "?")
  | .classificationMismatch =>
    .classification rule.principal.classification (data.requiredClassification.getD "?")
  | _ => .denied

def audit (rule : ContractCheckRule) (kind : AuditKind) (tableName : String)
    (detail : AuditDetail) : AuditRecord :=
  ⟨kind, tableName, rule.bundle.tenantId, some rule.bundle.contractId, detail⟩

/-- `empty_relation_from_schema`: relations are dropped from the field names,
which must then be distinct, or the schema is empty. -/
def emptyRelationFromSchema (schema : DFSchema) : LogicalPlan :=
  let fields := schema.map fun f => {f with qualifier := none}
  .emptyRelation false (if (fields.map fun f => f.field.name).Nodup then fields else [])

/-- The replacement of a scan, the marker of an approval, and the audit record. -/
def evaluateScan (rule : ContractCheckRule) (scan : LogicalPlan) (tableName : String) :
    LogicalPlan × Option ContractCheckMarker × AuditRecord :=
  match rule.parseBundle with
  | none => (emptyRelationFromSchema scan.schema, none,
      rule.audit .contractCheckDenied tableName .noBundle)
  | some data => match rule.checkPrincipal data with
    | .error kind => (emptyRelationFromSchema scan.schema, none,
        rule.audit kind tableName (rule.denialDetail data kind))
    | .ok () => (.contractApproved rule.bundle.contractId rule.bundle.tenantId scan scan.schema,
        some ⟨rule.bundle.contractId, rule.bundle.tenantId⟩,
        rule.audit .contractCheckApproved tableName .satisfied)

/-- The closure `rewrite` walks the plan with. -/
def visit (rule : ContractCheckRule) : Visitor CheckState DataFusionError
  | .tableScan tableName schema filters => fun s =>
    let (node, marker, audit) := rule.evaluateScan (.tableScan tableName schema filters) tableName
    (.ok (.jump node), {
      auditRecords := s.auditRecords ++ [audit]
      approvedTables := s.approvedTables ++ marker.toList
      approvedSet := if marker.isSome then insert tableName s.approvedSet else s.approvedSet
      changed := true})
  | node => pure (.descend node)

theorem visit_tableScan (rule : ContractCheckRule) (tableName : String) (schema : DFSchema)
    (filters : List Expr) (s : CheckState) :
    rule.visit (.tableScan tableName schema filters) s =
      let (node, marker, audit) := rule.evaluateScan (.tableScan tableName schema filters) tableName
      (.ok (.jump node), {
        auditRecords := s.auditRecords ++ [audit]
        approvedTables := s.approvedTables ++ marker.toList
        approvedSet := if marker.isSome then insert tableName s.approvedSet else s.approvedSet
        changed := true}) := rfl

/-- Any other node is walked through as it is. -/
theorem visit_of_not_scan (rule : ContractCheckRule) {plan : LogicalPlan}
    (h : plan.isTableScan = false) (s : CheckState) :
    rule.visit plan s = (.ok (.descend plan), s) := by
  cases plan with
  | tableScan => exact absurd h (by simp [LogicalPlan.isTableScan])
  | _ => rfl

/-- A scan is replaced and recorded. -/
theorem visit_of_scan (rule : ContractCheckRule) {scan : LogicalPlan}
    (h : scan.isTableScan = true) (s : CheckState) :
    ∃ tableName s', rule.visit scan s = (.ok (.jump (rule.evaluateScan scan tableName).1), s') ∧
      s'.auditRecords = s.auditRecords ++ [(rule.evaluateScan scan tableName).2.2] := by
  cases scan with
  | tableScan tableName schema filters => exact ⟨tableName, _, rfl, rfl⟩
  | _ => exact absurd h (by simp [LogicalPlan.isTableScan])

/-- One step of the walk. -/
theorem visit_cases (rule : ContractCheckRule) {p : LogicalPlan} {s s' : CheckState} {v : Visit}
    (h : rule.visit p s = (.ok v, s')) :
    (p.isTableScan = true ∧ ∃ tableName, v = .jump (rule.evaluateScan p tableName).1) ∨
      p.isTableScan = false ∧ v = .descend p := by
  cases hscan : p.isTableScan with
  | true =>
    obtain ⟨tableName, s₁, hjump, -⟩ := rule.visit_of_scan hscan s
    obtain ⟨hv, -⟩ := Prod.mk.inj (h.symm.trans hjump)
    exact .inl ⟨rfl, tableName, Except.ok.inj hv⟩
  | false =>
    obtain ⟨hv, -⟩ := Prod.mk.inj (h.symm.trans (rule.visit_of_not_scan hscan s))
    exact .inr ⟨rfl, Except.ok.inj hv⟩

def rewrite (rule : ContractCheckRule) (plan : LogicalPlan) :
    Pass CheckState DataFusionError Transformed := fun s =>
  match transformDown rule.visit plan {s with changed := false} with
  | (.ok data, s') => (.ok ⟨data, s'.changed⟩, s')
  | (.error e, s') => (.error e, s')

/-! ### What the rule promises -/

/-- The bundle can be read and the principal satisfies it. -/
def Approves (rule : ContractCheckRule) : Prop :=
  ∃ data, rule.parseBundle = some data ∧ rule.checkPrincipal data = .ok ()

/-- Every scan of a plan is the input of a marker with the contract's id. -/
def ScansApproved (contractId : String) (plan : LogicalPlan) : Prop :=
  ∀ o ∈ plan.occurrences, o.2.isTableScan = true →
    ∃ tenantId schema, o.1.above.head? = some (.contractApproved contractId tenantId o.2 schema)

def ScansRemoved (plan : LogicalPlan) : Prop :=
  ∀ o ∈ plan.occurrences, o.2.isTableScan = false

/-- The number of scans in a plan, those of subquery expressions included. -/
def scanCount (plan : LogicalPlan) : Nat := plan.occurrences.countP fun o => o.2.isTableScan

/-- **No scan escapes**: in the rewritten plan every scan is approved, or none is
left, and one record per scan of the plan was added, all approvals or all denials. -/
def NoScanEscapes (rule : ContractCheckRule) (plan : LogicalPlan) (s : CheckState) : Prop :=
  ∃ result s' added, rule.rewrite plan s = (.ok result, s') ∧
    s'.auditRecords = s.auditRecords ++ added ∧ added.length = scanCount plan ∧
    (rule.Approves → ScansApproved rule.bundle.contractId result.data ∧
      ∀ a ∈ added, a.kind = .contractCheckApproved) ∧
    (¬rule.Approves → ScansRemoved result.data ∧ ∀ a ∈ added, a.kind ≠ .contractCheckApproved)

/-! ### One scan -/

theorem emptyRelationFromSchema_isTableScan (schema : DFSchema) :
    (emptyRelationFromSchema schema).isTableScan = false := rfl

/-- A principal is turned away with one of the three mismatches. -/
theorem checkPrincipal_error_mem {rule : ContractCheckRule} {data : ContractBundleData}
    {kind : AuditKind} (h : rule.checkPrincipal data = .error kind) :
    kind ∈ [AuditKind.purposeMismatch, .tierMismatch, .classificationMismatch] := by
  unfold checkPrincipal at h
  split at h
  · simp [← Except.error.inj h]
  · split at h
    · simp [← Except.error.inj h]
    · split at h
      · cases h
      · split at h
        · simp [← Except.error.inj h]
        · cases h

theorem checkPrincipal_error {rule : ContractCheckRule} {data : ContractBundleData}
    {kind : AuditKind} (h : rule.checkPrincipal data = .error kind) :
    kind ≠ .contractCheckApproved := by
  have hmem := checkPrincipal_error_mem h
  rintro rfl
  simp at hmem

/-- The two replacements of a scan. -/
theorem evaluateScan_cases (rule : ContractCheckRule) (scan : LogicalPlan) (tableName : String) :
    (rule.Approves ∧ (rule.evaluateScan scan tableName).1 =
        .contractApproved rule.bundle.contractId rule.bundle.tenantId scan scan.schema ∧
      (rule.evaluateScan scan tableName).2.2.kind = .contractCheckApproved) ∨
    (¬rule.Approves ∧ (rule.evaluateScan scan tableName).1 = emptyRelationFromSchema scan.schema ∧
      (rule.evaluateScan scan tableName).2.2.kind ≠ .contractCheckApproved) := by
  unfold evaluateScan
  cases hparse : rule.parseBundle with
  | none => exact .inr ⟨by simp [Approves, hparse], rfl, by simp [audit]⟩
  | some data =>
    cases hcheck : rule.checkPrincipal data with
    | ok u => exact .inl ⟨⟨data, hparse, hcheck⟩, by simp [hcheck], by simp [hcheck, audit]⟩
    | error kind =>
      refine .inr ⟨by simp [Approves, hparse, hcheck], by simp [hcheck], ?_⟩
      simpa [hcheck, audit] using checkPrincipal_error hcheck

/-- A walk over an approved scan. -/
theorem transformDown_scan {rule : ContractCheckRule} (happroves : rule.Approves) (tableName : String)
    (schema : DFSchema) (filters : List Expr) (s : CheckState) :
    ∃ s', transformDown rule.visit (.tableScan tableName schema filters) s =
      (.ok (.contractApproved rule.bundle.contractId rule.bundle.tenantId
        (.tableScan tableName schema filters) schema), s') := by
  rw [transformDown, Pass.bind_run, visit_tableScan]
  rcases hscan : rule.evaluateScan (.tableScan tableName schema filters) tableName with
    ⟨node, marker, audit⟩
  have hcases := rule.evaluateScan_cases (.tableScan tableName schema filters) tableName
  rw [hscan] at hcases
  obtain ⟨-, hnode, -⟩ | ⟨hnot, -⟩ := hcases
  · obtain rfl := hnode
    exact ⟨_, rfl⟩
  · exact absurd happroves hnot

/-! ### One walk -/

/-- The scans of a subtree the walk reaches: those outside subquery expressions. -/
def reached (o : Site × LogicalPlan) : Bool := !o.1.nested && o.2.isTableScan

/-- What walking a subtree does to it and to the records, wherever it is put. -/
structure Checked (rule : ContractCheckRule) (plan : LogicalPlan) (s : CheckState)
    (plan' : LogicalPlan) (s' : CheckState) : Prop where
  notScan : plan'.isTableScan = false
  records : ∃ added, s'.auditRecords = s.auditRecords ++ added ∧
    (∀ site : Site, site.nested = false → added.length = (plan.occurrencesAt site).countP reached) ∧
    ∀ a ∈ added, (a.kind = .contractCheckApproved ↔ rule.Approves)
  /-- Where no scan of the plan is nested, each scan left is the input of a marker,
  and there is one left only if the rule approves. -/
  scans : ∀ place : Site, place.nested = false →
    (∀ o ∈ plan.occurrencesAt place, o.1.nested = true → o.2.isTableScan = false) →
    ∀ site : Site, ∀ o ∈ plan'.occurrencesAt site, o.2.isTableScan = true → rule.Approves ∧
      ∃ tenantId schema,
        o.1.above.head? = some (.contractApproved rule.bundle.contractId tenantId o.2 schema)

theorem countP_exprs (plan : LogicalPlan) :
    (plan.exprs.flatMap Expr.occurrences).countP reached = 0 := by
  rw [List.countP_eq_zero]
  intro o ho
  simp [reached, plan.nested_exprs o ho]

/-- The records of inputs walked in turn add up. -/
theorem walked_records {rule : ContractCheckRule} {ps ps' : List LogicalPlan} {s s' : CheckState}
    (h : Walked (Checked rule) ps s ps' s') :
    ∃ added, s'.auditRecords = s.auditRecords ++ added ∧
      (∀ site : Site, site.nested = false →
        added.length = (ps.flatMap (LogicalPlan.occurrencesAt site)).countP reached) ∧
      ∀ a ∈ added, (a.kind = .contractCheckApproved ↔ rule.Approves) := by
  induction h with
  | nil s => exact ⟨[], by simp, by simp, by simp⟩
  | @cons p p' ps ps' s s₁ s₂ hp _ ih =>
    obtain ⟨first, hfirst, hcount, hkind⟩ := hp.records
    obtain ⟨rest, hrest, hcount', hkind'⟩ := ih
    refine ⟨first ++ rest, by rw [hrest, hfirst, List.append_assoc], fun site hsite => ?_,
      fun a ha => (List.mem_append.mp ha).elim (hkind a) (hkind' a)⟩
    rw [List.length_append, hcount site hsite, hcount' site hsite, List.flatMap_cons,
      List.countP_append]

theorem walked_mem {rule : ContractCheckRule} {ps ps' : List LogicalPlan} {s s' : CheckState}
    (h : Walked (Checked rule) ps s ps' s') {q' : LogicalPlan} (hq : q' ∈ ps') :
    ∃ q ∈ ps, ∃ t t', Checked rule q t q' t' := by
  induction h with
  | nil s => exact absurd hq (by simp)
  | @cons p p' ps ps' s s₁ s₂ hp _ ih =>
    rcases List.mem_cons.mp hq with rfl | hq
    · exact ⟨p, List.mem_cons_self .., s, s₁, hp⟩
    · obtain ⟨q, hmem, t, t', hc⟩ := ih hq
      exact ⟨q, List.mem_cons_of_mem _ hmem, t, t', hc⟩

theorem checked_scan (rule : ContractCheckRule) {scan : LogicalPlan}
    (hscan : scan.isTableScan = true) (s : CheckState) {node : LogicalPlan} {s' : CheckState}
    (h : rule.visit scan s = (.ok (.jump node), s')) : Checked rule scan s node s' := by
  obtain ⟨tableName, s'', hv, hrecords⟩ := rule.visit_of_scan hscan s
  obtain ⟨rfl, rfl⟩ : (rule.evaluateScan scan tableName).1 = node ∧ s'' = s' := by
    rw [hv] at h
    simpa using h
  have hinputs : scan.inputs = [] := by
    cases scan with
    | tableScan => rfl
    | _ => exact absurd hscan (by simp [LogicalPlan.isTableScan])
  have hone : ∀ site : Site, site.nested = false →
      (scan.occurrencesAt site).countP reached = 1 := by
    intro site hsite
    rw [LogicalPlan.occurrencesAt_eq, List.countP_cons, List.countP_append, countP_exprs]
    simp [reached, hsite, hinputs, hscan]
  have hadded : ∀ site : Site, site.nested = false →
      [(rule.evaluateScan scan tableName).2.2].length = (scan.occurrencesAt site).countP reached :=
    fun site hsite => (hone site hsite).symm
  obtain ⟨happ, hnode, hkind⟩ | ⟨happ, hnode, hkind⟩ := rule.evaluateScan_cases scan tableName
  · refine ⟨by rw [hnode]; rfl, ⟨_, hrecords, hadded, by simp [hkind, happ]⟩, ?_⟩
    intro place hplace hnested site o ho hs
    refine ⟨happ, ?_⟩
    rw [hnode, LogicalPlan.occurrencesAt] at ho
    obtain rfl | ho := List.mem_cons.mp ho
    · exact absurd hs (by simp [LogicalPlan.isTableScan])
    · rw [LogicalPlan.occurrencesAt_eq, hinputs, List.flatMap_nil, List.append_nil] at ho
      obtain rfl | ho := List.mem_cons.mp ho
      · exact ⟨_, _, rfl⟩
      · -- A plan in the scan's own filters: nested, so not a scan.
        have hmem : o ∈ scan.occurrencesAt place := by
          rw [LogicalPlan.occurrencesAt_eq]
          exact List.mem_cons_of_mem _ (List.mem_append_left _ ho)
        simp [hnested o hmem (scan.nested_exprs o ho)] at hs
  · refine ⟨by rw [hnode]; rfl, ⟨_, hrecords, hadded, by simp [hkind, happ]⟩, ?_⟩
    intro _ _ _ site o ho hs
    rw [hnode, emptyRelationFromSchema, LogicalPlan.occurrencesAt, List.mem_singleton] at ho
    subst ho
    exact absurd hs (by simp [LogicalPlan.isTableScan])

theorem checked_descend (rule : ContractCheckRule) (plan : LogicalPlan)
    (hscan : plan.isTableScan = false) (s : CheckState) (kids : List LogicalPlan) (s' : CheckState)
    (h : Walked (Checked rule) plan.inputs s kids s') :
    Checked rule plan s (plan.withInputs kids) s' := by
  refine ⟨by simpa using hscan, ?_, ?_⟩
  · obtain ⟨added, hadded, hcount, hkind⟩ := walked_records h
    refine ⟨added, hadded, fun site hsite => ?_, hkind⟩
    rw [LogicalPlan.occurrencesAt_eq, List.countP_cons, List.countP_append, countP_exprs,
      hcount (site.under plan) (by simpa using hsite)]
    simp [reached, hscan]
  · intro place hplace hnested site o ho hs
    rw [LogicalPlan.occurrencesAt_eq, List.mem_cons, List.mem_append, LogicalPlan.exprs_withInputs,
      plan.inputs_withInputs h.length_eq] at ho
    obtain rfl | ho | ho := ho
    · exact absurd hs (by simp [hscan])
    · have hno := hnested o (by
        rw [LogicalPlan.occurrencesAt_eq]
        exact List.mem_cons_of_mem _ (List.mem_append_left _ ho)) (plan.nested_exprs o ho)
      simp [hno] at hs
    · obtain ⟨q', hq', ho⟩ := List.mem_flatMap.mp ho
      obtain ⟨q, hq, t, t', hc⟩ := walked_mem h hq'
      refine hc.scans (place.under plan) (by simpa using hplace) (fun p hp => ?_) _ o ho hs
      refine hnested p ?_
      rw [LogicalPlan.occurrencesAt_eq]
      exact List.mem_cons_of_mem _ (List.mem_append_right _ (List.mem_flatMap.mpr ⟨q, hq, hp⟩))

theorem visit_ok (rule : ContractCheckRule) (plan : LogicalPlan) (s : CheckState) :
    ∃ v s', rule.visit plan s = (.ok v, s') := by
  cases hscan : plan.isTableScan with
  | true =>
    obtain ⟨tableName, s', hv, -⟩ := rule.visit_of_scan hscan s
    exact ⟨_, s', hv⟩
  | false => exact ⟨_, s, rule.visit_of_not_scan hscan s⟩

/-- **One walk**: what it leaves behind, for every plan and wherever it started. -/
theorem checked_walk (rule : ContractCheckRule) (plan : LogicalPlan) (s : CheckState)
    (plan' : LogicalPlan) (s' : CheckState)
    (h : transformDown rule.visit plan s = (.ok plan', s')) : Checked rule plan s plan' s' := by
  refine transformDown_induct (R := Checked rule) ?_ ?_ plan s plan' s' h
  · intro plan s node s' hv
    cases hscan : plan.isTableScan with
    | true => exact rule.checked_scan hscan s hv
    | false => simp [rule.visit_of_not_scan hscan s] at hv
  · intro plan s node s₁ kids s₂ hv hwalked
    cases hscan : plan.isTableScan with
    | true =>
      obtain ⟨tableName, s', hjump, -⟩ := rule.visit_of_scan hscan s
      simp [hjump] at hv
    | false =>
      obtain ⟨rfl, rfl⟩ : plan = node ∧ s = s₁ := by
        simpa [rule.visit_of_not_scan hscan s] using hv
      exact rule.checked_descend plan hscan s kids s₂ hwalked

/-! ### Whole plans -/

theorem rewrite_ok (rule : ContractCheckRule) (plan : LogicalPlan) (s : CheckState) :
    ∃ result s', rule.rewrite plan s = (.ok result, s') ∧
      Checked rule plan {s with changed := false} result.data s' := by
  obtain ⟨plan', s', h⟩ := transformDown_total rule.visit_ok plan {s with changed := false}
  refine ⟨⟨plan', s'.changed⟩, s', ?_, rule.checked_walk plan _ plan' s' h⟩
  rw [rewrite, h]

/-- Every scan is either reached or inside a subquery expression. -/
theorem scanCount_eq (plan : LogicalPlan) :
    scanCount plan = plan.occurrences.countP reached +
      plan.occurrences.countP (fun o => o.1.nested && o.2.isTableScan) := by
  rw [scanCount]
  induction plan.occurrences with
  | nil => rfl
  | cons o os ih =>
    obtain ⟨⟨above, nested⟩, node⟩ := o
    simp only [List.countP_cons, ih, reached]
    cases nested with
    | false => simp; omega
    | true => simp; omega

/-- The walk leaves no record of a scan inside a subquery expression. -/
theorem unnested_of_noScanEscapes {rule : ContractCheckRule} {plan : LogicalPlan} {s : CheckState}
    (h : NoScanEscapes rule plan s) :
    ∀ o ∈ plan.occurrences, o.1.nested = true → o.2.isTableScan = false := by
  intro o ho hnested
  obtain ⟨result, s', hrun, hchecked⟩ := rule.rewrite_ok plan s
  obtain ⟨added, hadded, hcount, -⟩ := hchecked.records
  obtain ⟨result', s'', added', hrun', hadded', hlength, -, -⟩ := h
  obtain ⟨rfl, rfl⟩ : result = result' ∧ s' = s'' := by simpa [hrun] using hrun'
  obtain rfl : added = added' := List.append_cancel_left (hadded.symm.trans hadded')
  have hreached : added.length = plan.occurrences.countP reached := hcount .root rfl
  have hnone : plan.occurrences.countP (fun o => o.1.nested && o.2.isTableScan) = 0 := by
    have := scanCount_eq plan
    omega
  have := List.countP_eq_zero.mp hnone o ho
  simpa [hnested] using this

theorem noScanEscapes_of_unnested (rule : ContractCheckRule) {plan : LogicalPlan} (s : CheckState)
    (hnested : ∀ o ∈ plan.occurrences, o.1.nested = true → o.2.isTableScan = false) :
    NoScanEscapes rule plan s := by
  obtain ⟨result, s', hrun, hchecked⟩ := rule.rewrite_ok plan s
  obtain ⟨added, hadded, hcount, hkind⟩ := hchecked.records
  have hnone : plan.occurrences.countP (fun o => o.1.nested && o.2.isTableScan) = 0 := by
    rw [List.countP_eq_zero]
    intro o ho
    cases hn : o.1.nested with
    | false => simp
    | true => simp [hnested o ho hn]
  have hlength : added.length = scanCount plan := by
    have hreached : added.length = plan.occurrences.countP reached := hcount .root rfl
    have := scanCount_eq plan
    omega
  have hscans := hchecked.scans .root rfl hnested .root
  refine ⟨result, s', added, hrun, hadded, hlength, ?_, ?_⟩
  · intro happ
    exact ⟨fun o ho hs => (hscans o ho hs).2, fun a ha => (hkind a ha).mpr happ⟩
  · intro happ
    refine ⟨fun o ho => ?_, fun a ha hk => happ ((hkind a ha).mp hk)⟩
    by_contra hs
    exact happ (hscans o ho (by simpa using hs)).1

/-- **When no scan escapes**: exactly when no subquery expression of the plan, at
any depth, holds a scan. -/
theorem rewrite_covers_iff (rule : ContractCheckRule) (plan : LogicalPlan) (s : CheckState) :
    NoScanEscapes rule plan s ↔
      ∀ o ∈ plan.occurrences, o.1.nested = true → o.2.isTableScan = false :=
  ⟨unnested_of_noScanEscapes, noScanEscapes_of_unnested rule s⟩

/-- `SELECT id FROM orders WHERE id IN (SELECT id FROM secrets)` -/
def semiJoinPlan : LogicalPlan :=
  let id : DFSchema := [⟨none, ⟨"id", .int64, false⟩⟩]
  .projection [.column ⟨none, "id"⟩]
    (.filter
      (.subquery (.inSubquery false) [.column ⟨none, "id"⟩]
        (.projection [.column ⟨none, "id"⟩] (.tableScan "secrets" id []) id) [])
      (.tableScan "orders" id []))
    id

/-- A rule without a contract: every scan should be denied. -/
def withoutContract : ContractCheckRule where
  serde := ⟨fun _ => none, fun _ => [], rfl⟩
  bundle := ⟨[], "orders-contract", "acme"⟩
  principal := ⟨"user:alice", "analytics", "gold", "internal"⟩

theorem semiJoin_scan_escapes :
    ¬NoScanEscapes withoutContract semiJoinPlan ⟨[], [], ∅, false⟩ := by
  intro h
  have hscan := unnested_of_noScanEscapes h
    (⟨[.projection [.column ⟨none, "id"⟩]
        (.tableScan "secrets" [⟨none, ⟨"id", .int64, false⟩⟩] [])
        [⟨none, ⟨"id", .int64, false⟩⟩]], true⟩,
      .tableScan "secrets" [⟨none, ⟨"id", .int64, false⟩⟩] [])
    (by simp [semiJoinPlan, LogicalPlan.occurrences, LogicalPlan.occurrencesAt, Expr.occurrences,
      Expr.allOccurrences, Site.inSubquery, Site.under])
    rfl
  simp [LogicalPlan.isTableScan] at hscan

end ContractCheckRule
end Griot.Logical
