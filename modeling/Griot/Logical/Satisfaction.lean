import Griot.Logical.ContractCheck

/-! When a principal satisfies a contract.

A principal satisfies a required tier if its tier is at least that tier, in the
order bronze < silver < gold. A name outside the order has no rank, so it neither
meets a requirement nor can be met as one; the check lets both through. Everything
else it decides as stated (`scanDecided_iff`). -/
namespace Griot.Logical

open Lib

/-- Both tiers are known and the principal's ranks at least as high. -/
def TierMet (tier required : String) : Prop :=
  ∃ rank requiredRank, tierRank tier = some rank ∧ tierRank required = some requiredRank ∧
    requiredRank ≤ rank

/-- What a contract asks of a principal. -/
structure Satisfies (principal : Principal) (data : ContractBundleData) : Prop where
  purpose : data.allowedPurposes = [] ∨ principal.declaredPurpose ∈ data.allowedPurposes
  tier : ∀ required, data.requiredTier = some required → TierMet principal.tier required
  classification : ∀ required, data.requiredClassification = some required →
    principal.classification = required

/-- Only the tier is in question: one is required, and it or the principal's is
not a known one. -/
structure TierUnknown (principal : Principal) (data : ContractBundleData) : Prop where
  purpose : data.allowedPurposes = [] ∨ principal.declaredPurpose ∈ data.allowedPurposes
  tier : ∃ required, data.requiredTier = some required ∧
    (required ∉ tierOrder ∨ principal.tier ∉ tierOrder)
  classification : ∀ required, data.requiredClassification = some required →
    principal.classification = required

/-- The tiers without a rank are those outside the order. -/
theorem tierRank_eq_none_iff (tier : String) : tierRank tier = none ↔ tier ∉ tierOrder := by
  rw [tierRank, List.findIdx?_eq_none_iff]
  simp only [decide_eq_false_iff_not]
  exact ⟨fun h hmem => h tier hmem rfl, fun h x hx hxt => h (hxt ▸ hx)⟩

namespace ContractCheckRule

/-- The scan is put under a marker, and the one record tells that it was approved. -/
structure ScanApproved (rule : ContractCheckRule) (scan : LogicalPlan) (tableName : String) :
    Prop where
  plan : (rule.evaluateScan scan tableName).1 =
    .contractApproved rule.bundle.contractId rule.bundle.tenantId scan scan.schema
  marker : (rule.evaluateScan scan tableName).2.1 =
    some ⟨rule.bundle.contractId, rule.bundle.tenantId⟩
  record : (rule.evaluateScan scan tableName).2.2.kind = .contractCheckApproved

/-- The scan becomes an empty relation, and the one record names the gate that closed. -/
structure ScanDenied (rule : ContractCheckRule) (scan : LogicalPlan) (tableName : String) :
    Prop where
  plan : ∃ schema, (rule.evaluateScan scan tableName).1 = .emptyRelation false schema
  marker : (rule.evaluateScan scan tableName).2.1 = none
  record : (rule.evaluateScan scan tableName).2.2.kind ∈
    [.contractCheckDenied, .purposeMismatch, .tierMismatch, .classificationMismatch]

/-- **Approved exactly when satisfied**, and denied otherwise. -/
structure ScanDecided (rule : ContractCheckRule) (scan : LogicalPlan) (tableName : String) :
    Prop where
  approved_iff : rule.ScanApproved scan tableName ↔
    ∃ data, rule.parseBundle = some data ∧ Satisfies rule.principal data
  denied : (¬∃ data, rule.parseBundle = some data ∧ Satisfies rule.principal data) →
    rule.ScanDenied scan tableName

/-! ### One gate each -/

/-- The tier gate stays open for a tier that is met, and for one that cannot be ranked. -/
theorem tierTooLow_eq_false_iff (rule : ContractCheckRule) (data : ContractBundleData) :
    rule.tierTooLow data = false ↔ ∀ required, data.requiredTier = some required →
      TierMet rule.principal.tier required ∨
        required ∉ tierOrder ∨ rule.principal.tier ∉ tierOrder := by
  simp only [← tierRank_eq_none_iff]
  cases hreq : data.requiredTier with
  | none => simp [tierTooLow, hreq]
  | some required =>
    cases hr : tierRank required with
    | none => simp [tierTooLow, hreq, hr]
    | some requiredRank =>
      cases hp : tierRank rule.principal.tier with
      | none => simp [tierTooLow, hreq, hr, hp]
      | some rank => simp [tierTooLow, hreq, TierMet, hr, hp]

theorem checkPrincipal_eq_ok_iff (rule : ContractCheckRule) (data : ContractBundleData) :
    rule.checkPrincipal data = .ok () ↔
      (data.allowedPurposes = [] ∨ rule.principal.declaredPurpose ∈ data.allowedPurposes) ∧
      rule.tierTooLow data = false ∧
      ∀ required, data.requiredClassification = some required →
        rule.principal.classification = required := by
  unfold checkPrincipal
  split
  · next h => simp [h]
  · next h =>
    have hpurpose : data.allowedPurposes = [] ∨
        rule.principal.declaredPurpose ∈ data.allowedPurposes := by tauto
    cases htier : rule.tierTooLow data with
    | true => simp
    | false =>
      cases hclass : data.requiredClassification with
      | none => simp [hpurpose]
      | some required =>
        by_cases heq : rule.principal.classification = required
        · simp [hpurpose, heq]
        · simp [heq]

/-- What the check lets through: the satisfied contracts and those whose tier it
cannot rank. -/
theorem checkPrincipal_ok_cases (rule : ContractCheckRule) (data : ContractBundleData) :
    rule.checkPrincipal data = .ok () ↔
      Satisfies rule.principal data ∨ TierUnknown rule.principal data := by
  rw [checkPrincipal_eq_ok_iff, tierTooLow_eq_false_iff]
  refine ⟨fun ⟨hpurpose, htier, hclass⟩ => ?_, ?_⟩
  · by_cases hmet : ∀ required, data.requiredTier = some required →
        TierMet rule.principal.tier required
    · exact .inl ⟨hpurpose, hmet, hclass⟩
    · push Not at hmet
      obtain ⟨required, hreq, hnot⟩ := hmet
      exact .inr ⟨hpurpose, ⟨required, hreq, (htier required hreq).resolve_left hnot⟩, hclass⟩
  · intro h
    cases h with
    | inl h => exact ⟨h.purpose, fun required hreq => .inl (h.tier required hreq), h.classification⟩
    | inr h =>
      refine ⟨h.purpose, fun required hreq => .inr ?_, h.classification⟩
      obtain ⟨required', hreq', hnone⟩ := h.tier
      obtain rfl : required = required' := Option.some.inj (hreq.symm.trans hreq')
      exact hnone

/-- A tier that cannot be ranked is not met. -/
theorem not_satisfies_of_tierUnknown {principal : Principal} {data : ContractBundleData}
    (h : TierUnknown principal data) : ¬Satisfies principal data := by
  intro hs
  obtain ⟨required, hreq, hnone⟩ := h.tier
  obtain ⟨rank, requiredRank, hrank, hrequired, -⟩ := hs.tier required hreq
  simp [← tierRank_eq_none_iff, hrank, hrequired] at hnone

/-! ### One scan -/

theorem scanApproved_iff (rule : ContractCheckRule) (scan : LogicalPlan) (tableName : String) :
    rule.ScanApproved scan tableName ↔ rule.Approves := by
  refine ⟨fun h => ?_, fun ⟨data, hparse, hcheck⟩ => ?_⟩
  · obtain ⟨happ, -⟩ | ⟨-, -, hkind⟩ := rule.evaluateScan_cases scan tableName
    · exact happ
    · exact absurd h.record hkind
  · have hscan : rule.evaluateScan scan tableName =
        (.contractApproved rule.bundle.contractId rule.bundle.tenantId scan scan.schema,
          some ⟨rule.bundle.contractId, rule.bundle.tenantId⟩,
          rule.audit .contractCheckApproved tableName .satisfied) := by
      simp [evaluateScan, hparse, hcheck]
    exact ⟨by rw [hscan], by rw [hscan], by rw [hscan]; rfl⟩

theorem scanDenied_of_not_approves {rule : ContractCheckRule} (h : ¬rule.Approves)
    (scan : LogicalPlan) (tableName : String) : rule.ScanDenied scan tableName := by
  cases hparse : rule.parseBundle with
  | none => exact ⟨⟨_, by rw [evaluateScan, hparse]; rfl⟩, by rw [evaluateScan, hparse],
      by rw [evaluateScan, hparse]; simp [audit]⟩
  | some data =>
    cases hcheck : rule.checkPrincipal data with
    | ok u => exact absurd ⟨data, hparse, hcheck⟩ h
    | error kind =>
      have hscan : rule.evaluateScan scan tableName = (emptyRelationFromSchema scan.schema, none,
          rule.audit kind tableName (rule.denialDetail data kind)) := by
        simp [evaluateScan, hparse, hcheck]
      refine ⟨⟨_, by rw [hscan]; rfl⟩, by rw [hscan], ?_⟩
      rw [hscan]
      exact List.mem_cons_of_mem _ (checkPrincipal_error_mem hcheck)

/-- **When scans are decided as stated**: unless the bundle decodes and only a tier
that cannot be ranked stands between the principal and the contract. -/
theorem scanDecided_iff (rule : ContractCheckRule) (scan : LogicalPlan) (tableName : String) :
    rule.ScanDecided scan tableName ↔
      ¬∃ data, rule.parseBundle = some data ∧ TierUnknown rule.principal data := by
  refine ⟨fun h => ?_, fun h => ?_⟩
  · intro ⟨data, hparse, hunknown⟩
    have happ : rule.Approves :=
      ⟨data, hparse, (rule.checkPrincipal_ok_cases data).mpr (.inr hunknown)⟩
    obtain ⟨data', hparse', hs⟩ := h.approved_iff.mp ((rule.scanApproved_iff scan tableName).mpr happ)
    obtain rfl : data = data' := Option.some.inj (hparse.symm.trans hparse')
    exact not_satisfies_of_tierUnknown hunknown hs
  · have happ : rule.Approves ↔
        ∃ data, rule.parseBundle = some data ∧ Satisfies rule.principal data := by
      refine ⟨fun ⟨data, hparse, hcheck⟩ => ?_, fun ⟨data, hparse, hs⟩ => ?_⟩
      · exact ⟨data, hparse, ((rule.checkPrincipal_ok_cases data).mp hcheck).resolve_right
          fun hunknown => h ⟨data, hparse, hunknown⟩⟩
      · exact ⟨data, hparse, (rule.checkPrincipal_ok_cases data).mpr (.inl hs)⟩
    exact ⟨(rule.scanApproved_iff scan tableName).trans happ,
      fun hnot => scanDenied_of_not_approves (fun ha => hnot (happ.mp ha)) scan tableName⟩

/-- A contract for a tier that is not in the order. -/
def platinumContract : ContractCheckRule where
  serde := .just "\x7b\"required_tier\":\"platinum\"\x7d"
    (.object [("required_tier", .string "platinum")]) (by decide)
  bundle := ⟨utf8 "\x7b\"required_tier\":\"platinum\"\x7d", "orders-contract", "acme"⟩
  principal := ⟨"user:alice", "analytics", "bronze", "internal"⟩

theorem platinumContract_parseBundle :
    platinumContract.parseBundle = some ⟨[], some "platinum", none⟩ := by
  have hdoc : platinumContract.bundle.document platinumContract.serde = _ :=
    ContractBundleHandle.document_just _ _ (by decide) _ _
  rw [parseBundle, hdoc]
  rfl

/-- The principal's bronze tier is not at least platinum, and the scan is approved. -/
theorem platinum_scan_approved :
    ¬platinumContract.ScanDecided (.tableScan "orders" [] []) "orders" := by
  intro h
  have hunknown : TierUnknown platinumContract.principal ⟨[], some "platinum", none⟩ :=
    ⟨.inl rfl, ⟨"platinum", rfl, .inl (by simp [tierOrder])⟩, fun _ hreq => by cases hreq⟩
  have happ : platinumContract.Approves :=
    ⟨_, platinumContract_parseBundle, (checkPrincipal_ok_cases _ _).mpr (.inr hunknown)⟩
  obtain ⟨data, hparse, hs⟩ := h.approved_iff.mp ((scanApproved_iff _ _ _).mpr happ)
  obtain rfl := Option.some.inj (hparse.symm.trans platinumContract_parseBundle)
  exact not_satisfies_of_tierUnknown hunknown hs

end ContractCheckRule
end Griot.Logical
