import Griot.Governed.Noise
import Griot.Physical.Provenance

/-! Queries that are attested.

A query reads each governed table by a scan with an approval of the table's own contract.
So an envelope for the query tells the truth exactly when every table it reads is under the
contract and the version of the bundle it was made with (`attested_scans_iff`): a query over
tables of two contracts cannot be attested. -/
namespace Griot

open Lib Physical

theorem ContractBundleHandle.document_of_fromSlice {serde : SerdeJson}
    {bundle : ContractBundleHandle} {doc : Json} (h : serde.fromSlice bundle.rawBytes = some doc) :
    bundle.document serde = some doc := by
  rw [document]
  split
  · rename_i hempty
    rw [List.isEmpty_iff.mp hempty, serde.fromSlice_nil] at h
    cases h
  · exact h

namespace Physical.ExecutionPlan
variable {keep : ContractBundleHandle → Bool}

/-! ### Plans on a scan -/

/-- Nodes with one input, none of them an approval, are put on a plan. -/
inductive OnTop (base : ExecutionPlan) : ExecutionPlan → Prop
  | base : OnTop base base
  | node {plan child : ExecutionPlan} : plan.isContractApproved = false → plan.children = [child] →
    OnTop base child → OnTop base plan

theorem OnTop.escapes_iff {base plan : ExecutionPlan} (h : OnTop base plan) :
    plan.Escapes keep ↔ base.Escapes keep := by
  induction h with
  | base => exact Iff.rfl
  | node hself hchild _ ih =>
    rw [escapes_step, hchild, approvedBy_of_other hself, ← ih]
    simp

/-- A leaf without any approval is without the ones that are kept. -/
theorem UnapprovedLeaf.escapes {plan : ExecutionPlan} (h : UnapprovedLeaf plan) :
    plan.Escapes keep := by
  induction h with
  | here hself hnil => exact (escapes_step _).mpr ⟨approvedBy_of_other hself, .inl hnil⟩
  | under hself hchild _ ih =>
    exact (escapes_step _).mpr ⟨approvedBy_of_other hself, .inr ⟨_, hchild, ih⟩⟩

theorem escapes_contractApproved {bundle : ContractBundleHandle} {raw : ExecutionPlan}
    (hraw : UnapprovedLeaf raw) :
    (contractApproved bundle raw).Escapes keep ↔ keep bundle = false := by
  rw [escapes_step]
  simp [approvedBy, children, hraw.escapes]

end Physical.ExecutionPlan

namespace ContractTableProvider
variable {serde : SerdeJson} {p : ResolvedPolicy} {inner : TableProvider}

theorem govern_onTop {plan : ExecutionPlan} (h : (new serde inner p).govern serde = .ok plan) :
    ∃ raw, inner.scan = .ok raw ∧
      ExecutionPlan.OnTop (.contractApproved (p.toBundleHandle serde) raw) plan := by
  rw [govern] at h
  obtain ⟨raw, hraw, h⟩ := bind_eq_ok.mp h
  obtain ⟨approved, happroved, h⟩ := bind_eq_ok.mp h
  obtain ⟨filtered, hfiltered, h⟩ := bind_eq_ok.mp h
  obtain ⟨masked, hmasked, h⟩ := bind_eq_ok.mp h
  have happroved := mapError_ok.mp happroved
  rw [ExecutionPlan.newContractApproved] at happroved
  split at happroved
  · cases happroved
  obtain rfl := Except.ok.inj happroved
  obtain ⟨_, -, hfiltered⟩ := bind_eq_ok.mp (mapError_ok.mp hfiltered)
  obtain ⟨_, -, hfiltered⟩ := bind_eq_ok.mp hfiltered
  obtain rfl := Except.ok.inj hfiltered
  obtain ⟨_, -, hmasked⟩ := bind_eq_ok.mp (mapError_ok.mp hmasked)
  obtain ⟨_, -, hmasked⟩ := bind_eq_ok.mp hmasked
  obtain rfl := Except.ok.inj hmasked
  have hmask {op : MaskingExec} {filter : RowFilterExec} : ExecutionPlan.OnTop
      (.contractApproved (p.toBundleHandle serde) raw)
      (.masking op (.rowFilter filter (.contractApproved (p.toBundleHandle serde) raw))) :=
    .node rfl rfl (.node rfl rfl .base)
  refine ⟨raw, hraw, ?_⟩
  split at h
  · obtain ⟨_, -, hnoise⟩ := bind_eq_ok.mp (mapError_ok.mp h)
    obtain ⟨_, -, hnoise⟩ := bind_eq_ok.mp hnoise
    obtain rfl := Except.ok.inj hnoise
    exact .node rfl rfl hmask
  · obtain rfl := Except.ok.inj h
    exact hmask

theorem applyProjection_onTop {indices : List Nat} {governed plan : ExecutionPlan}
    (h : applyProjection governed indices = .ok plan) : governed.OnTop plan := by
  rw [applyProjection] at h
  split at h
  · obtain rfl := Except.ok.inj h
    exact .node rfl rfl .base
  · cases h

theorem narrow_onTop {projection : Option (List Nat)} {limit : Option Nat}
    {governed plan : ExecutionPlan} (h : narrow projection limit governed = .ok plan) :
    governed.OnTop plan := by
  cases projection with
  | none =>
    cases limit with
    | none =>
      obtain rfl := Except.ok.inj h
      exact .base
    | some n =>
      obtain rfl := Except.ok.inj h
      exact .node rfl rfl .base
  | some indices =>
    obtain ⟨projected, hprojected, h⟩ := bind_eq_ok.mp h
    have hprojected := applyProjection_onTop hprojected
    cases limit with
    | none =>
      obtain rfl := Except.ok.inj h
      exact hprojected
    | some n =>
      obtain rfl := Except.ok.inj h
      exact .node rfl rfl hprojected

/-- **The rows of a scan have one approval**, that of the policy's contract. -/
theorem scan_escapes_iff {keep : ContractBundleHandle → Bool}
    (hinner : ∀ raw, inner.scan = .ok raw → raw.UnapprovedLeaf) {projection : Option (List Nat)}
    {limit : Option Nat} {plan : ExecutionPlan}
    (h : (new serde inner p).scan serde projection limit = .ok plan) :
    plan.Escapes keep ↔ keep (p.toBundleHandle serde) = false := by
  obtain ⟨governed, hgoverned, h⟩ := bind_eq_ok.mp h
  obtain ⟨raw, hraw, honTop⟩ := govern_onTop hgoverned
  rw [(narrow_onTop h).escapes_iff, honTop.escapes_iff,
    ExecutionPlan.escapes_contractApproved (hinner raw hraw)]

end ContractTableProvider

/-! ### Plans on many scans -/

/-- The operators of a query, on scans of tables that these policies govern. What a table is
bound to is approved by nothing of its own. -/
inductive OnScans (serde : SerdeJson) : ExecutionPlan → List ResolvedPolicy → Prop
  | scan {inner : TableProvider} {p : ResolvedPolicy} {projection : Option (List Nat)}
      {limit : Option Nat} {plan : ExecutionPlan} :
    (∀ raw, inner.scan = .ok raw → raw.UnapprovedLeaf) →
    (ContractTableProvider.new serde inner p).scan serde projection limit = .ok plan →
      OnScans serde plan [p]
  | node {plan : ExecutionPlan} (policies : ExecutionPlan → List ResolvedPolicy) :
    plan.isContractApproved = false → plan.children ≠ [] →
    (∀ child ∈ plan.children, OnScans serde child (policies child)) →
      OnScans serde plan (plan.children.flatMap policies)

section
variable {serde : SerdeJson} {p q : ResolvedPolicy} {ps : List ResolvedPolicy}
  {plan : ExecutionPlan}

theorem OnScans.escapes_iff {keep : ContractBundleHandle → Bool} (h : OnScans serde plan ps) :
    plan.Escapes keep ↔ ∃ p ∈ ps, keep (p.toBundleHandle serde) = false := by
  induction h with
  | scan hinner hscan => simp [ContractTableProvider.scan_escapes_iff hinner hscan]
  | @node plan policies hself hne _ ih =>
    rw [ExecutionPlan.escapes_step, ExecutionPlan.approvedBy_of_other hself]
    simp only [hne, true_and, false_or, List.mem_flatMap]
    constructor
    · rintro ⟨child, hchild, hescapes⟩
      obtain ⟨p, hp, hkeep⟩ := (ih child hchild).mp hescapes
      exact ⟨p, ⟨child, hchild, hp⟩, hkeep⟩
    · rintro ⟨p, ⟨child, hchild, hp⟩, hkeep⟩
      exact ⟨child, hchild, (ih child hchild).mpr ⟨p, hp, hkeep⟩⟩

/-! ### The bundle of a policy -/

theorem recorded_toBundleHandle
    (hserde : serde.fromSlice (serde.toVec p.toBundleValue) = some p.toBundleValue) :
    recorded serde (p.toBundleHandle serde) = some ⟨p.contractId, p.contractVersion⟩ := by
  rw [recorded, ContractBundleHandle.document_of_fromSlice hserde]
  rfl

theorem sameContract_toBundleHandle
    (hq : serde.fromSlice (serde.toVec q.toBundleValue) = some q.toBundleValue)
    (hp : serde.fromSlice (serde.toVec p.toBundleValue) = some p.toBundleValue) :
    sameContract serde (q.toBundleHandle serde) (p.toBundleHandle serde) = true ↔
      p.contractId = q.contractId ∧ p.contractVersion = q.contractVersion := by
  rw [sameContract, recorded_toBundleHandle hq, recorded_toBundleHandle hp]
  show (decide (p.contractId = q.contractId) && decide (p.contractId = q.contractId) &&
    decide (p.contractVersion = q.contractVersion)) = true ↔ _
  simp only [Bool.and_eq_true, decide_eq_true_eq, and_self]

/-- A policy with an id and a version makes an operator over any plan. -/
theorem newAttestation_toBundleHandle
    (hserde : serde.fromSlice (serde.toVec q.toBundleValue) = some q.toBundleValue)
    (hid : q.contractId ≠ "") (hversion : q.contractVersion ≠ "") (sha256Hex : Bytes → String)
    (querySql : String) (plan : ExecutionPlan) :
    ExecutionPlan.newAttestation serde (q.toBundleHandle serde) sha256Hex querySql plan =
      .ok (.attestation ⟨q.toBundleHandle serde, sha256Hex (utf8 querySql), q.contractVersion⟩
        plan) := by
  have hextract : AttestationExec.extractContractVersion serde (q.toBundleHandle serde) =
      .ok q.contractVersion := by
    have hdata : AttestationBundleData.ofJson q.toBundleValue =
        some ⟨q.contractId, q.contractVersion⟩ := rfl
    rw [AttestationExec.extractContractVersion, bundleData_of_document hserde hdata]
    rfl
  have hid : (q.toBundleHandle serde).contractId ≠ "" := hid
  rw [ExecutionPlan.newAttestation, AttestationExec.ofBundle, if_neg hid, hextract]
  simp [bind, Except.bind, pure, Except.pure, hversion]

/-- **When a query is truly attested**: in every run of an attestation over scans of governed
tables, the envelope names the contract and the version that approved all rows exactly when
every table is under the contract and the version of the policy it was made with. -/
theorem attested_scans_iff
    (hserde : ∀ p ∈ q :: ps, serde.fromSlice (serde.toVec p.toBundleValue) = some p.toBundleValue)
    (hplan : OnScans serde plan ps) {sha256Hex : Bytes → String} {querySql : String}
    {op : AttestationExec}
    (hop : ExecutionPlan.newAttestation serde (q.toBundleHandle serde) sha256Hex querySql plan =
      .ok (.attestation op plan))
    {engine : Engine} {draws : Nat → Nat → Nat → LaplaceNoiseExec.Draw} {stamp : Stamp}
    {batches : List RecordBatch} {envelope : AttestationEnvelope}
    (hrun : ExecutionPlan.executeAttested engine draws stamp op plan = .ok (batches, envelope)) :
    plan.Attests serde envelope ↔
      ∀ p ∈ ps, p.contractId = q.contractId ∧ p.contractVersion = q.contractVersion := by
  obtain ⟨resultHash, -, rfl⟩ := ExecutionPlan.executeAttested_envelope hrun
  obtain ⟨made, hmade, hmake⟩ := bind_eq_ok.mp hop
  obtain ⟨rfl, -⟩ := ExecutionPlan.attestation.inj (Except.ok.inj hmake)
  have hbundle := (ExecutionPlan.ofBundle_ok hmade).1
  rw [(ExecutionPlan.Attested.new hop).attests_iff_not_escapes stamp resultHash _, hplan.escapes_iff,
    hbundle]
  simp only [not_exists, not_and, Bool.not_eq_false]
  refine forall₂_congr fun p hp => ?_
  rw [sameContract_toBundleHandle (hserde q List.mem_cons_self)
    (hserde p (List.mem_cons_of_mem _ hp))]

end

/-! ### A payroll, twice -/

/-- All rows of two scans. -/
def unionAll (left right : ExecutionPlan) : ExecutionPlan :=
  .operator (fun schemas => schemas.headD []) List.flatten [left, right]

/-- A writer that writes something, and a digest that digests nothing. -/
def writingStamp : Stamp := ⟨fun _ => .ok [0], fun _ => "", id, "", ""⟩

theorem writingStamp_hash (batches : List RecordBatch) :
    AttestationExec.computeResultHash writingStamp batches = .ok "" := by
  rw [AttestationExec.computeResultHash]
  split <;> rfl

/-- The payroll is read twice under one contract, and its envelope is true. -/
theorem attested_scans_iff_payroll : ∃ scan op batches envelope,
    (ContractTableProvider.new (payrollSerde (payrollPolicy [])) (.memory payrollSchema [payroll])
      (payrollPolicy [])).scan (payrollSerde (payrollPolicy [])) none none = .ok scan ∧
    ExecutionPlan.executeAttested columnEngine (fun _ _ _ => (.fin 3, .fin 1))
      writingStamp op (unionAll scan scan) = .ok (batches, envelope) ∧
    (unionAll scan scan).Attests (payrollSerde (payrollPolicy [])) envelope := by
  have hop := newAttestation_toBundleHandle (payrollSerde_reads (payrollPolicy [])) (by decide)
    (by decide) (fun _ => "") "SELECT * FROM payroll UNION ALL SELECT * FROM payroll"
  have hscan : (match (ContractTableProvider.new (payrollSerde (payrollPolicy []))
      (.memory payrollSchema [payroll]) (payrollPolicy [])).scan (payrollSerde (payrollPolicy [])) none
        none with
      | .ok scan => (collect ((unionAll scan scan).execute columnEngine
          fun _ _ _ => (.fin 3, .fin 1))).isOk
      | .error _ => false) = true := by decide +kernel
  split at hscan
  · rename_i scan hplan
    cases hout : collect ((unionAll scan scan).execute columnEngine
        fun _ _ _ => (.fin 3, .fin 1)) with
    | error e =>
      rw [hout] at hscan
      cases hscan
    | ok out =>
      have hleaf : ∀ raw, (TableProvider.memory payrollSchema [payroll]).scan = .ok raw →
          raw.UnapprovedLeaf := fun raw hraw => by
        obtain rfl := Except.ok.inj hraw
        exact .here rfl rfl
      have hscans : OnScans (payrollSerde (payrollPolicy [])) (unionAll scan scan)
          [payrollPolicy [], payrollPolicy []] :=
        .node (fun _ => [payrollPolicy []]) rfl (by simp [unionAll, ExecutionPlan.children])
          fun child hchild => by
            obtain rfl : child = scan := by simpa [unionAll, ExecutionPlan.children] using hchild
            exact .scan hleaf hplan
      have hserde : ∀ p ∈ [payrollPolicy [], payrollPolicy [], payrollPolicy []],
          (payrollSerde (payrollPolicy [])).fromSlice
            ((payrollSerde (payrollPolicy [])).toVec p.toBundleValue) = some p.toBundleValue :=
        fun p hp => by
          obtain rfl : p = payrollPolicy [] := by simpa using hp
          exact payrollSerde_reads _
      cases hrun : ExecutionPlan.executeAttested columnEngine (fun _ _ _ => (.fin 3, .fin 1))
          writingStamp ⟨(payrollPolicy []).toBundleHandle (payrollSerde (payrollPolicy [])),
            "", "1.0.0"⟩ (unionAll scan scan) with
      | error e =>
        rw [ExecutionPlan.executeAttested, hout] at hrun
        simp [bind, Except.bind, Except.mapError, writingStamp_hash, pure, Except.pure] at hrun
      | ok result =>
        exact ⟨scan, _, result.1, result.2, hplan, hrun,
          (attested_scans_iff hserde hscans (hop _) hrun).mpr (by simp)⟩
  · cases hscan

end Griot
