import Griot.Physical.Approval

/-! When an envelope names the contract that approved the rows.

The attestation operator takes its id from its handle and its version from the handle's
document, and any plan as its input. What it attests is true of the plan exactly when the
approvals of that contract and version alone, with all others taken out, would satisfy
the guard of the other operators and cover every leaf (`attests_iff`). -/
namespace Griot.Physical

open Lib

/-- The id and the version that the bundle's document gives. -/
def recorded (serde : SerdeJson) (bundle : ContractBundleHandle) : Option AttestationBundleData :=
  (bundle.document serde).bind AttestationBundleData.ofJson

/-- The handle is of the envelope's contract, and its document records the envelope's version
under the same id. -/
def AttestationEnvelope.NamedBy (serde : SerdeJson) (envelope : AttestationEnvelope)
    (bundle : ContractBundleHandle) : Prop :=
  bundle.contractId = envelope.contractId ∧
    recorded serde bundle = some ⟨envelope.contractId, envelope.contractVersion⟩

/-- The other handle is of the same contract, and its document records the id of the handle
and the version that the document of `own` does. -/
def sameContract (serde : SerdeJson) (own other : ContractBundleHandle) : Bool :=
  match recorded serde own, recorded serde other with
  | some a, some b =>
    other.contractId = own.contractId && b.contractId = own.contractId &&
      b.contractVersion = a.contractVersion
  | _, _ => false

namespace ExecutionPlan

/-! ### Leaves and the approvals above them -/

/-- The nodes from the top of the plan down to one of its leaves. -/
inductive PathToLeaf : ExecutionPlan → List ExecutionPlan → Prop
  | leaf {plan : ExecutionPlan} : plan.children = [] → PathToLeaf plan [plan]
  | under {plan child : ExecutionPlan} {path : List ExecutionPlan} : child ∈ plan.children →
    PathToLeaf child path → PathToLeaf plan (plan :: path)

/-- Every leaf is below an approval by a bundle of the envelope's contract and version. -/
def Attests (serde : SerdeJson) (envelope : AttestationEnvelope) (inner : ExecutionPlan) : Prop :=
  ∀ path, PathToLeaf inner path →
    ∃ bundle below, contractApproved bundle below ∈ path ∧ envelope.NamedBy serde bundle

section
variable (keep : ContractBundleHandle → Bool)

def approvedBy : ExecutionPlan → Bool
  | contractApproved bundle _ => keep bundle
  | _ => false

mutual

/-- The plan without the approvals by other bundles. -/
def keepApprovals : ExecutionPlan → ExecutionPlan
  | dataSource schema stream => .dataSource schema stream
  | contractApproved bundle inner =>
    if keep bundle then .contractApproved bundle inner.keepApprovals else inner.keepApprovals
  | rowFilter op inner => .rowFilter op inner.keepApprovals
  | masking op inner => .masking op inner.keepApprovals
  | laplaceNoise op inner => .laplaceNoise op inner.keepApprovals
  | attestation op inner => .attestation op inner.keepApprovals
  | projection indices inner => .projection indices inner.keepApprovals
  | globalLimit fetch inner => .globalLimit fetch inner.keepApprovals
  | operator schemaOf run children => .operator schemaOf run (keepApprovalsAll children)

def keepApprovalsAll : List ExecutionPlan → List ExecutionPlan
  | [] => []
  | plan :: plans => plan.keepApprovals :: keepApprovalsAll plans

end

/-- A leaf is below none of the approvals that are kept. -/
def Escapes (plan : ExecutionPlan) : Prop :=
  ∃ path, PathToLeaf plan path ∧ ∀ node ∈ path, node.approvedBy keep = false

variable {keep}

theorem keepApprovalsAll_eq (plans : List ExecutionPlan) :
    keepApprovalsAll keep plans = plans.map (keepApprovals keep) := by
  induction plans with
  | nil => rfl
  | cons plan plans ih => rw [keepApprovalsAll, ih, List.map_cons]

variable (keep) in
/-- Only approvals are taken out. -/
theorem keepApprovals_of_other {plan : ExecutionPlan} (h : plan.isContractApproved = false) :
    (plan.keepApprovals keep).isContractApproved = false ∧
      (plan.keepApprovals keep).children = plan.children.map (keepApprovals keep) := by
  cases plan with
  | contractApproved => cases h
  | operator schemaOf run children =>
    rw [keepApprovals, keepApprovalsAll_eq]
    exact ⟨rfl, rfl⟩
  | _ =>
    rw [keepApprovals]
    exact ⟨rfl, rfl⟩

theorem approvedBy_of_other {plan : ExecutionPlan} (h : plan.isContractApproved = false) :
    plan.approvedBy keep = false := by
  cases plan with
  | contractApproved => cases h
  | _ => rfl

theorem unapprovedLeaf_step (plan : ExecutionPlan) :
    UnapprovedLeaf plan ↔ plan.isContractApproved = false ∧
      (plan.children = [] ∨ ∃ child ∈ plan.children, UnapprovedLeaf child) := by
  constructor
  · intro h
    cases h with
    | here hself hnil => exact ⟨hself, .inl hnil⟩
    | under hself hchild h => exact ⟨hself, .inr ⟨_, hchild, h⟩⟩
  · intro ⟨hself, h⟩
    obtain hnil | ⟨child, hchild, h⟩ := h
    · exact .here hself hnil
    · exact .under hself hchild h

theorem escapes_step (plan : ExecutionPlan) :
    plan.Escapes keep ↔ plan.approvedBy keep = false ∧
      (plan.children = [] ∨ ∃ child ∈ plan.children, child.Escapes keep) := by
  constructor
  · intro ⟨path, hpath, hnone⟩
    cases hpath with
    | leaf hnil => exact ⟨hnone plan List.mem_cons_self, .inl hnil⟩
    | under hchild hpath =>
      obtain ⟨hself, hnone⟩ := List.forall_mem_cons.1 hnone
      exact ⟨hself, .inr ⟨_, hchild, _, hpath, hnone⟩⟩
  · intro ⟨hself, h⟩
    obtain hnil | ⟨child, hchild, path, hpath, hnone⟩ := h
    · exact ⟨[plan], .leaf hnil, List.forall_mem_cons.2 ⟨hself, by simp⟩⟩
    · exact ⟨plan :: path, .under hchild hpath, List.forall_mem_cons.2 ⟨hself, hnone⟩⟩

/-- The leaves that escape are those without an approval once the others are taken out. -/
theorem unapprovedLeaf_keepApprovals (plan : ExecutionPlan) :
    UnapprovedLeaf (plan.keepApprovals keep) ↔ plan.Escapes keep := by
  induction plan using byChildren with
  | h plan ih =>
    rw [escapes_step]
    cases hself : plan.isContractApproved with
    | true =>
      cases plan with
      | contractApproved bundle inner =>
        have hinner := ih inner List.mem_cons_self
        cases hkeep : keep bundle with
        | true =>
          rw [keepApprovals, if_pos hkeep, unapprovedLeaf_step]
          simp [approvedBy, isContractApproved, hkeep]
        | false => simp [keepApprovals, approvedBy, hkeep, children, hinner]
      | _ => cases hself
    | false =>
      obtain ⟨hkept, hchildren⟩ := keepApprovals_of_other keep hself
      rw [unapprovedLeaf_step, hkept, hchildren, approvedBy_of_other hself, List.map_eq_nil_iff]
      simp only [List.mem_map, exists_exists_and_eq_and, true_and]
      exact or_congr_right (exists_congr fun child => and_congr_right (ih child))

/-- No leaf is without an approval exactly when the guard finds one and no operator has an
approval in one input and none in another. -/
theorem not_unapprovedLeaf_iff (plan : ExecutionPlan) :
    ¬ UnapprovedLeaf plan ↔ plan.hasContractApproved = true ∧ ¬ Mixed plan := by
  rw [hasContractApproved_iff]
  constructor
  · intro h
    have hmarked : Marked plan := by
      by_contra hnot
      exact h (unapprovedLeaf_of_not_marked hnot)
    exact ⟨hmarked, fun hmixed => h ((unapprovedLeaf_iff hmarked).2 hmixed)⟩
  · intro ⟨hmarked, hmixed⟩ hleaf
    exact hmixed ((unapprovedLeaf_iff hmarked).1 hleaf)

end

/-! ### What the operator attests -/

/-- The constructor made the operator over this input, or it was handed the input later. -/
inductive Attested (serde : SerdeJson) (sha256Hex : Bytes → String) :
    AttestationExec → ExecutionPlan → Prop
  | new {bundle : ContractBundleHandle} {querySql : String} {op : AttestationExec}
      {inner : ExecutionPlan} :
    newAttestation serde bundle sha256Hex querySql inner = .ok (.attestation op inner) →
      Attested serde sha256Hex op inner
  | copy {op op' : AttestationExec} {old inner : ExecutionPlan} {children : List ExecutionPlan} :
    Attested serde sha256Hex op old →
    (ExecutionPlan.attestation op old).withNewChildren children = .ok (.attestation op' inner) →
      Attested serde sha256Hex op' inner

/-- A version that is not empty is one that the document records. -/
theorem recorded_of_extract {serde : SerdeJson} {bundle : ContractBundleHandle} {version : String}
    (h : AttestationExec.extractContractVersion serde bundle = .ok version) (hne : version ≠ "") :
    ∃ data, recorded serde bundle = some data ∧ data.contractVersion = version := by
  rw [AttestationExec.extractContractVersion, bundleData] at h
  rw [recorded, ContractBundleHandle.document]
  split at h
  · exact absurd (Except.ok.inj h).symm hne
  · rename_i hbytes
    rw [if_neg hbytes]
    split at h
    · rename_i data hdata
      exact ⟨data, hdata, Except.ok.inj h⟩
    · cases h

/-- What the constructor reads off its bundle. -/
theorem ofBundle_ok {serde : SerdeJson} {sha256Hex : Bytes → String} {bundle : ContractBundleHandle}
    {querySql : String} {op : AttestationExec}
    (h : AttestationExec.ofBundle serde sha256Hex bundle querySql = .ok op) :
    op.bundle = bundle ∧ op.contractVersion ≠ "" ∧
      AttestationExec.extractContractVersion serde bundle = .ok op.contractVersion := by
  rw [AttestationExec.ofBundle] at h
  split at h
  · cases h
  obtain ⟨version, hversion, h⟩ := bind_eq_ok.mp h
  split at h
  · cases h
  rename_i hne
  obtain rfl := Except.ok.inj h
  exact ⟨rfl, hne, hversion⟩

/-- The operator's version is the one its bundle's document records. -/
theorem Attested.recorded_version {serde : SerdeJson} {sha256Hex : Bytes → String} {op : AttestationExec}
    {inner : ExecutionPlan} (h : Attested serde sha256Hex op inner) :
    ∃ data, recorded serde op.bundle = some data ∧ data.contractVersion = op.contractVersion := by
  induction h with
  | @new bundle querySql op inner hnew =>
    obtain ⟨made, hmade, hplan⟩ := bind_eq_ok.mp hnew
    obtain ⟨rfl, -⟩ := attestation.inj (Except.ok.inj hplan)
    obtain ⟨hbundle, hne, hversion⟩ := ofBundle_ok hmade
    rw [hbundle]
    exact recorded_of_extract hversion hne
  | copy _ hcopy ih =>
    obtain ⟨_, -, hplan⟩ := bind_eq_ok.mp hcopy
    obtain ⟨rfl, -⟩ := attestation.inj (Except.ok.inj hplan)
    exact ih

/-- Every envelope issued is one of these. -/
theorem executeAttested_envelope {engine : Engine} {draws : Nat → Nat → Nat → LaplaceNoiseExec.Draw}
    {stamp : Stamp} {op : AttestationExec} {inner : ExecutionPlan} {batches : List RecordBatch}
    {envelope : AttestationEnvelope}
    (h : executeAttested engine draws stamp op inner = .ok (batches, envelope)) :
    ∃ resultHash, AttestationExec.computeResultHash stamp batches = .ok resultHash ∧
      envelope = op.envelope stamp inner.collectRulesApplied resultHash := by
  obtain ⟨_, -, h⟩ := bind_eq_ok.mp h
  obtain ⟨resultHash, hhash, h⟩ := bind_eq_ok.mp h
  obtain ⟨rfl, rfl⟩ := Prod.mk.inj (Except.ok.inj h)
  refine ⟨resultHash, ?_, rfl⟩
  cases hcomputed : AttestationExec.computeResultHash stamp _ with
  | error e =>
    rw [hcomputed] at hhash
    cases hhash
  | ok computed =>
    rw [hcomputed] at hhash
    exact congrArg Except.ok (Except.ok.inj hhash)

section
variable {serde : SerdeJson} {sha256Hex : Bytes → String} {op : AttestationExec}
  {inner : ExecutionPlan} (h : Attested serde sha256Hex op inner) (stamp : Stamp)
  (resultHash : String)

include h

/-- The approvals an envelope of the operator names are those of its bundle's contract. -/
theorem Attested.namedBy_iff (rulesApplied : List String) (bundle : ContractBundleHandle) :
    (op.envelope stamp rulesApplied resultHash).NamedBy serde bundle ↔
      sameContract serde op.bundle bundle = true := by
  obtain ⟨data, hdata, hversion⟩ := h.recorded_version
  rw [sameContract, hdata, AttestationEnvelope.NamedBy, AttestationExec.envelope]
  cases recorded serde bundle with
  | none => simp
  | some other =>
    obtain ⟨id, version⟩ := other
    simp [hversion, and_assoc]

/-- It is true exactly when no leaf escapes the approvals of the contract. -/
theorem Attested.attests_iff_not_escapes (rulesApplied : List String) :
    inner.Attests serde (op.envelope stamp rulesApplied resultHash) ↔
      ¬ inner.Escapes (sameContract serde op.bundle) := by
  rw [Escapes, not_exists]
  refine forall_congr' fun path => ?_
  rw [not_and]
  refine imp_congr_right fun _ => ?_
  simp only [h.namedBy_iff]
  constructor
  · intro ⟨bundle, below, hmem, hsame⟩ hnone
    have hnot := hnone _ hmem
    rw [approvedBy, hsame] at hnot
    cases hnot
  · intro hnot
    by_contra hnone
    apply hnot
    intro node hnode
    cases node with
    | contractApproved bundle below =>
      exact Bool.eq_false_iff.2 fun hsame => hnone ⟨bundle, below, hnode, hsame⟩
    | _ => rfl

/-- **What the operator attests is true exactly when the approvals of its contract alone would
pass the guard of the other operators and leave no leaf out.** -/
theorem attests_iff :
    inner.Attests serde (op.envelope stamp inner.collectRulesApplied resultHash) ↔
      (inner.keepApprovals (sameContract serde op.bundle)).hasContractApproved = true ∧
        ¬ Mixed (inner.keepApprovals (sameContract serde op.bundle)) := by
  rw [← not_unapprovedLeaf_iff, unapprovedLeaf_keepApprovals]
  exact h.attests_iff_not_escapes stamp resultHash _

end

/-- A reader of one document, of contract "c" in version "1". -/
def manifest : SerdeJson :=
  .just "manifest" (.object [("contract_id", .string "c"), ("contract_version", .string "1")])
    (by decide)

def manifestHandle : ContractBundleHandle := ⟨utf8 "manifest", "c", "acme"⟩

/-- The operator for one query, with a digest that digests nothing. -/
def manifestOp : AttestationExec := ⟨manifestHandle, "", "1"⟩

theorem newAttestation_manifest (inner : ExecutionPlan) :
    newAttestation manifest manifestHandle (fun _ => "") "SELECT 1" inner =
      .ok (.attestation manifestOp inner) := by
  have hversion : AttestationExec.extractContractVersion manifest manifestHandle = .ok "1" := by
    have hdata : AttestationBundleData.ofJson (.object
        [("contract_id", .string "c"), ("contract_version", .string "1")]) = some ⟨"c", "1"⟩ := rfl
    have hread : bundleData "AttestationExec" AttestationBundleData.ofJson ⟨"", ""⟩ manifest
        manifestHandle = .ok ⟨"c", "1"⟩ :=
      bundleData_of_document (SerdeJson.just_fromSlice _ _ _) hdata
    rw [AttestationExec.extractContractVersion, hread]
    rfl
  rw [newAttestation, AttestationExec.ofBundle, hversion]
  rfl

def blankStamp : Stamp := ⟨fun _ => .ok [], fun _ => "", id, "", ""⟩

theorem attests_iff_approved :
    (contractApproved manifestHandle (.dataSource [] [])).Attests manifest
        (manifestOp.envelope blankStamp ["ContractApprovedExec"] "") ↔
      ((contractApproved manifestHandle (.dataSource [] [])).keepApprovals
          (sameContract manifest manifestHandle)).hasContractApproved = true ∧
        ¬ Mixed ((contractApproved manifestHandle (.dataSource [] [])).keepApprovals
          (sameContract manifest manifestHandle)) :=
  attests_iff (.new (newAttestation_manifest _)) blankStamp ""

/-- **An envelope of contract "c" for rows nothing approved.** -/
theorem ungoverned_attested :
    newAttestation manifest manifestHandle (fun _ => "") "SELECT 1" (.dataSource [] []) =
        .ok (.attestation manifestOp (.dataSource [] [])) ∧
      ¬ Attests manifest (manifestOp.envelope blankStamp [] "") (.dataSource [] []) := by
  refine ⟨newAttestation_manifest _, fun h => ?_⟩
  obtain ⟨bundle, below, hmem, -⟩ := h _ (.leaf rfl)
  simp at hmem

end ExecutionPlan
end Griot.Physical
