import Griot.Physical.Attestation
import Griot.Physical.LaplaceNoise
import Griot.Physical.Masking

/-! Physical plans: how the operators are stacked and what the stack yields.

The operators that filter, mask and add noise can only be built above an approval marker
and keep one below when their input is exchanged; the attestation operator takes any
input. Executing a plan gives the stream of one partition; the plans of the layer below
that the operators stand on are given by their streams. -/
namespace Griot.Physical

open Lib Budget

inductive ExecutionPlan where
  /-- A plan of the layer below, with the stream it yields. -/
  | dataSource (schema : Schema) (stream : BatchStream DataFusionError RecordBatch)
  | contractApproved (bundle : ContractBundleHandle) (inner : ExecutionPlan)
  | rowFilter (op : RowFilterExec) (inner : ExecutionPlan)
  | masking (op : MaskingExec) (inner : ExecutionPlan)
  | laplaceNoise (op : LaplaceNoiseExec) (inner : ExecutionPlan)
  | attestation (op : AttestationExec) (inner : ExecutionPlan)
  /-- `ProjectionExec` onto columns. -/
  | projection (indices : List Nat) (inner : ExecutionPlan)
  /-- `GlobalLimitExec` that skips nothing. -/
  | globalLimit (fetch : Nat) (inner : ExecutionPlan)
  /-- Any other operator, on any number of inputs: joins, unions. -/
  | operator (schemaOf : List Schema → Schema)
      (run : List (BatchStream DataFusionError RecordBatch) → BatchStream DataFusionError RecordBatch)
      (children : List ExecutionPlan)

namespace ExecutionPlan

mutual

def schema : ExecutionPlan → Schema
  | dataSource schema _ => schema
  | contractApproved _ inner => inner.schema
  | rowFilter _ inner => inner.schema
  | masking op _ => op.outputSchema
  | laplaceNoise _ inner => inner.schema
  | attestation _ inner => inner.schema
  | projection indices inner => select indices inner.schema
  -- It has no schema of its own, and takes the one in the plan properties of its input.
  | globalLimit _ inner => inner.propertiesSchema
  | operator schemaOf _ children => schemaOf (schemas children)

/-- The schema in the plan properties. The enforcement operators clone those of their input,
so a mask does not show in them. -/
def propertiesSchema : ExecutionPlan → Schema
  | dataSource schema _ => schema
  | contractApproved _ inner => inner.propertiesSchema
  | rowFilter _ inner => inner.propertiesSchema
  | masking _ inner => inner.propertiesSchema
  | laplaceNoise _ inner => inner.propertiesSchema
  | attestation _ inner => inner.propertiesSchema
  | projection indices inner => select indices inner.schema
  | globalLimit _ inner => inner.propertiesSchema
  | operator schemaOf _ children => schemaOf (schemas children)

def schemas : List ExecutionPlan → List Schema
  | [] => []
  | plan :: plans => plan.schema :: schemas plans

end

mutual

/-- `plan_has_contract_approved` -/
def hasContractApproved : ExecutionPlan → Bool
  | dataSource _ _ => false
  | contractApproved _ _ => true
  | rowFilter _ inner => inner.hasContractApproved
  | masking _ inner => inner.hasContractApproved
  | laplaceNoise _ inner => inner.hasContractApproved
  | attestation _ inner => inner.hasContractApproved
  | projection _ inner => inner.hasContractApproved
  | globalLimit _ inner => inner.hasContractApproved
  | operator _ _ children => anyContractApproved children

def anyContractApproved : List ExecutionPlan → Bool
  | [] => false
  | plan :: plans => plan.hasContractApproved || anyContractApproved plans

end

/-! ### Constructors -/

def newContractApproved (bundle : ContractBundleHandle) (inner : ExecutionPlan) :
    Except PhysicalError ExecutionPlan :=
  if bundle.contractId = "" then .error (.contractNotApproved "ContractApprovedExec")
  else .ok (.contractApproved bundle inner)

/-- Only above an approval marker. -/
def requireApproved (operator : String) (inner : ExecutionPlan) : Except PhysicalError Unit :=
  if inner.hasContractApproved then .ok () else .error (.contractNotApproved operator)

variable (serde : SerdeJson) (bundle : ContractBundleHandle)

def newRowFilter (inner : ExecutionPlan) : Except PhysicalError ExecutionPlan := do
  requireApproved "RowFilterExec" inner
  let rowFilterExpr ← RowFilterExec.parseRowFilter serde bundle
  return .rowFilter ⟨bundle, rowFilterExpr⟩ inner

def newMasking (inner : ExecutionPlan) : Except PhysicalError ExecutionPlan := do
  requireApproved "MaskingExec" inner
  let columnPolicies ← MaskingExec.parseMaskingBundle serde bundle
  return .masking ⟨bundle, columnPolicies,
    MaskingExec.maskedOutputSchema inner.schema columnPolicies⟩ inner

def buildLaplaceNoise (tenantId : String) (budget : PrivacyBudgetTracker) (inner : ExecutionPlan) :
    Except PhysicalError ExecutionPlan := do
  requireApproved "LaplaceNoiseExec" inner
  let op ← LaplaceNoiseExec.ofBundle serde bundle tenantId budget
  return .laplaceNoise op inner

/-- `LaplaceNoiseExec::new_permissive` -/
def newPermissive (tenantId : String) (inner : ExecutionPlan) : Except PhysicalError ExecutionPlan :=
  buildLaplaceNoise serde bundle tenantId .new inner

/-- `LaplaceNoiseExec::new_with_budget` -/
def newWithBudget (tenantId : String) (budget : PrivacyBudgetTracker) (inner : ExecutionPlan) :
    Except PhysicalError ExecutionPlan :=
  buildLaplaceNoise serde bundle tenantId budget inner

/-- `AttestationExec::new`: the input is not looked at. -/
def newAttestation (sha256Hex : Bytes → String) (querySql : String) (inner : ExecutionPlan) :
    Except PhysicalError ExecutionPlan := do
  let op ← AttestationExec.ofBundle serde sha256Hex bundle querySql
  return .attestation op inner

/-! ### Exchanging the input -/

def onlyChild (operator : String) (children : List ExecutionPlan) :
    Except DataFusionError ExecutionPlan :=
  match children with
  | inner :: _ => .ok inner
  | [] => .error (.internal (operator ++ "::with_new_children requires exactly one child"))

/-- A new input with an approval marker in it; `missing` ends the message where there is none. -/
def approvedChild (operator missing : String) (children : List ExecutionPlan) :
    Except DataFusionError ExecutionPlan := do
  let inner ← onlyChild operator children
  if inner.hasContractApproved then return inner
  else throw (.internal
    (operator ++ "::with_new_children: new child has no ContractApprovedExec" ++ missing))

/-- `with_new_children`: a copy keeps the operator, its tracker included; the masked
schema is computed again. -/
def withNewChildren : ExecutionPlan → List ExecutionPlan → Except DataFusionError ExecutionPlan
  | dataSource schema stream, _ => .ok (.dataSource schema stream)
  | contractApproved bundle _, children => do
    let inner ← onlyChild "ContractApprovedExec" children
    return .contractApproved bundle inner
  | rowFilter op _, children => do
    let inner ← approvedChild "RowFilterExec" " ancestor" children
    return .rowFilter op inner
  | masking op _, children => do
    let inner ← approvedChild "MaskingExec" " ancestor" children
    return .masking {op with
      outputSchema := MaskingExec.maskedOutputSchema inner.schema op.columnPolicies} inner
  | laplaceNoise op _, children => do
    let inner ← approvedChild "LaplaceNoiseExec" "" children
    return .laplaceNoise op inner
  | attestation op _, children => do
    let inner ← onlyChild "AttestationExec" children
    return .attestation op inner
  | projection indices _, children => do
    let inner ← onlyChild "ProjectionExec" children
    return .projection indices inner
  | globalLimit fetch _, children => do
    let inner ← onlyChild "GlobalLimitExec" children
    return .globalLimit fetch inner
  | operator schemaOf run _, children => .ok (.operator schemaOf run children)

/-! ### Execution -/

section
variable (engine : Engine) (draws : Nat → Nat → Nat → LaplaceNoiseExec.Draw)

mutual

/-- The stream of the plan; `draws` are the samples of its noise. -/
def execute : ExecutionPlan → BatchStream DataFusionError RecordBatch
  | dataSource _ stream => stream
  | contractApproved _ inner => inner.execute
  | rowFilter op inner => andThen inner.execute (op.onBatch engine)
  | masking op inner => andThen inner.execute (op.onBatch engine)
  | laplaceNoise op inner =>
    if op.dpColumns.isEmpty then inner.execute
    else op.noiseStream engine.rounding draws 0 ⟨op.budget, .fin 0⟩ inner.execute
  -- The envelope is not part of the stream: `executeAttested`.
  | attestation _ inner => inner.execute
  | projection indices inner =>
    andThen inner.execute fun batch => .ok (batch.project indices)
  | globalLimit fetch inner => limitStream RecordBatch.batching fetch inner.execute
  | operator _ run children => run (executeAll children)

def executeAll : List ExecutionPlan → List (BatchStream DataFusionError RecordBatch)
  | [] => []
  | plan :: plans => plan.execute :: executeAll plans

end

end

/-! ### Attestation -/

mutual

/-- The enforcement operators of the plan, from the top. -/
def collectRulesApplied : ExecutionPlan → List String
  | dataSource _ _ => []
  | contractApproved _ inner => "ContractApprovedExec" :: inner.collectRulesApplied
  | rowFilter _ inner => "RowFilterExec" :: inner.collectRulesApplied
  | masking _ inner => "MaskingExec" :: inner.collectRulesApplied
  | laplaceNoise _ inner => "LaplaceNoiseExec" :: inner.collectRulesApplied
  | attestation _ inner => "AttestationExec" :: inner.collectRulesApplied
  | projection _ inner => inner.collectRulesApplied
  | globalLimit _ inner => inner.collectRulesApplied
  | operator _ _ children => collectRulesAppliedAll children

def collectRulesAppliedAll : List ExecutionPlan → List String
  | [] => []
  | plan :: plans => plan.collectRulesApplied ++ collectRulesAppliedAll plans

end

/-- `execute_attested` of the operator over `inner`: the batches and their envelope, or the
error of the plan or of the hash. -/
def executeAttested (engine : Engine) (draws : Nat → Nat → Nat → LaplaceNoiseExec.Draw)
    (stamp : Stamp) (op : AttestationExec) (inner : ExecutionPlan) :
    Except (DataFusionError ⊕ PhysicalError) (List RecordBatch × AttestationEnvelope) := do
  let batches ← (collect (inner.execute engine draws)).mapError .inl
  let resultHash ← (AttestationExec.computeResultHash stamp batches).mapError .inr
  return (batches, op.envelope stamp inner.collectRulesApplied resultHash)

end ExecutionPlan
end Griot.Physical
