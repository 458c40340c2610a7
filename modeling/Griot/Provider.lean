import Griot.Physical.Plan

/-! The governed table.

A scan of the table is a scan of the raw table, in full, under approval, row
filter, masks and, for a policy with noise, noise; the projection and the limit
of the query come on top. -/
namespace Griot

open Lib Physical

/-- A table of the layer below: its schema and a scan of all its columns. -/
structure TableProvider where
  schema : Schema
  scan : Except DataFusionError ExecutionPlan

/-- `MemTable` with one partition. -/
def TableProvider.memory (schema : Schema) (batches : List RecordBatch) : TableProvider :=
  ⟨schema, .ok (.dataSource schema (batches.map .ok))⟩

structure ContractTableProvider where
  inner : TableProvider
  bundle : ContractBundleHandle
  tenantId : String
  hasDp : Bool
  governedSchema : Schema

namespace ContractTableProvider

/-- The governed schema is the inner one where the bundle cannot be read. -/
def new (serde : SerdeJson) (inner : TableProvider) (policy : ResolvedPolicy) :
    ContractTableProvider :=
  let bundle := policy.toBundleHandle serde
  let governedSchema := match MaskingExec.maskedSchemaForBundle serde inner.schema bundle with
    | .ok schema => schema
    | .error _ => inner.schema
  ⟨inner, bundle, policy.tenantId, policy.hasDp, governedSchema⟩

/-- `phys_to_df` -/
def physToDf (result : Except PhysicalError ExecutionPlan) : Except DataFusionError ExecutionPlan :=
  result.mapError .physical

/-- A place out of range panics. -/
def applyProjection (plan : ExecutionPlan) (indices : List Nat) :
    Except DataFusionError ExecutionPlan :=
  if ∀ i ∈ indices, i < plan.schema.length then .ok (.projection indices plan)
  else .error (.internal "index out of bounds")

/-- The enforcement operators on a full scan of the raw table. -/
def govern (serde : SerdeJson) (provider : ContractTableProvider) :
    Except DataFusionError ExecutionPlan := do
  let innerPlan ← provider.inner.scan
  let approved ← physToDf (ExecutionPlan.newContractApproved provider.bundle innerPlan)
  let filtered ← physToDf (ExecutionPlan.newRowFilter serde provider.bundle approved)
  let masked ← physToDf (ExecutionPlan.newMasking serde provider.bundle filtered)
  if provider.hasDp then
    physToDf (ExecutionPlan.newPermissive serde provider.bundle provider.tenantId masked)
  else return masked

/-- The projection and the limit of the query on top. -/
def narrow (projection : Option (List Nat)) (limit : Option Nat) (governed : ExecutionPlan) :
    Except DataFusionError ExecutionPlan := do
  let projected ← match projection with
    | some indices => applyProjection governed indices
    | none => pure governed
  return match limit with
    | some n => .globalLimit n projected
    | none => projected

def scan (serde : SerdeJson) (provider : ContractTableProvider) (projection : Option (List Nat))
    (limit : Option Nat) : Except DataFusionError ExecutionPlan := do
  let governed ← provider.govern serde
  narrow projection limit governed

end ContractTableProvider
end Griot
