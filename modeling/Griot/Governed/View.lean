import Griot.Governed.Types

/-! The governed table over any table.

Of a plan its readers see the schemas and the stream. What they see of a scan of the
governed table is a function of the policy and of what is seen of the raw scan
(`scan_view`), whatever table and whatever plan is below. -/
namespace Griot

open Lib Physical Budget

/-- What is seen of a plan. -/
structure PlanView where
  schema : Schema
  propertiesSchema : Schema
  stream : BatchStream DataFusionError RecordBatch

section View
variable (engine : Engine) (draws : Nat → Nat → Nat → LaplaceNoiseExec.Draw)

def PlanView.ofPlan (plan : ExecutionPlan) : PlanView :=
  ⟨plan.schema, plan.propertiesSchema, plan.execute engine draws⟩

namespace PlanView

def rowFilter (op : RowFilterExec) (v : PlanView) : PlanView :=
  {v with stream := andThen v.stream (op.onBatch engine)}

def masking (op : MaskingExec) (v : PlanView) : PlanView :=
  {v with schema := op.outputSchema, stream := andThen v.stream (op.onBatch engine)}

def laplaceNoise (op : LaplaceNoiseExec) (v : PlanView) : PlanView :=
  {v with stream :=
    if op.dpColumns.isEmpty then v.stream
    else op.noiseStream engine.rounding draws 0 ⟨op.budget, .fin 0⟩ v.stream}

def projection (indices : List Nat) (v : PlanView) : PlanView :=
  ⟨select indices v.schema, select indices v.schema,
    andThen v.stream fun batch => .ok (batch.project indices)⟩

def globalLimit (fetch : Nat) (v : PlanView) : PlanView :=
  {v with schema := v.propertiesSchema, stream := limitStream RecordBatch.batching fetch v.stream}

end PlanView

variable (serde : SerdeJson) (p : ResolvedPolicy)

/-- Filter and masks. -/
def enforceView (filter : Option String) (policies : Dict String Logical.MaskPolicy)
    (v : PlanView) : PlanView :=
  (v.rowFilter engine ⟨p.toBundleHandle serde, filter⟩).masking engine
    ⟨p.toBundleHandle serde, policies, MaskingExec.maskedOutputSchema v.schema policies⟩

/-- The enforcement operators. -/
def governView (v : PlanView) : Except DataFusionError PlanView := do
  if p.contractId = "" then
    throw (.physical (.contractNotApproved "ContractApprovedExec"))
  let filter ← (RowFilterExec.parseRowFilter serde (p.toBundleHandle serde)).mapError .physical
  let policies ← (MaskingExec.parseMaskingBundle serde (p.toBundleHandle serde)).mapError .physical
  let masked := enforceView engine serde p filter policies v
  if p.hasDp then
    let op ← (LaplaceNoiseExec.ofBundle serde (p.toBundleHandle serde) p.tenantId .new).mapError
      .physical
    return masked.laplaceNoise engine draws op
  else return masked

/-- The columns and the rows the query asks for. -/
def narrowView (sel : Selection) (v : PlanView) : Except DataFusionError PlanView := do
  let projected ← match sel.projection with
    | some indices =>
      if ∀ i ∈ indices, i < v.schema.length then .ok (v.projection indices)
      else .error (.internal "index out of bounds")
    | none => .ok v
  return sel.limit.elim projected (projected.globalLimit ·)

variable {engine draws serde p}

/-- A computation seen step by step. -/
theorem map_bind_of_map {ε α α' β β' : Type} {x : Except ε α} {k : α → Except ε β} {f : α → α'}
    {g : β → β'} {k' : α' → Except ε β'} (h : ∀ a, (k a).map g = k' (f a)) :
    (x >>= k).map g = x.map f >>= k' := by
  cases x with
  | error e => rfl
  | ok a => exact h a

theorem govern_view (inner : TableProvider) :
    ((ContractTableProvider.new serde inner p).govern serde).map (PlanView.ofPlan engine draws) =
      inner.scan >>= fun plan => governView engine draws serde p (PlanView.ofPlan engine draws plan) := by
  rw [ContractTableProvider.govern]
  cases hscan : inner.scan with
  | error e => simp only [ContractTableProvider.new, hscan]; rfl
  | ok plan =>
    have hid : (p.toBundleHandle serde).contractId = p.contractId := rfl
    simp only [ContractTableProvider.new, hscan, ExecutionPlan.newContractApproved, hid]
    show _ = governView engine draws serde p (PlanView.ofPlan engine draws plan)
    rw [governView]
    by_cases hempty : p.contractId = ""
    · simp only [if_pos hempty]
      rfl
    simp only [if_neg hempty, ExecutionPlan.newRowFilter, ExecutionPlan.newMasking]
    cases hfilter : RowFilterExec.parseRowFilter serde (p.toBundleHandle serde) with
    | error e => rfl
    | ok filter =>
      cases hmasks : MaskingExec.parseMaskingBundle serde (p.toBundleHandle serde) with
      | error e => rfl
      | ok policies =>
        by_cases hdp : p.hasDp = true
        · simp only [hdp, ExecutionPlan.newPermissive, ExecutionPlan.buildLaplaceNoise]
          cases LaplaceNoiseExec.ofBundle serde (p.toBundleHandle serde) p.tenantId .new <;> rfl
        · simp only [hdp]
          rfl

theorem narrow_view (sel : Selection) (plan : ExecutionPlan) :
    (ContractTableProvider.narrow sel.projection sel.limit plan).map
        (PlanView.ofPlan engine draws) =
      narrowView sel (PlanView.ofPlan engine draws plan) := by
  obtain ⟨projection, limit⟩ := sel
  cases projection with
  | none => cases limit <;> rfl
  | some indices =>
    have hschema : (PlanView.ofPlan engine draws plan).schema = plan.schema := rfl
    simp only [ContractTableProvider.narrow, ContractTableProvider.applyProjection, narrowView,
      hschema]
    by_cases hrange : ∀ i ∈ indices, i < plan.schema.length
    · simp only [if_pos hrange]
      cases limit <;> rfl
    · simp only [if_neg hrange]
      rfl

/-- **What is seen of a governed scan** depends on the raw table by what is seen of its scan. -/
theorem scan_view (inner : TableProvider) (sel : Selection) :
    ((ContractTableProvider.new serde inner p).scan serde sel.projection sel.limit).map
        (PlanView.ofPlan engine draws) =
      inner.scan >>= fun plan =>
        governView engine draws serde p (PlanView.ofPlan engine draws plan) >>= narrowView sel := by
  rw [ContractTableProvider.scan, map_bind_of_map (narrow_view sel), govern_view]
  cases inner.scan <;> rfl

end View
end Griot
