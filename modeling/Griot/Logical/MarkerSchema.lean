import Griot.Lib.Machine
import Griot.Logical.DpCoverage

/-! What a marker node says its schema is.

Both user-defined nodes keep the schema their input had when a rule put them there.
Rebuilding a node over another input keeps that schema too, so it is the input's
exactly as long as every new input looks like the first one (`schema_current_iff`). -/
namespace Griot.Logical

open Lib

structure ContractApprovedMarker where
  input : LogicalPlan
  contractId : String
  tenantId : String
  /-- The schema of the scan when it was wrapped. -/
  outputSchema : DFSchema

structure LaplaceNoiseNode where
  input : LogicalPlan
  column : String
  scaleStr : String
  /-- The schema of the aggregate when it was wrapped. -/
  outputSchema : DFSchema

/-- `inputs.into_iter().next().ok_or_else(..)` -/
def firstInput (message : String) : List LogicalPlan → Except DataFusionError LogicalPlan
  | [] => .error (.internal message)
  | input :: _ => .ok input

def ContractApprovedMarker.withExprsAndInputs (marker : ContractApprovedMarker)
    (_exprs : List Expr) (inputs : List LogicalPlan) :
    Except DataFusionError ContractApprovedMarker := do
  let input ← firstInput "ContractApprovedMarker requires one input" inputs
  return {marker with input}

def LaplaceNoiseNode.withExprsAndInputs (node : LaplaceNoiseNode)
    (_exprs : List Expr) (inputs : List LogicalPlan) :
    Except DataFusionError LaplaceNoiseNode := do
  let input ← firstInput "LaplaceNoiseNode requires one input" inputs
  return {node with input}

/-- The user-defined nodes of this repository. -/
inductive MarkerNode where
  | approved (marker : ContractApprovedMarker)
  | noise (node : LaplaceNoiseNode)

/-- The arguments of a call of `with_exprs_and_inputs`. -/
structure Rebuild where
  exprs : List Expr
  inputs : List LogicalPlan

namespace MarkerNode

def input : MarkerNode → LogicalPlan
  | approved marker => marker.input
  | noise node => node.input

def schema : MarkerNode → DFSchema
  | approved marker => marker.outputSchema
  | noise node => node.outputSchema

def withExprsAndInputs : MarkerNode → List Expr → List LogicalPlan →
    Except DataFusionError MarkerNode
  | approved marker, exprs, inputs => approved <$> marker.withExprsAndInputs exprs inputs
  | noise node, exprs, inputs => noise <$> node.withExprsAndInputs exprs inputs

/-- The node as it stands in a plan. -/
def toPlan : MarkerNode → LogicalPlan
  | approved marker =>
    .contractApproved marker.contractId marker.tenantId marker.input marker.outputSchema
  | noise node => .laplaceNoise node.column node.scaleStr node.input node.outputSchema

theorem toPlan_schema (node : MarkerNode) : node.toPlan.schema = node.schema := by
  cases node <;> rfl

theorem toPlan_inputs (node : MarkerNode) : node.toPlan.inputs = [node.input] := by
  cases node <;> rfl

/-- What a rebuild does: it takes the first input, and keeps the rest. -/
theorem rebuilt {node node' : MarkerNode} {exprs : List Expr} {inputs : List LogicalPlan}
    (h : node.withExprsAndInputs exprs inputs = .ok node') :
    inputs.head? = some node'.input ∧ node'.schema = node.schema ∧
      node'.toPlan = node.toPlan.withInputs [node'.input] := by
  cases inputs with
  | nil => cases node <;> cases h
  | cons q inputs =>
    cases node with
    | approved marker =>
      obtain rfl := Except.ok.inj h
      exact ⟨rfl, rfl, rfl⟩
    | noise node =>
      obtain rfl := Except.ok.inj h
      exact ⟨rfl, rfl, rfl⟩

theorem withExprsAndInputs_isSome_iff (node : MarkerNode) (exprs : List Expr)
    (inputs : List LogicalPlan) :
    (node.withExprsAndInputs exprs inputs).toOption.isSome ↔ inputs ≠ [] := by
  cases inputs with
  | nil => cases node <;> exact iff_of_false Bool.false_ne_true (not_not_intro rfl)
  | cons q inputs => cases node <;> exact iff_of_true rfl (List.cons_ne_nil q inputs)

/-- The schema shown is that of the current input. -/
def Current (node : MarkerNode) : Prop := node.schema = node.input.schema

theorem current_iff_toPlan (node : MarkerNode) :
    Current node ↔ ∀ q ∈ node.toPlan.inputs, node.toPlan.schema = q.schema := by
  rw [toPlan_inputs, List.forall_mem_singleton, toPlan_schema, Current]

/-! ### Where the nodes come from -/

/-- The noise nodes from the top of a plan down. -/
def noiseOnTop : LogicalPlan → List MarkerNode
  | .laplaceNoise column scaleStr input schema =>
    noise ⟨input, column, scaleStr, schema⟩ :: noiseOnTop input
  | _ => []

/-- The contract check put the node over a scan, or the noise rule put it over an aggregate. -/
inductive Created : MarkerNode → Prop
  | evaluateScan (rule : ContractCheckRule) (scan : LogicalPlan) (tableName : String)
      (node : MarkerNode) (h : (rule.evaluateScan scan tableName).1 = node.toPlan) : Created node
  | visit (rule : DPNoiseRule) (data : DPBundleData) (plan wrapped : LogicalPlan)
      (s s' : NoiseState) (h : rule.visit data plan s = (.ok (.jump wrapped), s'))
      (node : MarkerNode) (hnode : node ∈ noiseOnTop wrapped) : Created node

theorem current_of_mem_wrap {r : F64.Rounding} {schema : DFSchema} {found : List (String × F64)} :
    ∀ {plan : LogicalPlan}, plan.schema = schema → (∀ node ∈ noiseOnTop plan, Current node) →
      ∀ node ∈ noiseOnTop (DPNoiseRule.wrap r plan schema found), Current node := by
  induction found with
  | nil => exact fun _ h => h
  | cons f found ih =>
    intro plan hschema hnodes
    refine ih rfl ?_
    rw [noiseOnTop, List.forall_mem_cons]
    exact ⟨hschema.symm, hnodes⟩

/-- A new node shows the schema of its input. -/
theorem Created.current {node : MarkerNode} (h : Created node) : Current node := by
  cases h with
  | evaluateScan rule scan tableName node h =>
    obtain ⟨-, happroved, -⟩ | ⟨-, hempty, -⟩ := rule.evaluateScan_cases scan tableName
    · rw [happroved] at h
      cases node with
      | approved marker =>
        obtain ⟨-, -, hinput, hschema⟩ := LogicalPlan.contractApproved.inj h
        exact hschema.symm.trans (congrArg LogicalPlan.schema hinput)
      | noise node => cases h
    · rw [hempty] at h
      cases node <;> cases h
  | visit rule data plan wrapped s s' h node hnode =>
    obtain ⟨-, hjump⟩ | ⟨-, -, hjump, -⟩ | ⟨found, -, -, hjump, hfound, hne⟩ :=
      rule.visit_cases data plan s h
    · cases hjump
    · cases hjump
    · obtain rfl := Visit.jump.inj hjump
      refine current_of_mem_wrap rfl ?_ node hnode
      -- Only an aggregate is wrapped, so the noise on top is all new.
      cases plan with
      | laplaceNoise => exact absurd hfound hne
      | _ => exact fun node hnode => absurd hnode List.not_mem_nil

/-! ### Runs of rebuilds -/

/-- A node that other rules rebuild. -/
def rebuilds (node : MarkerNode) : Machine Rebuild MarkerNode where
  start := node
  step := fun call node => (node.withExprsAndInputs call.exprs call.inputs).toOption

theorem rebuilds_step {start node node' : MarkerNode} {call : Rebuild}
    (h : (rebuilds start).step call node = some node') :
    node.withExprsAndInputs call.exprs call.inputs = .ok node' := by
  change (node.withExprsAndInputs call.exprs call.inputs).toOption = some node' at h
  cases hcall : node.withExprsAndInputs call.exprs call.inputs with
  | error e =>
    rw [hcall] at h
    cases h
  | ok rebuilt =>
    rw [hcall] at h
    exact congrArg Except.ok (Option.some.inj h)

/-- Rebuilding goes through as long as there is an input to take. -/
theorem rebuilds_exec_iff {start : MarkerNode} (calls : List Rebuild) (node : MarkerNode) :
    ((rebuilds start).exec calls node).isSome ↔ ∀ call ∈ calls, call.inputs ≠ [] := by
  induction calls generalizing node with
  | nil => exact iff_of_true rfl (fun _ h => absurd h List.not_mem_nil)
  | cons call calls ih =>
    rw [List.forall_mem_cons, ← node.withExprsAndInputs_isSome_iff call.exprs call.inputs]
    show ((node.withExprsAndInputs call.exprs call.inputs).toOption.bind _).isSome ↔ _
    cases (node.withExprsAndInputs call.exprs call.inputs).toOption with
    | none => simp
    | some node' => simpa using ih node'

/-- **When a marker shows the schema of its current input**: along a run of rebuilds, in every
state, exactly when every rebuild hands over an input of the schema the first input had. -/
theorem schema_current_iff (node : MarkerNode) (hcreated : Created node) (calls : List Rebuild)
    (node' : MarkerNode) (hrun : (rebuilds node).Runs calls node') :
    (rebuilds node).Along Current calls node ↔
      ∀ call ∈ calls, ∀ input, call.inputs.head? = some input →
        input.schema = node.input.schema := by
  have hfirst := hcreated.current
  rw [← Machine.throughout_iff_forall hrun]
  refine Machine.along_iff (I := fun n => n.schema = node.schema) ?_ ?_ rfl hfirst hrun
  · intro call n n' hn hstep
    exact (rebuilt (rebuilds_step hstep)).2.1.trans hn
  · intro call n n' hn _ hstep
    obtain ⟨hinput, hschema, -⟩ := rebuilt (rebuilds_step hstep)
    rw [Current, hschema, hn, hfirst, hinput]
    constructor
    · intro h input hhead
      obtain rfl := Option.some.inj hhead
      exact h.symm
    · exact fun h => (h _ rfl).symm

/-! ### A scan that is narrowed -/

/-- A scan of the employees that shows some columns. -/
def staffScan (columns : List String) (filters : List Expr) : LogicalPlan :=
  .tableScan "employees" (columns.map fun c => ⟨some "employees", ⟨c, .float64, true⟩⟩) filters

/-- The marker the contract check puts over it. -/
def staffMarker (scan : LogicalPlan) : MarkerNode :=
  approved ⟨scan, "pay-contract", "acme", scan.schema⟩

theorem staffMarker_created (scan : LogicalPlan) : Created (staffMarker scan) :=
  .evaluateScan DPNoiseRule.payCheck scan "employees" _
    (congrArg Prod.fst (DPNoiseRule.payCheck_evaluateScan scan "employees"))

/-- The scan that reads two columns, and what pushing a filter into it makes of it. -/
def wholeScan : LogicalPlan := staffScan ["salary", "bonus"] []

def filteredScan : LogicalPlan :=
  staffScan ["salary", "bonus"] [.isNotNull (.column ⟨none, "salary"⟩)]

/-- A filter pushed into the scan leaves the schema as it was. -/
theorem filtered_scan_current :
    (rebuilds (staffMarker wholeScan)).Along Current [⟨[], [filteredScan]⟩]
      (staffMarker wholeScan) := by
  refine (schema_current_iff (staffMarker wholeScan) (staffMarker_created wholeScan)
    [⟨[], [filteredScan]⟩] (staffMarker filteredScan) rfl).mpr ?_
  intro call hcall input hinput
  obtain rfl := List.mem_singleton.mp hcall
  obtain rfl := Option.some.inj hinput
  rfl

/-- The marker after a rule has dropped a column from the scan below it. -/
def staleMarker : MarkerNode :=
  approved ⟨staffScan ["salary"] [], "pay-contract", "acme", wholeScan.schema⟩

/-- A column that the scan drops is still in the schema of the marker. -/
theorem narrowed_scan_stale :
    ¬∀ node, Created node → ∀ calls node', (rebuilds node).Runs calls node' → Current node' := by
  intro h
  have hstale : Current staleMarker := h (staffMarker wholeScan) (staffMarker_created wholeScan)
    [⟨[], [staffScan ["salary"] []]⟩] staleMarker rfl
  exact absurd (congrArg List.length hstale) (by decide)

end MarkerNode
end Griot.Logical
