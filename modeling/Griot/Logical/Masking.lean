import Griot.Logical.RowFilter

/-! The masking rule: the third rule of the pipeline.

A projection above an approval marker has the columns it selects replaced by
masking expressions. A token the rule does not know masks nothing, and neither
does a bundle it cannot read. -/
namespace Griot.Logical

open Lib

inductive MaskPolicy where
  | redact
  | hashSha256
  | partialMask
  | null
  | noop
  | tokenize
  deriving DecidableEq

namespace MaskPolicy

/-- The policy a token of the bundle names, if it names one. -/
def ofToken? : String → Option MaskPolicy
  | "redact" => some redact
  | "hash_sha256" => some hashSha256
  | "partial" => some partialMask
  | "null" => some null
  | "tokenize" => some tokenize
  | "noop" => some noop
  | _ => none

/-- `MaskPolicy::from_bundle_str`: what names no policy is `noop`. -/
def fromBundleStr : String → MaskPolicy
  | "redact" => redact
  | "hash_sha256" => hashSha256
  | "partial" => partialMask
  | "null" => null
  | "tokenize" => tokenize
  | _ => noop

/-- On a token that names a policy, the rule reads that policy. -/
theorem fromBundleStr_of_ofToken? {token : String} {policy : MaskPolicy}
    (h : ofToken? token = some policy) : fromBundleStr token = policy := by
  unfold ofToken? at h
  unfold fromBundleStr
  split at h <;> simp_all

end MaskPolicy

structure ColumnPolicy where
  sensitivity : String
  mask : String

structure MaskingBundleData where
  columnPolicies : Dict String ColumnPolicy

def MaskingBundleData.default : MaskingBundleData := ⟨.empty⟩

def ColumnPolicy.ofJson (doc : Json) : Option ColumnPolicy := do
  guard (doc.fits 2)
  let sensitivity ← doc.fieldOr 0 "sensitivity" Json.asString (some "")
  let mask ← doc.fieldOr 1 "mask" Json.asString (some "")
  return ⟨sensitivity, mask⟩

def MaskingBundleData.ofJson (doc : Json) : Option MaskingBundleData := do
  guard (doc.fits 1)
  let columnPolicies ← doc.fieldOr 0 "column_policies" (Json.asMap ColumnPolicy.ofJson) (some .empty)
  return ⟨columnPolicies⟩

structure MaskingRule where
  serde : SerdeJson
  planner : Planner
  bundle : ContractBundleHandle

namespace MaskingRule

def parseBundle (rule : MaskingRule) : Option MaskingBundleData :=
  (rule.bundle.document rule.serde).bind MaskingBundleData.ofJson

/-- A column without an entry is left as it is. -/
def policyForColumn (rule : MaskingRule) (columnName : String) : MaskPolicy :=
  match rule.parseBundle with
  | none => .noop
  | some data => match data.columnPolicies.lookup columnName with
    | some p => MaskPolicy.fromBundleStr p.mask
    | none => .noop

/-- The column a projected expression selects, under its own name or another. -/
def selectedColumn : Expr → Option String
  | .column c => some c.name
  | .alias (.column c) _ => some c.name
  | _ => none

/-- A masked column keeps its name. -/
def applyMask (rule : MaskingRule) (expr : Expr) (policy : MaskPolicy) : Expr :=
  let colName := (selectedColumn expr).getD (rule.planner.debug expr)
  match policy with
  | .noop => expr
  | .redact => .alias (.literal (.utf8 (some "<REDACTED>"))) colName
  | .hashSha256 => .alias (.cast (.scalarFunction "sha256" [expr]) .utf8) colName
  | .tokenize => .alias (.cast (.scalarFunction "sha256" [expr]) .utf8) colName
  | .partialMask => .alias (.scalarFunction "concat" [.literal (.utf8 (some "***")),
      .scalarFunction "right" [expr, .literal (.int64 4)]]) colName
  | .null => .alias (.literal (.utf8 none)) colName

/-- The policy for a projected expression, unless it is left as it is. -/
def policyFor (data : MaskingBundleData) (expr : Expr) : Option MaskPolicy := do
  let name ← selectedColumn expr
  let entry ← data.columnPolicies.lookup name
  let policy := MaskPolicy.fromBundleStr entry.mask
  if policy ≠ .noop then some policy else none

/-- The closure `rewrite` walks the plan with; the state is `changed`. -/
def visit (rule : MaskingRule) (data : MaskingBundleData) : Visitor Bool DataFusionError :=
  fun node changed => match node with
    | .projection expr input schema =>
      if !input.subtreeHasApprovalMarker then (.ok (.descend (.projection expr input schema)), changed)
      else if expr.any fun e => (policyFor data e).isSome then
        let newExprs := expr.map fun e => match policyFor data e with
          | some policy => rule.applyMask e policy
          | none => e
        match rule.planner.projectionSchema newExprs input with
        | .error e => (.error (.engine e), true)
        | .ok newSchema => (.ok (.descend (.projection newExprs input newSchema)), true)
      else (.ok (.descend (.projection expr input schema)), changed)
    | node => (.ok (.descend node), changed)

/-- Mask the projections of a plan. -/
def mask (rule : MaskingRule) (data : MaskingBundleData) (plan : LogicalPlan) :
    Except DataFusionError Transformed :=
  if data.columnPolicies.isEmpty then .ok ⟨plan, false⟩
  else match transformDown (rule.visit data) plan false with
    | (.ok newPlan, changed) => .ok ⟨newPlan, changed⟩
    | (.error e, _) => .error e

def rewrite (rule : MaskingRule) (plan : LogicalPlan) : Except DataFusionError Transformed :=
  match rule.parseBundle with
  | none => .ok ⟨plan, false⟩
  | some data => rule.mask data plan

end MaskingRule
end Griot.Logical
