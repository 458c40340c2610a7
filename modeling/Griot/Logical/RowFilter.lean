import Griot.Logical.ContractCheck
import Griot.Sql.Filter

/-! The row filter rule: the second rule of the pipeline.

The filter in force for the principal is put as a `Filter` node on top of every
approval marker the walk reaches. A filter that cannot be translated is an
error; a bundle that cannot be read is no filter at all. -/
namespace Griot.Logical

open Lib Sql

/-- The planner of the engine below: node constructors that check, and printing. -/
structure Planner where
  /-- `Filter::try_new`: the error, if there is one. -/
  filterError : Expr → LogicalPlan → Option String
  /-- `Projection::try_new`: the schema of the new node, or the error. -/
  projectionSchema : List Expr → LogicalPlan → Except String DFSchema
  /-- The `{:?}` form of an expression. -/
  debug : Expr → String

structure RowFilterBundleData where
  rowFilter : Option String
  perPrincipalRowFilters : Dict String (Option String)

def RowFilterBundleData.default : RowFilterBundleData := ⟨none, .empty⟩

def RowFilterBundleData.ofJson (doc : Json) : Option RowFilterBundleData := do
  guard (doc.fits 2)
  let rowFilter ← doc.fieldOr 0 "row_filter" (Json.asOption Json.asString) (some none)
  let perPrincipalRowFilters ← doc.fieldOr 1 "per_principal_row_filters"
    (Json.asMap (Json.asOption Json.asString)) (some .empty)
  return ⟨rowFilter, perPrincipalRowFilters⟩

structure RowFilterRule where
  serde : SerdeJson
  engine : SqlEngine
  planner : Planner
  bundle : ContractBundleHandle
  principal : Principal

namespace RowFilterRule

def parseBundle (rule : RowFilterRule) : Option RowFilterBundleData :=
  (rule.bundle.document rule.serde).bind RowFilterBundleData.ofJson

/-- An entry for the principal overrides the global filter, also when it is `null`. -/
def effectiveRowFilter (rule : RowFilterRule) (data : RowFilterBundleData) : Option String :=
  match data.perPrincipalRowFilters.lookup rule.principal.id with
  | some perPrincipal => perPrincipal
  | none => data.rowFilter

def parseFilterExpr (rule : RowFilterRule) (exprStr : String) : Except DataFusionError Expr :=
  match filterToDf rule.engine (sqlExprToDfExpr rule.engine) exprStr with
  | .ok expr => .ok expr
  | .error reason => .error (.external ("ContractFilterUnsupported: " ++ reason))

/-- The closure `rewrite` walks the plan with; the state is `changed`. -/
def visit (rule : RowFilterRule) (filterExpr : Expr) : Visitor Bool DataFusionError :=
  fun node changed =>
    if node.extensionName = some "ContractApproved" then
      match rule.planner.filterError filterExpr node with
      | some e => (.error (.engine e), true)
      | none => (.ok (.jump (.filter filterExpr node)), true)
    else (.ok (.descend node), changed)

/-- Put a filter on a plan. -/
def inject (rule : RowFilterRule) (data : RowFilterBundleData) (plan : LogicalPlan) :
    Except DataFusionError Transformed :=
  match rule.effectiveRowFilter data with
  | none => .ok ⟨plan, false⟩
  | some "" => .ok ⟨plan, false⟩
  | some exprStr => do
    let filterExpr ← rule.parseFilterExpr exprStr
    match transformDown (rule.visit filterExpr) plan false with
    | (.ok newPlan, changed) => return ⟨newPlan, changed⟩
    | (.error e, _) => throw e

def rewrite (rule : RowFilterRule) (plan : LogicalPlan) : Except DataFusionError Transformed :=
  match rule.parseBundle with
  | none => .ok ⟨plan, false⟩
  | some data => rule.inject data plan

end RowFilterRule
end Griot.Logical
