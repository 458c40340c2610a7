import Griot.Budget.Tracker
import Griot.Logical.ContractCheck

/-! The noise rule: the last rule of the pipeline.

An aggregate above an approved scan that names a tagged column is wrapped in one
`LaplaceNoise` node per naming, each paid from the budget, and the walk jumps
over it. Which columns an aggregate names is collected by a function that looks
through five kinds of expression and no other, so the rule covers exactly the
plans whose aggregates name their tagged columns that way, above a marker,
outside subqueries and not below an aggregate it wraps (`rewrite_covered_iff`). -/
namespace Griot.Logical

open Lib Budget

structure DPColumnConfig where
  epsilonPerQuery : F64
  noiseMechanism : String

structure DPBundleData where
  dpColumns : Dict String DPColumnConfig

def DPBundleData.default : DPBundleData := ⟨.empty⟩

def DPColumnConfig.ofJson (doc : Json) : Option DPColumnConfig := do
  guard (doc.fits 2)
  let epsilonPerQuery ← doc.fieldOr 0 "epsilon_per_query" Json.asF64 none
  let noiseMechanism ← doc.fieldOr 1 "noise_mechanism" Json.asString none
  return ⟨epsilonPerQuery, noiseMechanism⟩

def DPBundleData.ofJson (doc : Json) : Option DPBundleData := do
  guard (doc.fits 1)
  let dpColumns ← doc.fieldOr 0 "dp_columns" (Json.asMap DPColumnConfig.ofJson) (some .empty)
  return ⟨dpColumns⟩

/-! ### Columns of an expression -/

mutual

/-- Every column an expression refers to, whatever stands around the reference. -/
def Expr.columns : Expr → List Column
  | .column c => [c]
  | .literal _ => []
  | .alias expr _ => expr.columns
  | .binaryExpr left _ right => left.columns ++ right.columns
  | .cast expr _ => expr.columns
  | .aggregateFunction _ args _ filter orderBy =>
    Expr.allColumns args ++ Expr.optionColumns filter ++ Expr.allColumns orderBy
  | .subquery _ args _ outerRefColumns => Expr.allColumns args ++ outerRefColumns
  | .other _ args => Expr.allColumns args

def Expr.allColumns : List Expr → List Column
  | [] => []
  | e :: es => e.columns ++ Expr.allColumns es

def Expr.optionColumns : Option Expr → List Column
  | none => []
  | some e => e.columns

end

/-- `collect_column_names`: through arguments of aggregates, binary operators,
aliases and casts; what is under any other expression is dropped. -/
def collectColumnNames : Expr → List String
  | .column c => [c.name]
  | .aggregateFunction _ args _ _ _ => collectAll args
  | .binaryExpr left _ right => collectColumnNames left ++ collectColumnNames right
  | .alias expr _ => collectColumnNames expr
  | .cast expr _ => collectColumnNames expr
  | _ => []
where
  collectAll : List Expr → List String
    | [] => []
    | e :: es => collectColumnNames e ++ collectAll es

def collectAggColumns (aggrExpr : List Expr) : List String := aggrExpr.flatMap collectColumnNames

/-! ### The rule -/

/-- The rule, on a machine that rounds in some way. -/
structure DPNoiseRule where
  serde : SerdeJson
  bundle : ContractBundleHandle
  tenantId : String
  rounding : F64.Rounding

/-- What the rule owns and accumulates while it walks. -/
structure NoiseState where
  budget : PrivacyBudgetTracker
  auditRecords : List AuditRecord
  pendingError : Option DataFusionError
  changed : Bool

namespace DPNoiseRule

def parseBundle (rule : DPNoiseRule) : Option DPBundleData :=
  (rule.bundle.document rule.serde).bind DPBundleData.ofJson

def emitBudgetExhausted (rule : DPNoiseRule) (column : String) : AuditRecord :=
  ⟨.privacyBudgetExhausted, "<aggregate>", rule.tenantId, some rule.bundle.contractId,
    .budget column⟩

/-- Pay for every naming of a tagged column, in order, until the budget refuses:
the namings paid for with their epsilons, or the column refused. -/
def consumeAll (rule : DPNoiseRule) (data : DPBundleData) :
    List String → PrivacyBudgetTracker → PrivacyBudgetTracker × Except String (List (String × F64))
  | [], t => (t, .ok [])
  | c :: cs, t => match data.dpColumns.lookup c with
    | none => rule.consumeAll data cs t
    | some config => match t.consume rule.rounding rule.tenantId c config.epsilonPerQuery with
      | (.error _, t') => (t', .error c)
      | (.ok (), t') =>
        let (t'', found) := rule.consumeAll data cs t'
        (t'', found.map ((c, config.epsilonPerQuery) :: ·))

/-- One noise node per naming, the first one innermost. -/
def wrap (r : F64.Rounding) (node : LogicalPlan) (schema : DFSchema) :
    List (String × F64) → LogicalPlan
  | [] => node
  | (c, epsilon) :: found =>
    wrap r (.laplaceNoise c (formatFixed6 (r.div (.fin 1) epsilon)) node schema) schema found

/-- The closure `rewrite` walks the plan with. -/
def visit (rule : DPNoiseRule) (data : DPBundleData) : Visitor NoiseState DataFusionError :=
  fun node s =>
    if s.pendingError.isSome then (.ok (.descend node), s)
    else match node with
      | .aggregate groupExpr aggrExpr input schema =>
        if !input.subtreeHasApprovalMarker then
          (.ok (.descend (.aggregate groupExpr aggrExpr input schema)), s)
        else match rule.consumeAll data (collectAggColumns aggrExpr) s.budget with
          | (budget, .error c) =>
            (.ok (.descend (.aggregate groupExpr aggrExpr input schema)), {s with
              budget
              auditRecords := s.auditRecords ++ [rule.emitBudgetExhausted c]
              pendingError := some (.external
                s!"privacy budget exhausted for tenant '{rule.tenantId}', column '{c}'")})
          | (budget, .ok []) =>
            (.ok (.descend (.aggregate groupExpr aggrExpr input schema)), {s with budget})
          | (budget, .ok found) =>
            (.ok (.jump (wrap rule.rounding (.aggregate groupExpr aggrExpr input schema) schema found)),
              {s with budget, changed := true})
      | node => (.ok (.descend node), s)

/-- Put the noise of a bundle on a plan. -/
def addNoise (rule : DPNoiseRule) (data : DPBundleData) (plan : LogicalPlan) :
    Pass NoiseState DataFusionError Transformed := fun s =>
  if data.dpColumns.isEmpty then (.ok ⟨plan, false⟩, s)
  else match transformDown (rule.visit data) plan {s with pendingError := none, changed := false} with
    | (.error e, s') => (.error e, s')
    | (.ok newPlan, s') => match s'.pendingError with
      | some e => (.error e, s')
      | none => (.ok ⟨newPlan, s'.changed⟩, s')

def rewrite (rule : DPNoiseRule) (plan : LogicalPlan) :
    Pass NoiseState DataFusionError Transformed := fun s =>
  match rule.parseBundle with
  | none => (.ok ⟨plan, false⟩, s)
  | some data => rule.addNoise data plan s

end DPNoiseRule
end Griot.Logical
