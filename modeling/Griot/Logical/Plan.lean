import Griot.Data.Arrow

/-! Logical plans and expressions.

DataFusion's two syntax trees, which contain each other: a plan node holds
expressions and a subquery expression holds a plan. The constructors the
optimizer rules look at have their own name; every other one is `other`, with
its expressions and its inputs in order. -/
namespace Griot.Logical

open Lib

inductive Operator where
  | eq
  | notEq
  | lt
  | ltEq
  | gt
  | gtEq
  | and
  | or
  | likeMatch
  | notLikeMatch
  | other (symbol : String)
  deriving DecidableEq

inductive ScalarValue where
  | null
  | boolean (b : Bool)
  | int64 (i : Int64)
  | float64 (x : F64)
  | utf8 (s : Option String)
  deriving DecidableEq

structure Column where
  relation : Option String
  name : String
  deriving DecidableEq

/-- A field with the relation it comes from. -/
structure DFField where
  qualifier : Option String
  field : Field
  deriving DecidableEq

abbrev DFSchema := List DFField

/-- The two ways a subquery expression can be built around a plan. -/
inductive SubqueryKind where
  | exists (negated : Bool)
  | inSubquery (negated : Bool)
  | scalar
  deriving DecidableEq

/-- A plan node without a constructor of its own: one of DataFusion's, or a
user-defined node with the name it reports. -/
inductive NodeKind where
  | builtin (name : String)
  | extension (name : String)
  deriving DecidableEq

/-- DataFusion's nodes that have no schema of their own and show what their first input shows.
`Distinct` is `DISTINCT` over all columns. -/
def NodeKind.borrows : NodeKind → Bool
  | .builtin name =>
    name ∈ ["Sort", "Limit", "Repartition", "Distinct", "Subquery", "RecursiveQuery"]
  | .extension _ => false

mutual

inductive Expr where
  | column (c : Column)
  | literal (v : ScalarValue)
  | alias (expr : Expr) (name : String)
  | binaryExpr (left : Expr) (op : Operator) (right : Expr)
  | cast (expr : Expr) (dataType : DataType)
  | aggregateFunction (func : String) (args : List Expr) (distinct : Bool) (filter : Option Expr)
      (orderBy : List Expr)
  /-- The expressions it is applied to, its plan, and the outer columns the plan refers to. -/
  | subquery (kind : SubqueryKind) (args : List Expr) (subquery : LogicalPlan)
      (outerRefColumns : List Column)
  | other (op : String) (args : List Expr)

inductive LogicalPlan where
  | tableScan (tableName : String) (schema : DFSchema) (filters : List Expr)
  | emptyRelation (produceOneRow : Bool) (schema : DFSchema)
  | projection (expr : List Expr) (input : LogicalPlan) (schema : DFSchema)
  | filter (predicate : Expr) (input : LogicalPlan)
  | aggregate (groupExpr aggrExpr : List Expr) (input : LogicalPlan) (schema : DFSchema)
  /-- `Extension(ContractApprovedMarker)` -/
  | contractApproved (contractId tenantId : String) (input : LogicalPlan) (schema : DFSchema)
  /-- `Extension(LaplaceNoiseNode)` -/
  | laplaceNoise (column scaleStr : String) (input : LogicalPlan) (schema : DFSchema)
  | other (kind : NodeKind) (exprs : List Expr) (inputs : List LogicalPlan) (schema : DFSchema)

end

namespace Expr

/-- `not(expr)` -/
def not (expr : Expr) : Expr := .other "Not" [expr]

def isNull (expr : Expr) : Expr := .other "IsNull" [expr]

def isNotNull (expr : Expr) : Expr := .other "IsNotNull" [expr]

/-- `expr.in_list(list, negated)` -/
def inList (expr : Expr) (list : List Expr) (negated : Bool) : Expr :=
  .other (if negated then "NotInList" else "InList") (expr :: list)

def scalarFunction (func : String) (args : List Expr) : Expr := .other func args

end Expr

namespace LogicalPlan

def schema : LogicalPlan → DFSchema
  | tableScan _ schema _ => schema
  | emptyRelation _ schema => schema
  | projection _ _ schema => schema
  | filter _ input => input.schema
  | aggregate _ _ _ schema => schema
  | contractApproved _ _ _ schema => schema
  | laplaceNoise _ _ _ schema => schema
  | other kind _ inputs schema => if kind.borrows then firstSchema inputs schema else schema
where
  firstSchema : List LogicalPlan → DFSchema → DFSchema
    | [], schema => schema
    | p :: _, _ => p.schema

theorem firstSchema_congr {ps qs : List LogicalPlan} (h : ps.map schema = qs.map schema)
    (own : DFSchema) : schema.firstSchema ps own = schema.firstSchema qs own := by
  cases ps with
  | nil =>
    obtain rfl := List.map_eq_nil_iff.mp h.symm
    rfl
  | cons p ps =>
    cases qs with
    | nil => cases h
    | cons q qs => exact (List.cons.inj h).1

/-- The plans a node takes its rows from; plans inside expressions are not among them. -/
def inputs : LogicalPlan → List LogicalPlan
  | tableScan .. => []
  | emptyRelation .. => []
  | projection _ input _ => [input]
  | filter _ input => [input]
  | aggregate _ _ input _ => [input]
  | contractApproved _ _ input _ => [input]
  | laplaceNoise _ _ input _ => [input]
  | other _ _ inputs _ => inputs

/-- The expressions of a node itself. -/
def exprs : LogicalPlan → List Expr
  | tableScan _ _ filters => filters
  | emptyRelation .. => []
  | projection expr _ _ => expr
  | filter predicate _ => [predicate]
  | aggregate groupExpr aggrExpr _ _ => groupExpr ++ aggrExpr
  | contractApproved .. => []
  | laplaceNoise .. => []
  | other _ exprs _ _ => exprs

/-- The name a user-defined node reports. -/
def extensionName : LogicalPlan → Option String
  | contractApproved .. => some "ContractApproved"
  | laplaceNoise .. => some "LaplaceNoise"
  | other (.extension name) _ _ _ => some name
  | _ => none

def isTableScan : LogicalPlan → Bool
  | tableScan .. => true
  | _ => false

/-- `subtree_has_approval_marker`: in the node or an input at any depth. -/
def subtreeHasApprovalMarker : LogicalPlan → Bool
  | tableScan .. => false
  | emptyRelation .. => false
  | projection _ input _ => input.subtreeHasApprovalMarker
  | filter _ input => input.subtreeHasApprovalMarker
  | aggregate _ _ input _ => input.subtreeHasApprovalMarker
  | contractApproved .. => true
  | laplaceNoise _ _ input _ => input.subtreeHasApprovalMarker
  | other kind _ inputs _ => kind = .extension "ContractApproved" || anyApproved inputs
where
  anyApproved : List LogicalPlan → Bool
    | [] => false
    | p :: ps => p.subtreeHasApprovalMarker || anyApproved ps

end LogicalPlan
end Griot.Logical
