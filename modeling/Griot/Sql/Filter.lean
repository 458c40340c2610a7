import Griot.Logical.Plan
import Griot.Lib.Streams

/-! Row filters: from SQL text to an expression.

The text of a filter is parsed as the `WHERE` clause of a dummy query, and the
parsed clause is translated node by node. There are two translators, one for the
optimizer rule and one for the operator; the operator's knows fewer nodes and
agrees with the rule's on those it knows (`sqlAstToDfExpr_eq`). What neither
knows is an error, never a filter that is skipped. -/
namespace Griot.Sql

open Lib Logical

/-! ### Parsed SQL -/

inductive BinaryOperator where
  | eq
  | notEq
  | lt
  | ltEq
  | gt
  | gtEq
  | and
  | or
  | pgLikeMatch
  | pgNotLikeMatch
  | other (debug : String)
  deriving DecidableEq

def BinaryOperator.debug : BinaryOperator → String
  | eq => "Eq"
  | notEq => "NotEq"
  | lt => "Lt"
  | ltEq => "LtEq"
  | gt => "Gt"
  | gtEq => "GtEq"
  | and => "And"
  | or => "Or"
  | pgLikeMatch => "PGLikeMatch"
  | pgNotLikeMatch => "PGNotLikeMatch"
  | other debug => debug

inductive SqlValue where
  | singleQuotedString (s : String)
  | number (n : String)
  | boolean (b : Bool)
  | null
  | other (debug : String)

inductive SqlExpr where
  | binaryOp (left : SqlExpr) (op : BinaryOperator) (right : SqlExpr)
  /-- `UnaryOp` with `NOT`; the other unary operators are `other`. -/
  | not (expr : SqlExpr)
  | isNull (expr : SqlExpr)
  | isNotNull (expr : SqlExpr)
  | inList (expr : SqlExpr) (list : List SqlExpr) (negated : Bool)
  | like (negated any : Bool) (expr pattern : SqlExpr) (escapeChar : Option String)
  | identifier (value : String) (quoteStyle : Option Char)
  | value (v : SqlValue)
  | nested (expr : SqlExpr)
  | other (debug : String)

/-- A query's body: a `SELECT` with its `WHERE` clause, or another set expression. -/
inductive SetExpr where
  | select (selection : Option SqlExpr)
  | other

inductive Statement where
  | query (body : SetExpr)
  | other

/-- The parser and the expression builders, from the engine below. -/
structure SqlEngine where
  /-- `Parser::parse_sql` with the generic dialect; an error comes with its text. -/
  parseSql : String → Except String (List Statement)
  /-- `col(ident)`: a name is split and folded the engine's way. -/
  col : String → Column
  /-- The `{:?}` form of a node. -/
  debug : SqlExpr → String

/-! ### The translators -/

/-- A literal; `unsupported` is the text in front of a literal of another kind. -/
def literalToDf (unsupported : String) : SqlValue → Except String Expr
  | .singleQuotedString s => .ok (.literal (.utf8 (some s)))
  | .number n => match parseI64 n.toList with
    | some i => .ok (.literal (.int64 i))
    | none => match parseF64 n.toList with
      | some x => .ok (.literal (.float64 x))
      | none => .error s!"cannot parse numeric literal '{n}'"
  | .boolean b => .ok (.literal (.boolean b))
  | .null => .ok (.literal .null)
  | .other debug => .error (unsupported ++ debug)

def unsupportedOperator (op : BinaryOperator) : Except String Operator :=
  .error ("unsupported binary operator " ++ op.debug)

/-- The operators both translators know. -/
def comparisonToDf : BinaryOperator → Except String Operator
  | .eq => .ok .eq
  | .notEq => .ok .notEq
  | .lt => .ok .lt
  | .ltEq => .ok .ltEq
  | .gt => .ok .gt
  | .gtEq => .ok .gtEq
  | .and => .ok .and
  | .or => .ok .or
  | op => unsupportedOperator op

/-- The optimizer rule knows pattern matching as well. -/
def operatorToDf : BinaryOperator → Except String Operator
  | .pgLikeMatch => .ok .likeMatch
  | .pgNotLikeMatch => .ok .notLikeMatch
  | op => comparisonToDf op

/-- `sql_expr_to_df_expr`, the optimizer rule's. -/
def sqlExprToDfExpr (engine : SqlEngine) : SqlExpr → Except String Expr
  | .binaryOp left op right => do
    let dfOp ← operatorToDf op
    let leftExpr ← sqlExprToDfExpr engine left
    let rightExpr ← sqlExprToDfExpr engine right
    return .binaryExpr leftExpr dfOp rightExpr
  | .not expr => do return .not (← sqlExprToDfExpr engine expr)
  | .isNull expr => do return .isNull (← sqlExprToDfExpr engine expr)
  | .isNotNull expr => do return .isNotNull (← sqlExprToDfExpr engine expr)
  | .inList expr list negated => do
    let inner ← sqlExprToDfExpr engine expr
    let listExprs ← listToDf list
    return inner.inList listExprs negated
  -- Neither `ANY` nor `ESCAPE` is looked at.
  | .like negated _ expr pattern _ => do
    let inner ← sqlExprToDfExpr engine expr
    let pat ← sqlExprToDfExpr engine pattern
    return .binaryExpr inner (if negated then .notLikeMatch else .likeMatch) pat
  | .identifier name _ => .ok (.column (engine.col name))
  | .value v => literalToDf "unsupported literal value " v
  | .nested expr => sqlExprToDfExpr engine expr
  | .other debug => .error ("unsupported expression node " ++ debug)
where
  listToDf : List SqlExpr → Except String (List Expr)
    | [] => .ok []
    | e :: es => do return (← sqlExprToDfExpr engine e) :: (← listToDf es)

/-- `sql_ast_to_df_expr`, the operator's. -/
def sqlAstToDfExpr (engine : SqlEngine) : SqlExpr → Except String Expr
  | .binaryOp left op right => do
    let dfOp ← comparisonToDf op
    let leftExpr ← sqlAstToDfExpr engine left
    let rightExpr ← sqlAstToDfExpr engine right
    return .binaryExpr leftExpr dfOp rightExpr
  | .identifier name _ => .ok (.column (engine.col name))
  | .value v => literalToDf "unsupported literal " v
  | .nested expr => sqlAstToDfExpr engine expr
  | .other debug => .error ("unsupported expression node " ++ debug)
  | expr => .error ("unsupported expression node " ++ engine.debug expr)

/-- The clause a filter text parses to: of the first statement, if that is a `SELECT`. -/
def filterSelection (engine : SqlEngine) (exprStr : String) : Except String SqlExpr :=
  match engine.parseSql ("SELECT 1 WHERE " ++ exprStr) with
  | .error e => .error s!"could not parse filter expression '{exprStr}': {e}"
  | .ok [] => .error s!"empty parse result for filter '{exprStr}'"
  | .ok (.query (.select (some selection)) :: _) => .ok selection
  | .ok _ => .error s!"could not extract WHERE clause from '{exprStr}'"

/-- A filter text translated by `translate`. -/
def filterToDf (engine : SqlEngine) (translate : SqlExpr → Except String Expr) (exprStr : String) :
    Except String Expr := do
  let selection ← filterSelection engine exprStr
  match translate selection with
  | .ok expr => return expr
  | .error reason => throw s!"filter '{exprStr}' uses unsupported expression: {reason}"

theorem filterToDf_ok_iff {engine : SqlEngine} {translate : SqlExpr → Except String Expr}
    {exprStr : String} {expr : Expr} :
    filterToDf engine translate exprStr = .ok expr ↔
      ∃ e, filterSelection engine exprStr = .ok e ∧ translate e = .ok expr := by
  rw [filterToDf, Lib.bind_eq_ok]
  refine exists_congr fun e => and_congr_right fun _ => ?_
  cases translate e with
  | ok made => exact Iff.rfl
  | error reason => exact iff_of_false nofun nofun

/-! ### The operator's translator is the rule's on what it knows -/

theorem literalToDf_eq {unsupported unsupported' : String} {v : SqlValue} {expr : Expr}
    (h : literalToDf unsupported v = .ok expr) : literalToDf unsupported' v = .ok expr := by
  cases v with
  | other debug => exact absurd h (by simp [literalToDf])
  | _ => exact h

theorem operatorToDf_eq {op : BinaryOperator} {dfOp : Operator} (h : comparisonToDf op = .ok dfOp) :
    operatorToDf op = .ok dfOp := by
  cases op with
  | pgLikeMatch | pgNotLikeMatch => exact absurd h (by simp [comparisonToDf, unsupportedOperator])
  | _ => exact h

/-- **One filter, one meaning**: what the operator translates, the rule translates alike. -/
theorem sqlAstToDfExpr_eq (engine : SqlEngine) :
    ∀ sqlExpr expr, sqlAstToDfExpr engine sqlExpr = .ok expr →
      sqlExprToDfExpr engine sqlExpr = .ok expr
  | .binaryOp left op right, expr, h => by
    rw [sqlAstToDfExpr] at h
    obtain ⟨dfOp, hop, h⟩ := bind_eq_ok.mp h
    obtain ⟨leftExpr, hleft, h⟩ := bind_eq_ok.mp h
    obtain ⟨rightExpr, hright, h⟩ := bind_eq_ok.mp h
    rw [sqlExprToDfExpr, operatorToDf_eq hop, sqlAstToDfExpr_eq engine left leftExpr hleft,
      sqlAstToDfExpr_eq engine right rightExpr hright]
    exact h
  | .identifier _ _, expr, h => h
  | .value v, expr, h => literalToDf_eq h
  | .nested sqlExpr, expr, h => sqlAstToDfExpr_eq engine sqlExpr expr h
  | .not _, _, h => absurd h (by simp [sqlAstToDfExpr])
  | .isNull _, _, h => absurd h (by simp [sqlAstToDfExpr])
  | .isNotNull _, _, h => absurd h (by simp [sqlAstToDfExpr])
  | .inList _ _ _, _, h => absurd h (by simp [sqlAstToDfExpr])
  | .like _ _ _ _ _, _, h => absurd h (by simp [sqlAstToDfExpr])
  | .other _, _, h => absurd h (by simp [sqlAstToDfExpr])

end Griot.Sql
