import Griot.Sql.Filter

/-! Which filters the two translators take, and when they make the same of two of them.

A node is foreign to both, or known to the rule's translator alone, or known to both. A tree
is taken whole or not at all: the rule's translator takes the trees without a foreign node,
the operator's those that have none that only the rule knows either (`takes_alike_iff`).
Two trees become one expression exactly when they are alike but for parentheses and the
spelling of names and numbers (`translate_eq_iff`). -/
namespace Griot.Sql

open Lib Logical

namespace SqlExpr

def children : SqlExpr → List SqlExpr
  | .binaryOp left _ right => [left, right]
  | .not expr => [expr]
  | .isNull expr => [expr]
  | .isNotNull expr => [expr]
  | .inList expr list _ => expr :: list
  | .like _ _ expr pattern _ => [expr, pattern]
  | .nested expr => [expr]
  | .identifier _ _ | .value _ | .other _ => []

theorem sizeOf_child {expr child : SqlExpr} (h : child ∈ expr.children) :
    sizeOf child < sizeOf expr := by
  cases expr with
  | inList head list negated =>
    obtain rfl | hlist := List.mem_cons.1 h
    · simp only [inList.sizeOf_spec]
      omega
    · have hlt := List.sizeOf_lt_of_mem hlist
      simp only [inList.sizeOf_spec]
      omega
  | binaryOp left op right =>
    obtain rfl | hright := List.mem_cons.1 h
    · simp only [binaryOp.sizeOf_spec]
      omega
    · obtain rfl := List.mem_singleton.1 hright
      simp only [binaryOp.sizeOf_spec]
      omega
  | like negated any expr pattern escapeChar =>
    obtain rfl | hpattern := List.mem_cons.1 h
    · simp only [like.sizeOf_spec]
      omega
    · obtain rfl := List.mem_singleton.1 hpattern
      simp only [like.sizeOf_spec]
      omega
  | identifier | value | other => cases h
  | _ =>
    obtain rfl := List.mem_singleton.1 h
    simp

/-- Induction over the operands. -/
theorem byChildren {motive : SqlExpr → Prop}
    (h : ∀ expr, (∀ child ∈ expr.children, motive child) → motive expr) (expr : SqlExpr) :
    motive expr :=
  h expr fun child _ => byChildren h child
termination_by sizeOf expr
decreasing_by exact sizeOf_child ‹_›

/-- Some node of the tree has the property. -/
inductive Occurs (p : SqlExpr → Prop) : SqlExpr → Prop
  | here {expr : SqlExpr} : p expr → Occurs p expr
  | under {expr child : SqlExpr} : child ∈ expr.children → Occurs p child → Occurs p expr

theorem not_occurs_step {p : SqlExpr → Prop} (expr : SqlExpr) :
    ¬ Occurs p expr ↔ ¬ p expr ∧ ∀ child ∈ expr.children, ¬ Occurs p child := by
  constructor
  · intro h
    exact ⟨fun hself => h (.here hself), fun child hchild hoccurs => h (.under hchild hoccurs)⟩
  · intro ⟨hself, hchildren⟩ hoccurs
    cases hoccurs with
    | here h => exact hself h
    | under hchild h => exact hchildren _ hchild h

theorem occurs_or {p q : SqlExpr → Prop} (expr : SqlExpr) :
    Occurs (fun e => p e ∨ q e) expr ↔ Occurs p expr ∨ Occurs q expr := by
  constructor
  · intro h
    induction h with
    | here h => exact h.imp .here .here
    | under hchild _ ih => exact ih.imp (.under hchild) (.under hchild)
  · intro h
    obtain h | h := h
    · induction h with
      | here h => exact .here (.inl h)
      | under hchild _ ih => exact .under hchild ih
    · induction h with
      | here h => exact .here (.inr h)
      | under hchild _ ih => exact .under hchild ih

end SqlExpr

/-! ### What is translated -/

/-- The value of a literal: of a number the integer, where it is one of 64 bits, and else the
double that its text is read as. -/
def SqlValue.scalar : SqlValue → Option ScalarValue
  | .singleQuotedString s => some (.utf8 (some s))
  | .number n => match parseI64 n.toList with
    | some i => some (.int64 i)
    | none => (parseF64 n.toList).map .float64
  | .boolean b => some (.boolean b)
  | .null => some .null
  | .other _ => none

/-- Neither translator knows the node. -/
def SqlExpr.Foreign : SqlExpr → Prop
  | .binaryOp _ op _ => ∃ debug, op = .other debug
  | .value v => v.scalar = none
  | .other _ => True
  | _ => False

/-- Only the rule's translator knows the node. -/
def SqlExpr.RuleOnly : SqlExpr → Prop
  | .binaryOp _ op _ => op = .pgLikeMatch ∨ op = .pgNotLikeMatch
  | .not _ | .isNull _ | .isNotNull _ | .inList _ _ _ | .like _ _ _ _ _ => True
  | _ => False

/-- The translator makes an expression of the tree. -/
def Takes (translate : SqlExpr → Except String Expr) (sqlExpr : SqlExpr) : Prop :=
  ∃ expr, translate sqlExpr = .ok expr

theorem exists_bind_ok {α β : Type} {x : Except String α} {k : α → Except String β} :
    (∃ b, x >>= k = .ok b) ↔ ∃ a, x = .ok a ∧ ∃ b, k a = .ok b := by
  simp only [bind_eq_ok]
  constructor
  · intro ⟨b, a, hx, hk⟩
    exact ⟨a, hx, b, hk⟩
  · intro ⟨a, hx, b, hk⟩
    exact ⟨b, a, hx, hk⟩

theorem literalToDf_ok_iff {unsupported : String} {v : SqlValue} {expr : Expr} :
    literalToDf unsupported v = .ok expr ↔ ∃ x, v.scalar = some x ∧ .literal x = expr := by
  cases v with
  | number n =>
    rw [literalToDf, SqlValue.scalar]
    cases parseI64 n.toList with
    | some i => simp
    | none => cases parseF64 n.toList <;> simp
  | _ => simp [literalToDf, SqlValue.scalar]

theorem exists_literalToDf_ok (unsupported : String) (v : SqlValue) :
    (∃ expr, literalToDf unsupported v = .ok expr) ↔ ¬ v.scalar = none := by
  simp only [literalToDf_ok_iff]
  cases v.scalar <;> simp

theorem operatorToDf_ok_iff (op : BinaryOperator) :
    (∃ dfOp, operatorToDf op = .ok dfOp) ↔ ¬ ∃ debug, op = .other debug := by
  cases op <;> simp [operatorToDf, comparisonToDf, unsupportedOperator]

theorem comparisonToDf_ok_iff (op : BinaryOperator) :
    (∃ dfOp, comparisonToDf op = .ok dfOp) ↔
      ¬ ((∃ debug, op = .other debug) ∨ op = .pgLikeMatch ∨ op = .pgNotLikeMatch) := by
  cases op <;> simp [comparisonToDf, unsupportedOperator]

section
variable {engine : SqlEngine}

/-- A pure end takes nothing more. -/
theorem exists_pure_ok {α : Type} (a : α) : ∃ b, (pure a : Except String α) = .ok b := ⟨a, rfl⟩

theorem listToDf_ok_iff (list : List SqlExpr) :
    (∃ exprs, sqlExprToDfExpr.listToDf engine list = .ok exprs) ↔
      ∀ e ∈ list, Takes (sqlExprToDfExpr engine) e := by
  induction list with
  | nil => simp [sqlExprToDfExpr.listToDf]
  | cons e es ih =>
    rw [List.forall_mem_cons, ← ih, Takes, sqlExprToDfExpr.listToDf]
    simp only [exists_bind_ok, exists_pure_ok, and_true, exists_and_right]

/-- One step of the rule's translator: the node is not foreign and its operands are taken. -/
theorem sqlExprToDfExpr_step (sqlExpr : SqlExpr) :
    Takes (sqlExprToDfExpr engine) sqlExpr ↔
      ¬ sqlExpr.Foreign ∧ ∀ child ∈ sqlExpr.children, Takes (sqlExprToDfExpr engine) child := by
  cases sqlExpr with
  | binaryOp left op right =>
    rw [SqlExpr.Foreign, ← operatorToDf_ok_iff]
    simp only [Takes, sqlExprToDfExpr, SqlExpr.children, exists_bind_ok, exists_pure_ok, and_true,
      exists_and_right, List.forall_mem_cons, List.not_mem_nil, false_implies, implies_true]
  | inList expr list negated =>
    rw [SqlExpr.children, List.forall_mem_cons, ← listToDf_ok_iff]
    simp only [Takes, sqlExprToDfExpr, SqlExpr.Foreign, exists_bind_ok, exists_pure_ok, and_true,
      exists_and_right, not_false_eq_true, true_and]
  | value v =>
    rw [SqlExpr.Foreign, Takes, sqlExprToDfExpr, exists_literalToDf_ok]
    simp [SqlExpr.children]
  | identifier | other => simp [Takes, sqlExprToDfExpr, SqlExpr.Foreign, SqlExpr.children]
  | _ =>
    simp only [Takes, sqlExprToDfExpr, SqlExpr.Foreign, SqlExpr.children, exists_bind_ok,
      exists_pure_ok, and_true, exists_and_right, List.forall_mem_cons, List.not_mem_nil,
      false_implies, implies_true, not_false_eq_true, true_and]

/-- One step of the operator's: the node is known to it too. -/
theorem sqlAstToDfExpr_step (sqlExpr : SqlExpr) :
    Takes (sqlAstToDfExpr engine) sqlExpr ↔ ¬ (sqlExpr.Foreign ∨ sqlExpr.RuleOnly) ∧
      ∀ child ∈ sqlExpr.children, Takes (sqlAstToDfExpr engine) child := by
  cases sqlExpr with
  | binaryOp left op right =>
    rw [SqlExpr.Foreign, SqlExpr.RuleOnly, ← comparisonToDf_ok_iff]
    simp only [Takes, sqlAstToDfExpr, SqlExpr.children, exists_bind_ok, exists_pure_ok, and_true,
      exists_and_right, List.forall_mem_cons, List.not_mem_nil, false_implies, implies_true]
  | value v =>
    rw [Takes, sqlAstToDfExpr, exists_literalToDf_ok]
    simp [SqlExpr.Foreign, SqlExpr.RuleOnly, SqlExpr.children]
  | _ => simp [Takes, sqlAstToDfExpr, SqlExpr.Foreign, SqlExpr.RuleOnly, SqlExpr.children]

/-- A translator that looks at each node on its own takes the trees without a node it does
not know. -/
theorem takes_iff {translate : SqlExpr → Except String Expr} {p : SqlExpr → Prop}
    (hstep : ∀ e, Takes translate e ↔ ¬ p e ∧ ∀ child ∈ e.children, Takes translate child)
    (sqlExpr : SqlExpr) : Takes translate sqlExpr ↔ ¬ SqlExpr.Occurs p sqlExpr := by
  induction sqlExpr using SqlExpr.byChildren with
  | h sqlExpr ih =>
    rw [hstep, SqlExpr.not_occurs_step]
    exact and_congr_right fun _ => forall₂_congr ih

theorem sqlExprToDfExpr_takes (sqlExpr : SqlExpr) :
    Takes (sqlExprToDfExpr engine) sqlExpr ↔ ¬ SqlExpr.Occurs SqlExpr.Foreign sqlExpr :=
  takes_iff sqlExprToDfExpr_step sqlExpr

theorem sqlAstToDfExpr_takes (sqlExpr : SqlExpr) :
    Takes (sqlAstToDfExpr engine) sqlExpr ↔ ¬ SqlExpr.Occurs SqlExpr.Foreign sqlExpr ∧
      ¬ SqlExpr.Occurs SqlExpr.RuleOnly sqlExpr := by
  rw [takes_iff sqlAstToDfExpr_step, SqlExpr.occurs_or, not_or]

/-- **The two translators take a tree alike exactly when it has a node that neither knows, or
none that only the rule's knows.** -/
theorem takes_alike_iff (sqlExpr : SqlExpr) :
    (Takes (sqlExprToDfExpr engine) sqlExpr ↔ Takes (sqlAstToDfExpr engine) sqlExpr) ↔
      SqlExpr.Occurs SqlExpr.Foreign sqlExpr ∨ ¬ SqlExpr.Occurs SqlExpr.RuleOnly sqlExpr := by
  rw [sqlExprToDfExpr_takes, sqlAstToDfExpr_takes]
  tauto

/-! ### What is translated alike -/

/-- One filter, but for parentheses and for how its names and its numbers are written. -/
inductive Alike (engine : SqlEngine) : SqlExpr → SqlExpr → Prop
  | nestedLeft {e e' : SqlExpr} : Alike engine e e' → Alike engine (.nested e) e'
  | nestedRight {e e' : SqlExpr} : Alike engine e e' → Alike engine e (.nested e')
  | identifier {x y : String} {q q' : Option Char} : engine.col x = engine.col y →
    Alike engine (.identifier x q) (.identifier y q')
  | value {v w : SqlValue} : v.scalar = w.scalar → Alike engine (.value v) (.value w)
  | binaryOp {l l' r r' : SqlExpr} (op : BinaryOperator) : Alike engine l l' → Alike engine r r' →
    Alike engine (.binaryOp l op r) (.binaryOp l' op r')

/-- The tree without the parentheses around it. -/
def SqlExpr.bare : SqlExpr → SqlExpr
  | .nested expr => expr.bare
  | expr => expr

theorem sqlExprToDfExpr_bare : ∀ sqlExpr : SqlExpr,
    sqlExprToDfExpr engine sqlExpr.bare = sqlExprToDfExpr engine sqlExpr
  | .nested expr => (sqlExprToDfExpr_bare expr).trans (by rw [sqlExprToDfExpr])
  | .binaryOp _ _ _ | .not _ | .isNull _ | .isNotNull _ | .inList _ _ _ | .like _ _ _ _ _
  | .identifier _ _ | .value _ | .other _ => rfl

theorem SqlExpr.bare_ne_nested : ∀ (sqlExpr expr : SqlExpr), sqlExpr.bare ≠ .nested expr
  | .nested inner, expr => bare_ne_nested inner expr
  | .binaryOp _ _ _, _ | .not _, _ | .isNull _, _ | .isNotNull _, _ | .inList _ _ _, _
  | .like _ _ _ _ _, _ | .identifier _ _, _ | .value _, _ | .other _, _ => nofun

theorem Alike.of_bare {other : SqlExpr} : ∀ {sqlExpr : SqlExpr},
    Alike engine sqlExpr.bare other → Alike engine sqlExpr other
  | .nested _, h => .nestedLeft (Alike.of_bare h)
  | .binaryOp _ _ _, h | .not _, h | .isNull _, h | .isNotNull _, h | .inList _ _ _, h
  | .like _ _ _ _ _, h | .identifier _ _, h | .value _, h | .other _, h => h

/-- Both know the operator only where it is one operator. -/
theorem operatorToDf_inj {op op' : BinaryOperator} {dfOp : Operator}
    (h : operatorToDf op = .ok dfOp) (h' : comparisonToDf op' = .ok dfOp) : op = op' := by
  have heq : operatorToDf op = operatorToDf op' := h.trans (operatorToDf_eq h').symm
  cases op <;> cases op' <;>
    first | rfl | simp [operatorToDf, comparisonToDf, unsupportedOperator] at heq h

/-- What the operator's translator makes of a tree, the rule's makes of every tree alike. -/
theorem Alike.translate_eq {e e' : SqlExpr} (h : Alike engine e e') {expr : Expr}
    (hexpr : sqlAstToDfExpr engine e' = .ok expr) : sqlExprToDfExpr engine e = .ok expr := by
  induction h generalizing expr with
  | nestedLeft _ ih =>
    rw [sqlExprToDfExpr]
    exact ih hexpr
  | nestedRight _ ih => exact ih (by rwa [sqlAstToDfExpr] at hexpr)
  | identifier hcol =>
    rw [sqlAstToDfExpr, ← hcol] at hexpr
    exact hexpr
  | value hscalar =>
    rw [sqlAstToDfExpr, literalToDf_ok_iff, ← hscalar] at hexpr
    exact literalToDf_ok_iff.2 hexpr
  | binaryOp op _ _ ihl ihr =>
    rw [sqlAstToDfExpr] at hexpr
    obtain ⟨dfOp, hop, hexpr⟩ := bind_eq_ok.mp hexpr
    obtain ⟨leftExpr, hleft, hexpr⟩ := bind_eq_ok.mp hexpr
    obtain ⟨rightExpr, hright, hexpr⟩ := bind_eq_ok.mp hexpr
    rw [sqlExprToDfExpr, operatorToDf_eq hop, ihl hleft, ihr hright]
    exact hexpr

/-- What the rule's translator makes of a node tells the node, of the kinds that both know. -/
theorem bare_of_sqlExprToDfExpr {e : SqlExpr} {expr : Expr}
    (h : sqlExprToDfExpr engine e = .ok expr) :
    (∃ x q, e.bare = .identifier x q ∧ expr = .column (engine.col x)) ∨
      (∃ v x, e.bare = .value v ∧ v.scalar = some x ∧ expr = .literal x) ∨
      (∃ l op r l' op' r', e.bare = .binaryOp l op r ∧ operatorToDf op = .ok op' ∧
        sqlExprToDfExpr engine l = .ok l' ∧ sqlExprToDfExpr engine r = .ok r' ∧
        expr = .binaryExpr l' op' r') ∨
      (∃ op args, expr = .other op args) ∨
      ∃ (l : Expr) (negated : Bool) (r : Expr),
        expr = .binaryExpr l (if negated then .notLikeMatch else .likeMatch) r := by
  rw [← sqlExprToDfExpr_bare] at h
  cases hbare : e.bare with
  | nested inner => exact absurd hbare (e.bare_ne_nested inner)
  | other => rw [hbare] at h; cases h
  | identifier x q =>
    rw [hbare] at h
    exact .inl ⟨x, q, rfl, (Except.ok.inj h).symm⟩
  | value v =>
    rw [hbare, sqlExprToDfExpr] at h
    obtain ⟨x, hx, hexpr⟩ := literalToDf_ok_iff.1 h
    exact .inr (.inl ⟨v, x, rfl, hx, hexpr.symm⟩)
  | binaryOp l op r =>
    rw [hbare, sqlExprToDfExpr] at h
    obtain ⟨op', hop, h⟩ := bind_eq_ok.mp h
    obtain ⟨l', hl, h⟩ := bind_eq_ok.mp h
    obtain ⟨r', hr, h⟩ := bind_eq_ok.mp h
    exact .inr (.inr (.inl ⟨l, op, r, l', op', r', rfl, hop, hl, hr, (Except.ok.inj h).symm⟩))
  | like negated any inner pattern escapeChar =>
    rw [hbare, sqlExprToDfExpr] at h
    obtain ⟨l', -, h⟩ := bind_eq_ok.mp h
    obtain ⟨r', -, h⟩ := bind_eq_ok.mp h
    exact .inr (.inr (.inr (.inr ⟨l', negated, r', (Except.ok.inj h).symm⟩)))
  | inList inner list negated =>
    rw [hbare, sqlExprToDfExpr] at h
    obtain ⟨_, -, h⟩ := bind_eq_ok.mp h
    obtain ⟨_, -, h⟩ := bind_eq_ok.mp h
    exact .inr (.inr (.inr (.inl ⟨_, _, (Except.ok.inj h).symm⟩)))
  | _ =>
    rw [hbare, sqlExprToDfExpr] at h
    obtain ⟨_, -, h⟩ := bind_eq_ok.mp h
    exact .inr (.inr (.inr (.inl ⟨_, _, (Except.ok.inj h).symm⟩)))

/-- Both know the operator: it is no pattern match. -/
theorem comparisonToDf_ne_like {op : BinaryOperator} {negated : Bool} :
    comparisonToDf op ≠ .ok (if negated then .notLikeMatch else .likeMatch) := by
  cases op <;> cases negated <;> simp [comparisonToDf, unsupportedOperator]

/-- Trees of which the translators make one expression are alike. -/
theorem alike_of_translate_eq : ∀ {e' e : SqlExpr} {expr : Expr},
    sqlAstToDfExpr engine e' = .ok expr → sqlExprToDfExpr engine e = .ok expr → Alike engine e e'
  | .nested inner, e, expr, h', h => .nestedRight (alike_of_translate_eq h' h)
  | .identifier y q, e, expr, h', h => by
    obtain rfl := Except.ok.inj h'
    apply Alike.of_bare
    obtain ⟨x, p, hbare, hcol⟩ | ⟨_, _, -, -, hx⟩ | ⟨_, _, _, _, _, _, -, -, -, -, hx⟩ |
      ⟨_, _, hx⟩ | ⟨_, _, _, hx⟩ := bare_of_sqlExprToDfExpr h
    · rw [hbare]
      exact .identifier (Expr.column.inj hcol).symm
    all_goals cases hx
  | .value w, e, expr, h', h => by
    obtain ⟨y, hy, rfl⟩ := literalToDf_ok_iff.1 h'
    apply Alike.of_bare
    obtain ⟨_, _, -, hx⟩ | ⟨v, x, hbare, hscalar, hx⟩ | ⟨_, _, _, _, _, _, -, -, -, -, hx⟩ |
      ⟨_, _, hx⟩ | ⟨_, _, _, hx⟩ := bare_of_sqlExprToDfExpr h
    · cases hx
    · obtain rfl := Expr.literal.inj hx
      rw [hbare]
      exact .value (hscalar.trans hy.symm)
    all_goals cases hx
  | .binaryOp l op r, e, expr, h', h => by
    rw [sqlAstToDfExpr] at h'
    obtain ⟨op', hop', h'⟩ := bind_eq_ok.mp h'
    obtain ⟨l', hl', h'⟩ := bind_eq_ok.mp h'
    obtain ⟨r', hr', h'⟩ := bind_eq_ok.mp h'
    obtain rfl := Except.ok.inj h'
    apply Alike.of_bare
    obtain ⟨_, _, -, hx⟩ | ⟨_, _, -, -, hx⟩ | ⟨_, _, _, _, _, _, hbare, hop, hl, hr, hx⟩ |
      ⟨_, _, hx⟩ | ⟨_, _, _, hx⟩ := bare_of_sqlExprToDfExpr h
    · cases hx
    · cases hx
    · obtain ⟨rfl, rfl, rfl⟩ := Expr.binaryExpr.inj hx
      obtain rfl := operatorToDf_inj hop hop'
      rw [hbare]
      exact .binaryOp _ (alike_of_translate_eq hl' hl) (alike_of_translate_eq hr' hr)
    · cases hx
    · obtain ⟨-, rfl, -⟩ := Expr.binaryExpr.inj hx
      exact absurd hop' comparisonToDf_ne_like
  | .not _, _, _, h', _ | .isNull _, _, _, h', _ | .isNotNull _, _, _, h', _
  | .inList _ _ _, _, _, h', _ | .like _ _ _ _ _, _, _, h', _ | .other _, _, _, h', _ => by
    cases h'

/-- **The translators make one expression of two trees exactly when the operator's takes its tree
and the trees are alike.** -/
theorem translate_eq_iff {e e' : SqlExpr} :
    (∃ expr, sqlExprToDfExpr engine e = .ok expr ∧ sqlAstToDfExpr engine e' = .ok expr) ↔
      Takes (sqlAstToDfExpr engine) e' ∧ Alike engine e e' := by
  constructor
  · intro ⟨expr, h, h'⟩
    exact ⟨⟨expr, h'⟩, alike_of_translate_eq h' h⟩
  · intro ⟨⟨expr, h'⟩, halike⟩
    exact ⟨expr, halike.translate_eq h', h'⟩

end

end Griot.Sql
