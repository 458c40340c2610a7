import Griot.Logical.Evaluate
import Griot.Sql.Grammar

/-! What a filter means, and what the translation keeps of it.

A tree has a value on a row once its texts are read: its numbers, its names and its
patterns (`Reading`). The exact reading is SQL's. The translators have one of their own: a
number outside 64 bits is the nearest double, a name is looked up the engine's way without
its quotes, and neither `ANY` nor `ESCAPE` counts. What they make of a tree has on every row
the value of the tree in that reading (`eval_translated`), so its truth is SQL's on exactly
the rows on which the two readings come to the same (`translation_keeps_iff`). -/
namespace Griot.Sql

open Lib Logical

structure Reading where
  number : String → Datum
  column : String → Option Char → Column
  /-- Whether it is `ANY`, and the text after `ESCAPE`. -/
  like : Bool → Option String → Datum → Datum → Truth

/-! ### The meaning of a tree -/

section
variable (E : Evaluator) (R : Reading) (row : Column → Datum)

def SqlValue.datum : SqlValue → Datum
  | .singleQuotedString s => .text s
  | .number n => R.number n
  | .boolean b => .boolean b
  | .null => .null
  -- No translator takes the other kinds.
  | .other _ => .null

def BinaryOperator.truth (op : BinaryOperator) (left right : Datum) : Truth :=
  match op with
  | .eq => E.comparison .eq left right
  | .notEq => E.comparison .notEq left right
  | .lt => E.comparison .lt left right
  | .ltEq => E.comparison .ltEq left right
  | .gt => E.comparison .gt left right
  | .gtEq => E.comparison .gtEq left right
  | .and => left.truth.and right.truth
  | .or => left.truth.or right.truth
  | .pgLikeMatch => like (some '\\') left right
  | .pgNotLikeMatch => (like (some '\\') left right).not
  | .other _ => .unknown

/-- The negation, where there is one. -/
def negate (negated : Bool) (t : Truth) : Truth := if negated then t.not else t

def SqlExpr.datum : SqlExpr → Datum
  | .binaryOp left op right => .ofTruth (op.truth E left.datum right.datum)
  | .not expr => .ofTruth expr.datum.truth.not
  | .isNull expr => .boolean expr.datum.isNull
  | .isNotNull expr => .boolean !expr.datum.isNull
  -- A value is in a list if it equals one or the other of its items.
  | .inList expr list negated =>
    .ofTruth (negate negated (((data list).map (E.comparison .eq expr.datum)).foldr .or .false))
  | .like negated any expr pattern escapeChar =>
    .ofTruth (negate negated (R.like any escapeChar expr.datum pattern.datum))
  | .identifier name quoteStyle => row (R.column name quoteStyle)
  | .value v => v.datum R
  | .nested expr => expr.datum
  | .other _ => .null
where
  data : List SqlExpr → List Datum
    | [] => []
    | e :: es => e.datum :: data es

def SqlExpr.truth (sqlExpr : SqlExpr) : Truth := (sqlExpr.datum E R row).truth

end

/-! ### The two readings -/

/-- A backslash escapes where no `ESCAPE` says otherwise; an empty one turns escaping off. -/
def escapeOf : Option String → Option Char
  | none => some '\\'
  | some text => match text.toList with
    | [c] => some c
    | _ => none

/-- `ANY` matches a list of patterns if it matches one of them. -/
def likeAny (escape : Option Char) (d : Datum) : Datum → Truth
  | .list patterns => .any (patterns.map (like escape d))
  | pattern => like escape d pattern

/-- The datum of a literal as it is translated. -/
def translatedNumber (n : String) : Datum := (SqlValue.number n).scalar.elim .null ScalarValue.datum

/-- SQL's reading, where `resolve` says which column a name is. A text that denotes no number
is read as it is translated. -/
def Reading.exact (resolve : String → Option Char → Column) : Reading where
  number n := match decimalValue n.toList with
    | some q => .number q
    | none => translatedNumber n
  column := resolve
  like any escapeChar d pattern :=
    if any then likeAny (escapeOf escapeChar) d pattern
    else Logical.like (escapeOf escapeChar) d pattern

/-- The reading of the translators. -/
def Reading.translated (engine : SqlEngine) : Reading where
  number := translatedNumber
  column name _ := engine.col name
  like _ _ d pattern := Logical.like (some '\\') d pattern

/-! ### The translation keeps the meaning in its own reading -/

section
variable {E : Evaluator} {engine : SqlEngine} {row : Column → Datum}

theorem datum_of_literal {unsupported : String} {v : SqlValue} {expr : Expr}
    (h : literalToDf unsupported v = .ok expr) :
    E.eval row expr = some (v.datum (.translated engine)) := by
  obtain ⟨x, hx, rfl⟩ := literalToDf_ok_iff.1 h
  rw [Evaluator.eval]
  cases v with
  | number n => simp [SqlValue.datum, Reading.translated, translatedNumber, hx]
  | other => cases hx
  | _ =>
    obtain rfl := Option.some.inj hx
    rfl

theorem binary_of_operator {op : BinaryOperator} {dfOp : Operator} (h : operatorToDf op = .ok dfOp)
    (left right : Datum) : E.binary left dfOp right = some (.ofTruth (op.truth E left right)) := by
  cases op with
  | other => cases h
  | _ =>
    obtain rfl := Except.ok.inj h
    rfl

theorem within_eq (d : Datum) (ds : List Datum) :
    E.within d ds = (ds.map (E.comparison .eq d)).foldr .or .false := by
  rw [Evaluator.within, Truth.foldr_or]

/-- **What a translator makes of a tree has, on every row, the value of the tree as the
translators read it.** -/
theorem eval_translated : ∀ {sqlExpr : SqlExpr} {expr : Expr},
    sqlExprToDfExpr engine sqlExpr = .ok expr →
      E.eval row expr = some (sqlExpr.datum E (.translated engine) row)
  | .identifier name quoteStyle, expr, h => by
    obtain rfl := Except.ok.inj h
    rfl
  | .value v, expr, h => datum_of_literal h
  | .nested inner, expr, h => by
    have hinner : sqlExprToDfExpr engine inner = .ok expr := by rwa [sqlExprToDfExpr] at h
    rw [SqlExpr.datum]
    exact eval_translated hinner
  | .binaryOp left op right, expr, h => by
    rw [sqlExprToDfExpr] at h
    obtain ⟨dfOp, hop, h⟩ := bind_eq_ok.mp h
    obtain ⟨leftExpr, hleft, h⟩ := bind_eq_ok.mp h
    obtain ⟨rightExpr, hright, h⟩ := bind_eq_ok.mp h
    obtain rfl := Except.ok.inj h
    rw [Evaluator.eval, eval_translated hleft, eval_translated hright]
    exact binary_of_operator hop _ _
  | .not inner, expr, h => by
    rw [sqlExprToDfExpr] at h
    obtain ⟨innerExpr, hinner, h⟩ := bind_eq_ok.mp h
    obtain rfl := Except.ok.inj h
    rw [Expr.not, Evaluator.eval, Evaluator.evalAll, eval_translated hinner]
    rfl
  | .isNull inner, expr, h => by
    rw [sqlExprToDfExpr] at h
    obtain ⟨innerExpr, hinner, h⟩ := bind_eq_ok.mp h
    obtain rfl := Except.ok.inj h
    rw [Expr.isNull, Evaluator.eval, Evaluator.evalAll, eval_translated hinner]
    rfl
  | .isNotNull inner, expr, h => by
    rw [sqlExprToDfExpr] at h
    obtain ⟨innerExpr, hinner, h⟩ := bind_eq_ok.mp h
    obtain rfl := Except.ok.inj h
    rw [Expr.isNotNull, Evaluator.eval, Evaluator.evalAll, eval_translated hinner]
    rfl
  | .inList inner list negated, expr, h => by
    rw [sqlExprToDfExpr] at h
    obtain ⟨innerExpr, hinner, h⟩ := bind_eq_ok.mp h
    obtain ⟨listExprs, hlist, h⟩ := bind_eq_ok.mp h
    obtain rfl := Except.ok.inj h
    rw [Expr.inList, Evaluator.eval, Evaluator.evalAll, eval_translated hinner, evalAll_translated hlist]
    rw [SqlExpr.datum, ← within_eq]
    cases negated <;> rfl
  | .like negated any inner pattern escapeChar, expr, h => by
    rw [sqlExprToDfExpr] at h
    obtain ⟨innerExpr, hinner, h⟩ := bind_eq_ok.mp h
    obtain ⟨patternExpr, hpattern, h⟩ := bind_eq_ok.mp h
    obtain rfl := Except.ok.inj h
    rw [Evaluator.eval, eval_translated hinner, eval_translated hpattern]
    cases negated <;> rfl
where
  evalAll_translated : ∀ {list : List SqlExpr} {exprs : List Expr},
      sqlExprToDfExpr.listToDf engine list = .ok exprs →
        E.evalAll row exprs = some (SqlExpr.datum.data E (.translated engine) row list)
    | [], exprs, h => by
      obtain rfl := Except.ok.inj h
      rfl
    | e :: es, exprs, h => by
      rw [sqlExprToDfExpr.listToDf] at h
      obtain ⟨expr, he, h⟩ := bind_eq_ok.mp h
      obtain ⟨exprs, hes, h⟩ := bind_eq_ok.mp h
      obtain rfl := Except.ok.inj h
      rw [Evaluator.evalAll, eval_translated he, evalAll_translated hes]
      rfl

end

/-! ### What keeps its exact meaning -/

/-- The escape character is the backslash, or the pattern is a text with neither of the two. -/
def PlainEscape (escapeChar : Option String) (pattern : SqlExpr) : Prop :=
  escapeOf escapeChar = some '\\' ∨ ∃ text, pattern = .value (.singleQuotedString text) ∧
    ∀ c ∈ text.toList, some c ≠ escapeOf escapeChar ∧ some c ≠ some '\\'

section
variable (engine : SqlEngine) (resolve : String → Option Char → Column)

/-- The two readings of the node differ: a name that is folded, split or taken out of its quotes
to another column, a number that is neither of 64 bits nor a double, `ANY` and `ESCAPE`. -/
def SqlExpr.Lossy : SqlExpr → Prop
  | .identifier name quoteStyle => engine.col name ≠ resolve name quoteStyle
  | .value (.number n) => parseI64 n.toList = none ∧
    ∃ q, decimalValue n.toList = some q ∧ parseF64 n.toList ≠ some (.fin q)
  | .like _ any _ pattern escapeChar => any = true ∨ ¬ PlainEscape escapeChar pattern
  | _ => False

variable {engine resolve} {E : Evaluator} {row : Column → Datum}

theorem number_of_not_lossy {n : String}
    (h : ¬ (SqlExpr.value (.number n)).Lossy engine resolve) :
    translatedNumber n = (Reading.exact resolve).number n := by
  rw [SqlExpr.Lossy] at h
  simp only [Reading.exact]
  cases hq : decimalValue n.toList with
  | none => rfl
  | some q =>
    rw [translatedNumber, SqlValue.scalar]
    cases hint : parseI64 n.toList with
    | some i =>
      obtain rfl := Option.some.inj ((decimalValue_of_parseI64 hint).symm.trans hq)
      rfl
    | none =>
      have hfloat : parseF64 n.toList = some (.fin q) := by
        by_contra hne
        exact h ⟨hint, q, hq, hne⟩
      rw [hfloat]
      rfl

theorem like_of_plainEscape {escapeChar : Option String} {pattern : SqlExpr}
    (h : PlainEscape escapeChar pattern) (R : Reading) (d : Datum) :
    like (some '\\') d (pattern.datum E R row) =
      like (escapeOf escapeChar) d (pattern.datum E R row) := by
  obtain h | ⟨text, rfl, htext⟩ := h
  · rw [h]
  · cases d with
    | text s =>
      show Truth.ofBool _ = Truth.ofBool _
      rw [likeMatches_of_notMem (fun c hc => (htext c hc).2) (fun c hc => (htext c hc).1)]
    | _ => rfl

theorem data_eq_map (R : Reading) (list : List SqlExpr) :
    SqlExpr.datum.data E R row list = list.map (SqlExpr.datum E R row) := by
  induction list with
  | nil => rfl
  | cons e es ih => rw [SqlExpr.datum.data, ih, List.map_cons]

/-- **A tree without a lossy node means in either reading the same.** -/
theorem datum_of_not_lossy {sqlExpr : SqlExpr}
    (h : ¬ SqlExpr.Occurs (SqlExpr.Lossy engine resolve) sqlExpr) :
    sqlExpr.datum E (.translated engine) row = sqlExpr.datum E (.exact resolve) row := by
  induction sqlExpr using SqlExpr.byChildren with
  | h sqlExpr ih =>
    obtain ⟨hself, hchildren⟩ := (SqlExpr.not_occurs_step sqlExpr).1 h
    have hchild := fun child hmem => ih child hmem (hchildren child hmem)
    cases sqlExpr with
    | identifier name quoteStyle =>
      rw [SqlExpr.datum, SqlExpr.datum]
      exact congrArg row (not_not.1 hself)
    | value v =>
      cases v with
      | number n => exact number_of_not_lossy hself
      | _ => rfl
    | inList inner list negated =>
      have hlist : list.map (SqlExpr.datum E (.translated engine) row) =
          list.map (SqlExpr.datum E (.exact resolve) row) :=
        List.map_congr_left fun e he => hchild e (List.mem_cons_of_mem _ he)
      rw [SqlExpr.datum, SqlExpr.datum, data_eq_map, data_eq_map, hlist,
        hchild inner List.mem_cons_self]
    | like negated any inner pattern escapeChar =>
      obtain ⟨hany, hplain⟩ := not_or.1 hself
      obtain rfl := Bool.eq_false_iff.2 hany
      rw [SqlExpr.datum, SqlExpr.datum, hchild inner List.mem_cons_self,
        hchild pattern (List.mem_cons_of_mem _ List.mem_cons_self)]
      exact congrArg (fun t => Datum.ofTruth (negate negated t))
        (like_of_plainEscape (not_not.1 hplain) _ _)
    | other => rfl
    | binaryOp left op right =>
      rw [SqlExpr.datum, SqlExpr.datum, hchild left List.mem_cons_self,
        hchild right (List.mem_cons_of_mem _ List.mem_cons_self)]
    | _ =>
      rw [SqlExpr.datum, SqlExpr.datum, hchild _ List.mem_cons_self]

end

section
variable (E : Evaluator) (engine : SqlEngine) (resolve : String → Option Char → Column)

/-- On the row the expression has the truth value of the tree. -/
def KeepsTruth (sqlExpr : SqlExpr) (expr : Expr) (row : Column → Datum) : Prop :=
  (E.eval row expr).map Datum.truth = some (sqlExpr.truth E (.exact resolve) row)

variable {E engine resolve}

/-- **A translated tree keeps its truth on exactly the rows on which the translators' reading of
its names, numbers and patterns comes to the same as the exact one**, which is every row where
no node is lossy. -/
theorem translation_keeps_iff {sqlExpr : SqlExpr} {expr : Expr}
    (h : sqlExprToDfExpr engine sqlExpr = .ok expr ∨ sqlAstToDfExpr engine sqlExpr = .ok expr) :
    (∀ row, KeepsTruth E resolve sqlExpr expr row ↔
      sqlExpr.truth E (.translated engine) row = sqlExpr.truth E (.exact resolve) row) ∧
    (¬ SqlExpr.Occurs (SqlExpr.Lossy engine resolve) sqlExpr →
      ∀ row, KeepsTruth E resolve sqlExpr expr row) := by
  have hrule : sqlExprToDfExpr engine sqlExpr = .ok expr := by
    obtain h | h := h
    · exact h
    · exact sqlAstToDfExpr_eq engine sqlExpr expr h
  have hkeeps : ∀ row, KeepsTruth E resolve sqlExpr expr row ↔
      sqlExpr.truth E (.translated engine) row = sqlExpr.truth E (.exact resolve) row := by
    intro row
    rw [KeepsTruth, eval_translated hrule, Option.map_some, Option.some.injEq]
    rfl
  refine ⟨hkeeps, fun hlossless row => (hkeeps row).2 ?_⟩
  rw [SqlExpr.truth, SqlExpr.truth, datum_of_not_lossy hlossless]

end

/-- An engine without functions that looks a name up as it is. -/
def plainEngine : SqlEngine where
  parseSql := fun _ => .error "no parser"
  col := fun name => ⟨none, name⟩
  debug := fun _ => ""

def plainEvaluator : Evaluator where
  compare := fun _ _ _ => .unknown
  function := fun _ _ => none
  cast := fun _ _ => none

/-- `note LIKE 'a!%' ESCAPE '!'` -/
def escapedLike : SqlExpr :=
  .like false false (.identifier "note" none) (.value (.singleQuotedString "a!%")) (some "!")

/-- `note LIKE 'a!%'` -/
def translatedLike : Expr :=
  .binaryExpr (.column ⟨none, "note"⟩) .likeMatch (.literal (.utf8 (some "a!%")))

theorem translation_keeps_iff_escapedLike :
    (∀ row, KeepsTruth plainEvaluator (fun name _ => ⟨none, name⟩) escapedLike translatedLike row ↔
      escapedLike.truth plainEvaluator (.translated plainEngine) row =
        escapedLike.truth plainEvaluator (.exact fun name _ => ⟨none, name⟩) row) ∧
    (¬ SqlExpr.Occurs (SqlExpr.Lossy plainEngine fun name _ => ⟨none, name⟩) escapedLike →
      ∀ row, KeepsTruth plainEvaluator (fun name _ => ⟨none, name⟩) escapedLike translatedLike row) :=
  translation_keeps_iff (.inl rfl)

/-- **The escape character is lost**: the text `a%` matches `'a!%' ESCAPE '!'` and fails what is
made of it. -/
theorem escape_lost :
    sqlExprToDfExpr plainEngine escapedLike = .ok translatedLike ∧
      (plainEvaluator.eval (fun _ => .text "a%") translatedLike).map Datum.truth = some .false ∧
      escapedLike.truth plainEvaluator (.exact fun name _ => ⟨none, name⟩) (fun _ => .text "a%") =
        .true :=
  ⟨rfl, by decide, by decide⟩

end Griot.Sql
