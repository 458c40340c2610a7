import Griot.Logical.RowFilter
import Griot.Physical.RowFilter
import Griot.Sql.Grammar

/-! Whether a filter text is used whole.

The text is put behind `SELECT 1 WHERE` and parsed as a list of statements. An expression
is in front of it; what is behind that can be further clauses of the query, a semicolon,
further statements. Only the first statement's selection is taken, so all of that is
dropped without an error. A text is used whole or not at all exactly when nothing that a
statement can go on with follows an expression that can be translated
(`used_whole_iff`). -/
namespace Griot.Sql

open Lib Logical Physical

/-- The parser of the engine below, behind `SELECT 1 WHERE`. -/
structure SqlGrammar where
  Token : Type
  /-- The tokens of a text; whitespace and comments are none. -/
  tokenize : String → Except String (List Token)
  /-- The expression in front, and the tokens behind it. -/
  parseExpr : List Token → Except String (SqlExpr × List Token)
  /-- What follows the clause: whether the body of the query is still the one `SELECT`, and
  the statements after the query. -/
  parseRest : List Token → Except String (Bool × List Statement)
  parseRest_nil : parseRest [] = .ok (true, [])

namespace SqlGrammar
variable (g : SqlGrammar)

/-- The statements of the text behind `SELECT 1 WHERE`. -/
def statements (s : String) : Except String (List Statement) := do
  let tokens ← g.tokenize s
  let (selection, rest) ← g.parseExpr tokens
  let (plain, more) ← g.parseRest rest
  return .query (if plain then .select (some selection) else .other) :: more

/-- The engine's parser is of this grammar. -/
def Parses (engine : SqlEngine) : Prop :=
  ∀ s, engine.parseSql ("SELECT 1 WHERE " ++ s) = g.statements s

/-- The text, all of it, is one expression. -/
def IsExpression (s : String) (e : SqlExpr) : Prop :=
  ∃ tokens, g.tokenize s = .ok tokens ∧ g.parseExpr tokens = .ok (e, [])

/-- The text is an expression and something else that a statement can go on with. -/
def GoesOn (s : String) (e : SqlExpr) : Prop :=
  ∃ tokens rest more, g.tokenize s = .ok tokens ∧ g.parseExpr tokens = .ok (e, rest) ∧
    rest ≠ [] ∧ g.parseRest rest = .ok (true, more)

/-- **Whole or rejected**: what a parser makes of the text is what the translator makes of
the one expression that the text is. -/
def UsedWhole {ε : Type} (translate : SqlExpr → Except String Expr)
    (parse : String → Except ε Expr) (s : String) : Prop :=
  ∀ expr, parse s = .ok expr → ∃ e, g.IsExpression s e ∧ translate e = .ok expr

variable {g}

theorem GoesOn.not_isExpression {s : String} {e e' : SqlExpr} (h : g.GoesOn s e) :
    ¬g.IsExpression s e' := by
  intro h'
  obtain ⟨tokens, rest, _, htokens, hexpr, hrest, -⟩ := h
  obtain ⟨tokens', htokens', hexpr'⟩ := h'
  obtain rfl := Except.ok.inj (htokens.symm.trans htokens')
  obtain ⟨-, rfl⟩ := Prod.mk.inj (Except.ok.inj (hexpr.symm.trans hexpr'))
  exact hrest rfl

/-- The statements begin with a plain `SELECT` when an expression is in front and what
follows it leaves the query one. -/
theorem statements_select_iff {s : String} {e : SqlExpr} :
    (∃ more, g.statements s = .ok (.query (.select (some e)) :: more)) ↔
      g.IsExpression s e ∨ g.GoesOn s e := by
  constructor
  · intro ⟨more, h⟩
    obtain ⟨tokens, htokens, h⟩ := bind_eq_ok.mp h
    obtain ⟨⟨e', rest⟩, hexpr, h⟩ := bind_eq_ok.mp h
    obtain ⟨⟨plain, more'⟩, hrest, h⟩ := bind_eq_ok.mp h
    cases plain with
    | false => cases Except.ok.inj h
    | true =>
      obtain ⟨⟨rfl⟩, rfl⟩ := List.cons.inj (Except.ok.inj h)
      by_cases hnil : rest = []
      · subst hnil
        exact .inl ⟨tokens, htokens, hexpr⟩
      · exact .inr ⟨tokens, rest, more', htokens, hexpr, hnil, hrest⟩
  · intro h
    cases h with
    | inl h =>
      obtain ⟨tokens, htokens, hexpr⟩ := h
      exact ⟨[], bind_eq_ok.mpr ⟨_, htokens, bind_eq_ok.mpr ⟨_, hexpr,
        bind_eq_ok.mpr ⟨_, g.parseRest_nil, rfl⟩⟩⟩⟩
    | inr h =>
      obtain ⟨tokens, rest, more, htokens, hexpr, -, hrest⟩ := h
      exact ⟨more, bind_eq_ok.mpr ⟨_, htokens, bind_eq_ok.mpr ⟨_, hexpr,
        bind_eq_ok.mpr ⟨_, hrest, rfl⟩⟩⟩⟩

variable {engine : SqlEngine} {translate : SqlExpr → Except String Expr} {s : String}

theorem filterSelection_ok_iff (h : g.Parses engine) {e : SqlExpr} :
    filterSelection engine s = .ok e ↔ g.IsExpression s e ∨ g.GoesOn s e := by
  rw [← statements_select_iff, ← h s, filterSelection]
  split
  · rename_i heq
    simp [heq]
  · rename_i heq
    simp [heq]
  · rename_i selection more heq
    simp [heq]
  · rename_i hother heq
    refine iff_of_false nofun ?_
    intro ⟨more, hselect⟩
    exact hother e more (Except.ok.inj (heq.symm.trans hselect))

/-- One parser, whatever its errors are. -/
theorem usedWhole_iff {ε : Type} {parse : String → Except ε Expr} (h : g.Parses engine)
    (hparse : ∀ expr, parse s = .ok expr ↔ filterToDf engine translate s = .ok expr) :
    g.UsedWhole translate parse s ↔ ¬∃ e, g.GoesOn s e ∧ Takes translate e := by
  simp only [UsedWhole, hparse, filterToDf_ok_iff, filterSelection_ok_iff h]
  constructor
  · intro hwhole ⟨e, hgoes, expr, hexpr⟩
    obtain ⟨e', his, -⟩ := hwhole expr ⟨e, .inr hgoes, hexpr⟩
    exact hgoes.not_isExpression his
  · intro hnone expr ⟨e, his, hexpr⟩
    exact ⟨e, his.resolve_right fun hgoes => hnone ⟨e, hgoes, expr, hexpr⟩, hexpr⟩

end SqlGrammar

theorem usedWhole_rule {g : SqlGrammar} {rule : RowFilterRule} (h : g.Parses rule.engine) (s : String) :
    g.UsedWhole (sqlExprToDfExpr rule.engine) rule.parseFilterExpr s ↔
      ¬∃ e, g.GoesOn s e ∧ Takes (sqlExprToDfExpr rule.engine) e := by
  refine SqlGrammar.usedWhole_iff h fun expr => ?_
  rw [RowFilterRule.parseFilterExpr]
  cases filterToDf rule.engine (sqlExprToDfExpr rule.engine) s with
  | error reason => exact iff_of_false nofun nofun
  | ok expr' => simp

theorem usedWhole_operator {g : SqlGrammar} {engine : Engine} (h : g.Parses engine.sql) (s : String) :
    g.UsedWhole (sqlAstToDfExpr engine.sql) (RowFilterExec.parseFilterExprToDf engine) s ↔
      ¬∃ e, g.GoesOn s e ∧ Takes (sqlAstToDfExpr engine.sql) e := by
  refine SqlGrammar.usedWhole_iff h fun expr => ?_
  rw [RowFilterExec.parseFilterExprToDf]
  cases filterToDf engine.sql (sqlAstToDfExpr engine.sql) s with
  | error reason => exact iff_of_false nofun nofun
  | ok expr' => simp [Except.mapError]

/-- **When a filter text is used whole or rejected**, by the rule and by the operator. -/
theorem used_whole_iff {g : SqlGrammar} {rule : RowFilterRule} {engine : Engine}
    (hrule : g.Parses rule.engine) (hengine : g.Parses engine.sql) (s : String) :
    (g.UsedWhole (sqlExprToDfExpr rule.engine) rule.parseFilterExpr s ↔
      ¬∃ e, g.GoesOn s e ∧ ¬SqlExpr.Occurs SqlExpr.Foreign e) ∧
    (g.UsedWhole (sqlAstToDfExpr engine.sql) (RowFilterExec.parseFilterExprToDf engine) s ↔
      ¬∃ e, g.GoesOn s e ∧ ¬SqlExpr.Occurs SqlExpr.Foreign e ∧
        ¬SqlExpr.Occurs SqlExpr.RuleOnly e) := by
  constructor
  · refine (usedWhole_rule hrule s).trans ?_
    exact not_congr (exists_congr fun e => and_congr_right fun _ => sqlExprToDfExpr_takes e)
  · refine (usedWhole_operator hengine s).trans ?_
    exact not_congr (exists_congr fun e => and_congr_right fun _ => sqlAstToDfExpr_takes e)

/-! ### A dropped `HAVING` -/

/-- `a = 1` -/
def aIsOne : SqlExpr :=
  .binaryOp (.identifier "a" none) .eq (.value (.number "1"))

/-- A grammar of one expression, which a `HAVING` clause may follow. -/
def havingGrammar : SqlGrammar where
  Token := String
  tokenize := fun s =>
    if s = "a = 1" then .ok ["a", "=", "1"]
    else if s = "a = 1 HAVING b = 2" then .ok ["a", "=", "1", "HAVING", "b", "=", "2"]
    else .error "Expected: an expression"
  parseExpr := fun tokens =>
    if tokens.take 3 = ["a", "=", "1"] then .ok (aIsOne, tokens.drop 3)
    else .error "Expected: an expression"
  parseRest := fun tokens =>
    if tokens = [] ∨ tokens = ["HAVING", "b", "=", "2"] then .ok (true, [])
    else .error "Expected: end of statement"
  parseRest_nil := rfl

/-- An engine that parses by a grammar. -/
def SqlGrammar.engine (g : SqlGrammar) : SqlEngine where
  parseSql := fun text => g.statements (String.ofList (text.toList.drop 15))
  col := fun name => ⟨none, name⟩
  debug := fun _ => ""

theorem SqlGrammar.engine_parses (g : SqlGrammar) : g.Parses g.engine := by
  intro s
  have hprefix : "SELECT 1 WHERE ".toList.length = 15 := by decide
  show g.statements (String.ofList (("SELECT 1 WHERE " ++ s).toList.drop 15)) = g.statements s
  rw [String.toList_append, ← hprefix, List.drop_left, String.ofList_toList]

def havingRule : RowFilterRule where
  serde := .just "[]" (.array []) (by decide)
  engine := havingGrammar.engine
  planner := ⟨fun _ _ => none, fun _ _ => .ok [], fun _ => ""⟩
  bundle := ⟨[], "orders-contract", "acme"⟩
  principal := ⟨"user:alice", "analytics", "gold", "internal"⟩

def havingEngine : Engine where
  sql := havingGrammar.engine
  dfSchema := fun _ => .ok ()
  createPhysicalExpr := fun _ _ => .error ""
  castFails := fun _ _ => none
  render := fun _ _ => none
  sha256Hex := fun _ => ""
  rounding := .nearest

/-- `a = 1` is used whole. -/
theorem used_whole_iff_comparison :
    havingGrammar.UsedWhole (sqlExprToDfExpr havingRule.engine) havingRule.parseFilterExpr "a = 1" ∧
    havingGrammar.UsedWhole (sqlAstToDfExpr havingEngine.sql)
      (RowFilterExec.parseFilterExprToDf havingEngine) "a = 1" := by
  have hwhole : ∀ e, ¬havingGrammar.GoesOn "a = 1" e := fun e hgoes =>
    hgoes.not_isExpression ⟨["a", "=", "1"], rfl, rfl⟩
  have hrule : havingGrammar.Parses havingRule.engine := havingGrammar.engine_parses
  have hexec : havingGrammar.Parses havingEngine.sql := havingGrammar.engine_parses
  obtain ⟨hrule, hexec⟩ := used_whole_iff hrule hexec "a = 1"
  exact ⟨hrule.mpr fun ⟨e, h, _⟩ => hwhole e h, hexec.mpr fun ⟨e, h, _⟩ => hwhole e h⟩

/-- `a = 1 HAVING b = 2` filters by `a = 1`. -/
theorem having_dropped :
    ¬havingGrammar.UsedWhole (sqlExprToDfExpr havingRule.engine) havingRule.parseFilterExpr
      "a = 1 HAVING b = 2" ∧
    ¬havingGrammar.UsedWhole (sqlAstToDfExpr havingEngine.sql)
      (RowFilterExec.parseFilterExprToDf havingEngine) "a = 1 HAVING b = 2" := by
  have hgoes : havingGrammar.GoesOn "a = 1 HAVING b = 2" aIsOne :=
    ⟨["a", "=", "1", "HAVING", "b", "=", "2"], ["HAVING", "b", "=", "2"], [], rfl, rfl, nofun, rfl⟩
  have hrule : havingGrammar.Parses havingRule.engine := havingGrammar.engine_parses
  have hexec : havingGrammar.Parses havingEngine.sql := havingGrammar.engine_parses
  exact ⟨fun h => (usedWhole_rule hrule _).mp h ⟨aIsOne, hgoes, _, rfl⟩,
    fun h => (usedWhole_operator hexec _).mp h ⟨aIsOne, hgoes, _, rfl⟩⟩

end Griot.Sql
