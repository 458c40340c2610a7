import Griot.Logical.RowFilter
import Griot.Physical.RowFilter
import Griot.Sql.Grammar

/-! Where the row filter rule and the row filter operator enforce one predicate.

The two read a bundle each in its own way, and translate with a translator each. What
either makes of a bundle is nothing, an error or a predicate (`Enforcement`): the rule's
rewriting and the operator's work on a batch follow from that. The two agree exactly where
the texts they find do (`enforces_alike_iff`). -/
namespace Griot.Agreement

open Lib Sql
open Logical (Expr RowFilterRule Planner Transformed transformDown)
open Physical (RowFilterExec)

/-- What is made of a bundle. -/
inductive Enforcement where
  | nothing
  | rejected
  | predicate (expr : Expr)

section
variable (engine : SqlEngine) (translate : SqlExpr → Except String Expr)

/-- What is made of a filter text; the empty one is no filter. -/
def enforcementOf : Option String → Enforcement
  | none => .nothing
  | some exprStr =>
    if exprStr = "" then .nothing
    else match filterToDf engine translate exprStr with
      | .ok expr => .predicate expr
      | .error _ => .rejected

variable {engine translate}

theorem enforcementOf_eq_nothing {text : Option String} :
    enforcementOf engine translate text = .nothing ↔ text.getD "" = "" := by
  cases text with
  | none => exact iff_of_true rfl rfl
  | some exprStr =>
    rw [enforcementOf, Option.getD_some]
    split
    · rename_i hempty
      exact iff_of_true rfl hempty
    · rename_i hne
      refine iff_of_false ?_ hne
      split <;> nofun

theorem enforcementOf_eq_predicate {text : Option String} {expr : Expr} :
    enforcementOf engine translate text = .predicate expr ↔ ∃ exprStr e, text = some exprStr ∧
      exprStr ≠ "" ∧ filterSelection engine exprStr = .ok e ∧ translate e = .ok expr := by
  cases text with
  | none => exact iff_of_false nofun nofun
  | some exprStr =>
    have hok := @filterToDf_ok_iff engine translate exprStr expr
    rw [enforcementOf]
    split
    · rename_i hempty
      exact iff_of_false nofun fun ⟨_, _, htext, hne, _⟩ => hne (Option.some.inj htext ▸ hempty)
    · rename_i hne
      cases hmade : filterToDf engine translate exprStr with
      | ok made =>
        rw [hmade, Except.ok.injEq] at hok
        simpa [hne] using hok
      | error reason =>
        rw [hmade] at hok
        simpa [hne] using hok

theorem enforcementOf_eq_rejected {text : Option String} :
    enforcementOf engine translate text = .rejected ↔ ∃ exprStr, text = some exprStr ∧
      exprStr ≠ "" ∧ ∀ e, filterSelection engine exprStr = .ok e → ¬ Takes translate e := by
  cases text with
  | none => exact iff_of_false nofun nofun
  | some exprStr =>
    rw [enforcementOf]
    split
    · rename_i hempty
      exact iff_of_false nofun fun ⟨_, htext, hne, _⟩ => hne (Option.some.inj htext ▸ hempty)
    · rename_i hne
      cases hmade : filterToDf engine translate exprStr with
      | ok made =>
        obtain ⟨e, hselection, htranslate⟩ := filterToDf_ok_iff.1 hmade
        refine iff_of_false nofun ?_
        intro ⟨_, htext, _, hnone⟩
        obtain rfl := Option.some.inj htext
        exact hnone e hselection ⟨made, htranslate⟩
      | error reason =>
        refine iff_of_true rfl ⟨exprStr, rfl, hne, fun e hselection htakes => ?_⟩
        obtain ⟨expr, htranslate⟩ := htakes
        have hok := filterToDf_ok_iff.2 ⟨e, hselection, htranslate⟩
        rw [hmade] at hok
        cases hok

end

/-! ### The rule -/

/-- The text in force for the principal, of a bundle that the rule can read. -/
def ruleText (rule : RowFilterRule) : Option String :=
  rule.parseBundle.bind rule.effectiveRowFilter

def ruleEnforces (rule : RowFilterRule) : Enforcement :=
  enforcementOf rule.engine (sqlExprToDfExpr rule.engine) (ruleText rule)

section
variable {rule : RowFilterRule} (plan : Logical.LogicalPlan)

theorem rewrite_of_nothing (h : ruleEnforces rule = .nothing) :
    rule.rewrite plan = .ok ⟨plan, false⟩ := by
  rw [ruleEnforces, enforcementOf_eq_nothing, ruleText] at h
  rw [RowFilterRule.rewrite]
  cases hdata : rule.parseBundle with
  | none => rfl
  | some data =>
    rw [hdata, Option.bind_some] at h
    simp only [RowFilterRule.inject]
    cases htext : rule.effectiveRowFilter data with
    | none => rfl
    | some exprStr =>
      rw [htext, Option.getD_some] at h
      subst h
      rfl

theorem rewrite_of_text {exprStr : String} (htext : ruleText rule = some exprStr)
    (hne : exprStr ≠ "") : rule.rewrite plan = (do
      let filterExpr ← rule.parseFilterExpr exprStr
      match transformDown (rule.visit filterExpr) plan false with
      | (.ok newPlan, changed) => return ⟨newPlan, changed⟩
      | (.error e, _) => throw e) := by
  obtain ⟨data, hdata, htext⟩ := Option.bind_eq_some_iff.1 htext
  rw [RowFilterRule.rewrite, hdata]
  show rule.inject data plan = _
  unfold RowFilterRule.inject
  split
  · rename_i hnone
    cases htext.symm.trans hnone
  · rename_i hempty
    exact absurd (Option.some.inj (htext.symm.trans hempty)) hne
  · rename_i hsome
    obtain rfl := Option.some.inj (htext.symm.trans hsome)
    rfl

theorem rewrite_of_rejected (h : ruleEnforces rule = .rejected) :
    ∃ e, rule.rewrite plan = .error e := by
  obtain ⟨exprStr, htext, hne, hnone⟩ := enforcementOf_eq_rejected.1 h
  rw [rewrite_of_text plan htext hne, RowFilterRule.parseFilterExpr]
  split
  · rename_i expr hexpr
    obtain ⟨e, hselection, htranslate⟩ := filterToDf_ok_iff.1 hexpr
    exact absurd ⟨expr, htranslate⟩ (hnone e hselection)
  · exact ⟨_, rfl⟩

theorem rewrite_of_predicate {expr : Expr} (h : ruleEnforces rule = .predicate expr) :
    rule.rewrite plan = match transformDown (rule.visit expr) plan false with
      | (.ok newPlan, changed) => .ok ⟨newPlan, changed⟩
      | (.error e, _) => .error e := by
  obtain ⟨exprStr, e, htext, hne, hselection, htranslate⟩ := enforcementOf_eq_predicate.1 h
  rw [rewrite_of_text plan htext hne, RowFilterRule.parseFilterExpr,
    filterToDf_ok_iff.2 ⟨e, hselection, htranslate⟩]
  rfl

end

/-! ### The operator -/

def execEnforces (serde : SerdeJson) (engine : SqlEngine) (bundle : ContractBundleHandle) :
    Enforcement :=
  match RowFilterExec.parseRowFilter serde bundle with
  | .error _ => .rejected
  | .ok text => enforcementOf engine (sqlAstToDfExpr engine) text

section
variable {serde : SerdeJson} {engine : Physical.Engine} {bundle : ContractBundleHandle}
  {text : Option String} (htext : RowFilterExec.parseRowFilter serde bundle = .ok text)
  (batch : RecordBatch)

include htext

theorem onBatch_of_nothing (h : execEnforces serde engine.sql bundle = .nothing) :
    RowFilterExec.onBatch engine ⟨bundle, text⟩ batch = .ok batch := by
  rw [execEnforces, htext] at h
  rw [enforcementOf_eq_nothing] at h
  cases text with
  | none => rfl
  | some exprStr =>
    rw [RowFilterExec.onBatch]
    exact if_pos h

theorem onBatch_of_rejected (h : execEnforces serde engine.sql bundle = .rejected) :
    ∃ e, RowFilterExec.onBatch engine ⟨bundle, text⟩ batch = .error e := by
  rw [execEnforces, htext] at h
  obtain ⟨exprStr, rfl, hne, hnone⟩ := enforcementOf_eq_rejected.1 h
  have hparse : ∃ e, RowFilterExec.parseFilterExprToDf engine exprStr = .error e := by
    rw [RowFilterExec.parseFilterExprToDf]
    cases hexpr : filterToDf engine.sql (sqlAstToDfExpr engine.sql) exprStr with
    | error reason => exact ⟨_, rfl⟩
    | ok expr =>
      obtain ⟨e, hselection, htranslate⟩ := filterToDf_ok_iff.1 hexpr
      exact absurd ⟨expr, htranslate⟩ (hnone e hselection)
  obtain ⟨reason, hparse⟩ := hparse
  have happly : ∃ e, RowFilterExec.applyFilterToBatch engine batch exprStr = .error e := by
    rw [RowFilterExec.applyFilterToBatch, RowFilterExec.compileFilter, hparse]
    cases engine.dfSchema batch.schema with
    | error e => exact ⟨_, rfl⟩
    | ok u => exact ⟨_, rfl⟩
  obtain ⟨e, happly⟩ := happly
  simp only [RowFilterExec.onBatch, if_neg hne, happly]
  exact ⟨_, rfl⟩

/-- The predicate compiled for a schema is the expression's. -/
theorem compileFilter_of_predicate {expr : Expr}
    (h : execEnforces serde engine.sql bundle = .predicate expr) (schema : Schema) :
    ∃ exprStr, text = some exprStr ∧ exprStr ≠ "" ∧
      RowFilterExec.compileFilter engine schema exprStr = (do
        (engine.dfSchema schema).mapError fun e =>
          PhysicalError.internal ("DFSchema conversion error: " ++ e)
        (engine.createPhysicalExpr expr schema).mapError fun e =>
          PhysicalError.internal ("PhysicalExpr compilation error: " ++ e)) := by
  rw [execEnforces, htext] at h
  obtain ⟨exprStr, e, rfl, hne, hselection, htranslate⟩ := enforcementOf_eq_predicate.1 h
  refine ⟨exprStr, rfl, hne, ?_⟩
  rw [RowFilterExec.compileFilter, RowFilterExec.parseFilterExprToDf,
    filterToDf_ok_iff.2 ⟨e, hselection, htranslate⟩]
  rfl

end

/-! ### Where they agree -/

/-- What the rule finds, a text or none, and what the operator finds, a text or none or an error,
come to the same. -/
inductive TextsAgree (engine : SqlEngine) (text : Option String) :
    Except PhysicalError (Option String) → Prop
  /-- Neither finds a filter. -/
  | noFilter {text' : Option String} : text.getD "" = "" → text'.getD "" = "" →
    TextsAgree engine text (.ok text')
  /-- Both find one, the operator's of nodes that both know, and the two are alike. -/
  | alike {exprStr exprStr' : String} {e e' : SqlExpr} : text = some exprStr → exprStr ≠ "" →
    exprStr' ≠ "" → filterSelection engine exprStr = .ok e →
    filterSelection engine exprStr' = .ok e' → ¬ SqlExpr.Occurs SqlExpr.Foreign e' →
    ¬ SqlExpr.Occurs SqlExpr.RuleOnly e' → Alike engine e e' →
    TextsAgree engine text (.ok (some exprStr'))
  /-- The rule finds one without a clause of nodes that it knows, and the operator cannot read
  the bundle. -/
  | unreadable {exprStr : String} {error : PhysicalError} : text = some exprStr → exprStr ≠ "" →
    (∀ e, filterSelection engine exprStr = .ok e → SqlExpr.Occurs SqlExpr.Foreign e) →
    TextsAgree engine text (.error error)
  /-- The rule does, and the operator finds one without a clause of nodes that both know. -/
  | untranslatable {exprStr exprStr' : String} : text = some exprStr → exprStr ≠ "" →
    (∀ e, filterSelection engine exprStr = .ok e → SqlExpr.Occurs SqlExpr.Foreign e) →
    exprStr' ≠ "" →
    (∀ e', filterSelection engine exprStr' = .ok e' →
      SqlExpr.Occurs SqlExpr.Foreign e' ∨ SqlExpr.Occurs SqlExpr.RuleOnly e') →
    TextsAgree engine text (.ok (some exprStr'))

theorem Enforcement.eq_iff (a b : Enforcement) :
    a = b ↔ (a = .nothing ∧ b = .nothing) ∨ (a = .rejected ∧ b = .rejected) ∨
      ∃ expr, a = .predicate expr ∧ b = .predicate expr := by
  constructor
  · intro h
    subst h
    cases a with
    | nothing => exact .inl ⟨rfl, rfl⟩
    | rejected => exact .inr (.inl ⟨rfl, rfl⟩)
    | predicate expr => exact .inr (.inr ⟨expr, rfl, rfl⟩)
  · intro h
    obtain ⟨rfl, rfl⟩ | ⟨rfl, rfl⟩ | ⟨expr, rfl, rfl⟩ := h <;> rfl

section
variable {engine : SqlEngine} {text text' : Option String}

theorem not_sqlExprToDfExpr_takes (e : SqlExpr) :
    ¬ Takes (sqlExprToDfExpr engine) e ↔ SqlExpr.Occurs SqlExpr.Foreign e := by
  rw [sqlExprToDfExpr_takes, not_not]

theorem not_sqlAstToDfExpr_takes (e : SqlExpr) : ¬ Takes (sqlAstToDfExpr engine) e ↔
    SqlExpr.Occurs SqlExpr.Foreign e ∨ SqlExpr.Occurs SqlExpr.RuleOnly e := by
  rw [sqlAstToDfExpr_takes, not_and_or, not_not, not_not]

/-- One predicate of two texts. -/
theorem enforcementOf_alike {expr : Expr}
    (h : enforcementOf engine (sqlExprToDfExpr engine) text = .predicate expr)
    (h' : enforcementOf engine (sqlAstToDfExpr engine) text' = .predicate expr) :
    TextsAgree engine text (.ok text') := by
  obtain ⟨exprStr, e, htext, hne, hselection, htranslate⟩ := enforcementOf_eq_predicate.1 h
  obtain ⟨exprStr', e', rfl, hne', hselection', htranslate'⟩ := enforcementOf_eq_predicate.1 h'
  obtain ⟨htakes, halike⟩ := translate_eq_iff.1 ⟨expr, htranslate, htranslate'⟩
  obtain ⟨hforeign, hruleOnly⟩ := (sqlAstToDfExpr_takes e').1 htakes
  exact .alike htext hne hne' hselection hselection' hforeign hruleOnly halike

theorem enforcementOf_eq_iff :
    enforcementOf engine (sqlExprToDfExpr engine) text =
        enforcementOf engine (sqlAstToDfExpr engine) text' ↔
      TextsAgree engine text (.ok text') := by
  rw [Enforcement.eq_iff]
  constructor
  · intro h
    obtain ⟨h, h'⟩ | ⟨h, h'⟩ | ⟨expr, h, h'⟩ := h
    · exact .noFilter (enforcementOf_eq_nothing.1 h) (enforcementOf_eq_nothing.1 h')
    · obtain ⟨exprStr, htext, hne, hnone⟩ := enforcementOf_eq_rejected.1 h
      obtain ⟨exprStr', rfl, hne', hnone'⟩ := enforcementOf_eq_rejected.1 h'
      exact .untranslatable htext hne
        (fun e he => (not_sqlExprToDfExpr_takes e).1 (hnone e he)) hne'
        (fun e he => (not_sqlAstToDfExpr_takes e).1 (hnone' e he))
    · exact enforcementOf_alike h h'
  · intro h
    cases h with
    | noFilter h h' =>
      exact .inl ⟨enforcementOf_eq_nothing.2 h, enforcementOf_eq_nothing.2 h'⟩
    | alike htext hne hne' hselection hselection' hforeign hruleOnly halike =>
      obtain ⟨expr, htranslate, htranslate'⟩ :=
        translate_eq_iff.2 ⟨(sqlAstToDfExpr_takes _).2 ⟨hforeign, hruleOnly⟩, halike⟩
      exact .inr (.inr ⟨expr,
        enforcementOf_eq_predicate.2 ⟨_, _, htext, hne, hselection, htranslate⟩,
        enforcementOf_eq_predicate.2 ⟨_, _, rfl, hne', hselection', htranslate'⟩⟩)
    | untranslatable htext hne hnone hne' hnone' =>
      exact .inr (.inl ⟨
        enforcementOf_eq_rejected.2 ⟨_, htext, hne,
          fun e he => (not_sqlExprToDfExpr_takes e).2 (hnone e he)⟩,
        enforcementOf_eq_rejected.2 ⟨_, rfl, hne',
          fun e he => (not_sqlAstToDfExpr_takes e).2 (hnone' e he)⟩⟩)

theorem enforcementOf_eq_rejected_iff {error : PhysicalError} :
    enforcementOf engine (sqlExprToDfExpr engine) text = .rejected ↔
      TextsAgree engine text (.error error) := by
  rw [enforcementOf_eq_rejected]
  constructor
  · intro ⟨exprStr, htext, hne, hnone⟩
    exact .unreadable htext hne fun e he => (not_sqlExprToDfExpr_takes e).1 (hnone e he)
  · intro h
    cases h with
    | unreadable htext hne hnone =>
      exact ⟨_, htext, hne, fun e he => (not_sqlExprToDfExpr_takes e).2 (hnone e he)⟩

end

section
variable (serde : SerdeJson) (engine : SqlEngine) (planner : Planner)
  (bundle : ContractBundleHandle) (principal : Logical.Principal)

/-- **The rule and the operator enforce one predicate exactly where the texts they find agree**,
and they take a tree alike exactly when it has a node that neither knows or none that only the
rule knows. -/
theorem enforces_alike_iff :
    (ruleEnforces ⟨serde, engine, planner, bundle, principal⟩ =
        execEnforces serde engine bundle ↔
      TextsAgree engine (ruleText ⟨serde, engine, planner, bundle, principal⟩)
        (RowFilterExec.parseRowFilter serde bundle)) ∧
    ∀ tree, (Takes (sqlExprToDfExpr engine) tree ↔ Takes (sqlAstToDfExpr engine) tree) ↔
      SqlExpr.Occurs SqlExpr.Foreign tree ∨ ¬ SqlExpr.Occurs SqlExpr.RuleOnly tree := by
  refine ⟨?_, takes_alike_iff⟩
  rw [ruleEnforces, execEnforces]
  cases RowFilterExec.parseRowFilter serde bundle with
  | error e => exact enforcementOf_eq_rejected_iff
  | ok text' => exact enforcementOf_eq_iff

end

/-- An engine whose parser knows one text. -/
def notActiveEngine : SqlEngine where
  parseSql := fun text =>
    if text = "SELECT 1 WHERE NOT active" then
      .ok [.query (.select (some (.not (.identifier "active" none))))]
    else .error "another text"
  col := fun name => ⟨none, name⟩
  debug := fun _ => "UnaryOp"

def notActiveDocument : Json := .object [("row_filter", .string "NOT active")]

def notActiveSerde : SerdeJson := .just "filters" notActiveDocument (by decide)

def notActiveBundle : ContractBundleHandle := ⟨utf8 "filters", "c", "acme"⟩

/-- **The rule filters by `NOT active`; the operator fails on every batch.** -/
theorem enforces_unlike :
    ruleEnforces ⟨notActiveSerde, notActiveEngine, ⟨fun _ _ => none, fun _ _ => .ok [],
        fun _ => ""⟩, notActiveBundle, ⟨"p", "", "", ""⟩⟩ =
        .predicate (.not (.column ⟨none, "active"⟩)) ∧
      execEnforces notActiveSerde notActiveEngine notActiveBundle = .rejected := by
  have hselection : filterSelection notActiveEngine "NOT active" =
      .ok (.not (.identifier "active" none)) := rfl
  constructor
  · have hdocument : notActiveBundle.document notActiveSerde = some notActiveDocument :=
      ContractBundleHandle.document_just _ _ _ _ _
    refine enforcementOf_eq_predicate.2
      ⟨"NOT active", .not (.identifier "active" none), ?_, by decide, hselection, rfl⟩
    rw [ruleText, RowFilterRule.parseBundle, hdocument]
    rfl
  · have hread : Physical.bundleData "RowFilterExec" Physical.RowFilterBundleData.ofJson ⟨none⟩
        notActiveSerde notActiveBundle = .ok ⟨some "NOT active"⟩ :=
      Physical.bundleData_of_document (SerdeJson.just_fromSlice _ notActiveDocument _) rfl
    rw [execEnforces, RowFilterExec.parseRowFilter, hread]
    refine enforcementOf_eq_rejected.2 ⟨"NOT active", rfl, by decide, fun e he => ?_⟩
    rw [hselection] at he
    obtain rfl := Except.ok.inj he
    exact fun ⟨expr, hexpr⟩ => nomatch hexpr

end Griot.Agreement
