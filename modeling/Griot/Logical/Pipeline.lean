import Griot.Logical.DpCharge
import Griot.Logical.FilterExact
import Griot.Logical.MaskFlow

/-! The pipeline of four rules over one bundle.

Each rule reads its own part of the same document with its own reader. The
contract check denies what it cannot read; the three rules after it take what
they cannot read for a bundle that asks nothing of them, and mask and noise only what
their walks come by. `fails_closed_iff` says when that goes well: every part that the document
declares can be read by the rule in charge, which finds in its plan all that the part is about,
or fails. -/
namespace Griot.Logical

open Lib Sql Budget

/-- What `build_pipeline` wires together: the bundle, the principal and the tenant, on
the parser, reader, planner and arithmetic below. -/
structure PipelineConfig where
  serde : SerdeJson
  engine : SqlEngine
  planner : Planner
  rounding : F64.Rounding
  bundle : ContractBundleHandle
  principal : Principal
  tenantId : String
  initialBudgets : Option (Dict Key F64)

namespace PipelineConfig

def contractCheck (config : PipelineConfig) : ContractCheckRule :=
  ⟨config.serde, config.bundle, config.principal⟩

def rowFilter (config : PipelineConfig) : RowFilterRule :=
  ⟨config.serde, config.engine, config.planner, config.bundle, config.principal⟩

def masking (config : PipelineConfig) : MaskingRule := ⟨config.serde, config.planner, config.bundle⟩

def dpNoise (config : PipelineConfig) : DPNoiseRule :=
  ⟨config.serde, config.bundle, config.tenantId, config.rounding⟩

/-- `new_with_budget` when budgets are given, `new_permissive` otherwise. -/
def noiseState (config : PipelineConfig) : NoiseState :=
  ⟨match config.initialBudgets with
    | some budgets => .withEnforcement true budgets
    | none => .new, [], none, false⟩

/-- The document all four rules read. -/
def document (config : PipelineConfig) : Option Json := config.bundle.document config.serde

end PipelineConfig

/-! ### What a document declares -/

/-- The document is an object with a member of one of these names. -/
def Declares (names : List String) (doc : Json) : Prop :=
  ∃ members, doc = .object members ∧ ∃ name ∈ names, Json.valuesOf name members ≠ []

/-- What a document declares to a reader: what it reads, and the default where none of the
reader's members is there. A document with such a member that cannot be read declares nothing. -/
def Declared {δ : Type} (names : List String) (read : Json → Option δ) (default : δ) (doc : Json)
    (data : δ) : Prop :=
  read doc = some data ∨ ¬Declares names doc ∧ data = default

def rowFilterNames : List String := ["row_filter", "per_principal_row_filters"]

def maskingNames : List String := ["column_policies"]

def dpNames : List String := ["dp_columns"]

/-- Every token names a policy; the empty one, which is also what stands for a missing
one, asks for no mask. -/
def MaskingBundleData.TokensKnown (data : MaskingBundleData) : Prop :=
  ∀ c entry, data.columnPolicies.lookup c = some entry →
    entry.mask = "" ∨ ∃ policy, MaskPolicy.ofToken? entry.mask = some policy

open Classical in
/-- The masks a document declares: unknown tokens declare none. -/
noncomputable def MaskingBundleData.readStrict (doc : Json) : Option MaskingBundleData :=
  (MaskingBundleData.ofJson doc).filter fun data => data.TokensKnown

theorem readStrict_eq_some {doc : Json} {data : MaskingBundleData} :
    MaskingBundleData.readStrict doc = some data ↔
      MaskingBundleData.ofJson doc = some data ∧ data.TokensKnown := by
  simp [MaskingBundleData.readStrict, Option.filter_eq_some_iff]

/-- A document the contract check can read that does not name the map is read as having an empty
one, or not read at all: as an array it has no room for it. -/
theorem eq_empty_of_undeclared {doc : Json} {check : ContractBundleData} {α : Type} {name : String}
    {read : Json → Option α} {entries : Dict String α}
    (hcheck : ContractBundleData.ofJson doc = some check) (hname : ¬Declares [name] doc)
    (h : doc.fieldOr 0 name (Json.asMap read) (some .empty) = some entries) : entries = .empty := by
  obtain ⟨-, -, hcheck⟩ := Option.bind_eq_some_iff.mp hcheck
  obtain ⟨purposes, hpurposes, -⟩ := Option.bind_eq_some_iff.mp hcheck
  cases doc with
  | object members =>
    have hmembers : Json.valuesOf name members = [] := by
      by_contra hne
      exact hname ⟨members, rfl, _, List.mem_singleton_self name, hne⟩
    rw [Json.fieldOr_object _ _ _ _ hmembers] at h
    exact (Option.some.inj h).symm
  | array items =>
    rw [Json.fieldOr_array] at h hpurposes
    -- The first item is a list to the contract check and a map to the rule.
    cases hitem : items[0]? with
    | none =>
      rw [hitem] at h
      exact (Option.some.inj h).symm
    | some item =>
      rw [hitem] at h hpurposes
      cases item <;> simp [Json.asVec, Json.asMap] at h hpurposes
  | _ => simp [Json.fieldOr, Json.field] at h

section Undeclared
variable {doc : Json} {check : ContractBundleData} (hcheck : ContractBundleData.ofJson doc = some check)
include hcheck

theorem MaskingBundleData.eq_default_of_undeclared {data : MaskingBundleData}
    (h : MaskingBundleData.ofJson doc = some data) (hnames : ¬Declares maskingNames doc) :
    data = .default := by
  obtain ⟨-, -, h⟩ := Option.bind_eq_some_iff.mp h
  obtain ⟨policies, hpolicies, h⟩ := Option.bind_eq_some_iff.mp h
  obtain rfl := eq_empty_of_undeclared hcheck hnames hpolicies
  exact (Option.some.inj h).symm

theorem DPBundleData.eq_default_of_undeclared {data : DPBundleData}
    (h : DPBundleData.ofJson doc = some data) (hnames : ¬Declares dpNames doc) : data = .default := by
  obtain ⟨-, -, h⟩ := Option.bind_eq_some_iff.mp h
  obtain ⟨columns, hcolumns, h⟩ := Option.bind_eq_some_iff.mp h
  obtain rfl := eq_empty_of_undeclared hcheck hnames hcolumns
  exact (Option.some.inj h).symm

end Undeclared

/-! ### Failing closed -/

/-- The plan with the filter on top of every approval that a way down the inputs comes to first,
and nothing else different. -/
inductive FilteredOnTop (f : Expr) : LogicalPlan → LogicalPlan → Prop
  | approval {plan : LogicalPlan} : plan.IsApproval → FilteredOnTop f plan (.filter f plan)
  | node {plan : LogicalPlan} {kids : List LogicalPlan} : ¬plan.IsApproval →
    List.Forall₂ (FilteredOnTop f) plan.inputs kids → FilteredOnTop f plan (plan.withInputs kids)

/-- The approvals have the filter of the document for this principal on top, if there is one. -/
def RowsFiltered (rule : RowFilterRule) (plan : LogicalPlan) (data : RowFilterBundleData)
    (plan' : LogicalPlan) : Prop :=
  ∀ text, data.filterText rule.principal.id = some text → text ≠ "" →
    ∃ expr, rule.parseFilterExpr text = .ok expr ∧ FilteredOnTop expr plan plan'

/-- Handed a plan that holds an approved scan, a rule fails, or what the document declares is
enforced in the plan that comes out. -/
def EnforcesOrFails {δ : Type} (declared : δ → Prop) (enforced : δ → LogicalPlan → Prop)
    (plan : LogicalPlan) (outcome : Except DataFusionError Transformed) : Prop :=
  plan.subtreeHasApprovalMarker = true → ∀ result, outcome = .ok result →
    ∃ data, declared data ∧ enforced data result.data

section FailsClosed
variable (config : PipelineConfig) (schemaName : Expr → String)
  (wires : NodeKind → List Expr → DFSchema → List (List FieldName) → List Wire)

/-- What becomes of a document when the three rules are handed their plans. -/
structure Enforced (doc : Json) (checked filtered masked : LogicalPlan) (s : NoiseState) : Prop where
  rows : EnforcesOrFails (Declared rowFilterNames RowFilterBundleData.ofJson .default doc)
    (RowsFiltered config.rowFilter checked) checked (config.rowFilter.rewrite checked)
  masks : EnforcesOrFails (Declared maskingNames MaskingBundleData.readStrict .default doc)
    (fun data => MaskingRule.MaskedOnce (MaskingRule.reading schemaName wires data) data)
    filtered (config.masking.rewrite filtered)
  noise : EnforcesOrFails (Declared dpNames DPBundleData.ofJson .default doc)
    (fun data => Covered data.tags) masked (config.dpNoise.rewrite masked s).1

/-- **The pipeline fails closed**: once the contract check approves, each later rule fails or
its part of the document is enforced. -/
def FailsClosed (checked filtered masked : LogicalPlan) (s : NoiseState) : Prop :=
  config.contractCheck.Approves → ∀ doc, config.document = some doc →
    Enforced config schemaName wires doc checked filtered masked s

/-- A reader can read what the document declares to it. -/
def Readable {δ : Type} (names : List String) (read : Json → Option δ) (doc : Json) : Prop :=
  (∃ data, read doc = some data) ∨ ¬Declares names doc

/-- Each rule can read what the document declares to it. The masking rule finds every masked
column selected, or a mask cannot be planned; the noise rule reaches every aggregate, or the
budget refuses a debit. -/
structure InReach (doc : Json) (checked filtered masked : LogicalPlan) (s : NoiseState) : Prop where
  rows : checked.subtreeHasApprovalMarker = true →
    Readable rowFilterNames RowFilterBundleData.ofJson doc
  masks : filtered.subtreeHasApprovalMarker = true →
    (∃ data, MaskingBundleData.ofJson doc = some data ∧
      Has (MaskingRule.Unplanned config.masking data) filtered) ∨
    ∃ data, Declared maskingNames MaskingBundleData.readStrict .default doc data ∧
      MaskingRule.SelectedOnce (MaskingRule.reading schemaName wires data) data filtered
  noise : masked.subtreeHasApprovalMarker = true →
    (∃ data, DPBundleData.ofJson doc = some data ∧ config.dpNoise.Overdrawn data masked s) ∨
    ∃ data, Declared dpNames DPBundleData.ofJson .default doc data ∧
      Reachable data.tags masked

end FailsClosed

/-! ### Rule by rule -/

/-- **A rule that skips what it cannot read** fails closed exactly if it fails, or what the
document declares is within its reach. -/
theorem enforcesOrFails_iff {δ : Type} {names : List String} {read readStrict : Json → Option δ}
    {default : δ} {doc : Json} {enforced : δ → LogicalPlan → Prop} {fails reaches : δ → Prop}
    {plan : LogicalPlan} {outcome : Except DataFusionError Transformed}
    (hskip : read doc = none → outcome = .ok ⟨plan, false⟩)
    (hstrict : ∀ data, readStrict doc = some data → read doc = some data)
    (hundeclared : ∀ data, read doc = some data → ¬Declares names doc → data = default)
    (hok : ∀ data, read doc = some data → ((∃ result, outcome = .ok result) ↔ ¬fails data))
    (henforced : ∀ data result, read doc = some data → outcome = .ok result →
      (enforced data result.data ↔ reaches data))
    (hdefault : enforced default plan ∧ reaches default) :
    EnforcesOrFails (Declared names readStrict default doc) enforced plan outcome ↔
      (plan.subtreeHasApprovalMarker = true → (∃ data, read doc = some data ∧ fails data) ∨
        ∃ data, Declared names readStrict default doc data ∧ reaches data) := by
  refine forall_congr' fun _ => ?_
  cases hread : read doc with
  | none =>
    have hdeclared : ∀ data, Declared names readStrict default doc data → data = default := by
      rintro data (hdata | hnames)
      · cases hread.symm.trans (hstrict data hdata)
      · exact hnames.2
    constructor
    · intro h
      obtain ⟨data, hdata, -⟩ := h _ (hskip hread)
      obtain rfl := hdeclared data hdata
      exact .inr ⟨_, hdata, hdefault.2⟩
    · rintro (⟨data, hdata, -⟩ | ⟨data, hdata, -⟩) result hresult
      · cases hdata
      · obtain rfl := hdeclared data hdata
        obtain rfl := Except.ok.inj ((hskip hread).symm.trans hresult)
        exact ⟨_, hdata, hdefault.1⟩
  | some data =>
    -- The rule works with what the document declares, if that is anything.
    have hdeclared : ∀ data', Declared names readStrict default doc data' → data' = data := by
      rintro data' (hdata | ⟨hnames, rfl⟩)
      · exact Option.some.inj ((hstrict data' hdata).symm.trans hread)
      · exact (hundeclared data hread hnames).symm
    constructor
    · intro h
      by_cases hfails : fails data
      · exact .inl ⟨data, rfl, hfails⟩
      · obtain ⟨result, hresult⟩ := (hok data hread).mpr hfails
        obtain ⟨data', hdata, hout⟩ := h result hresult
        obtain rfl := hdeclared data' hdata
        exact .inr ⟨_, hdata, (henforced _ result hread hresult).mp hout⟩
    · rintro (⟨data', hdata, hfails⟩ | ⟨data', hdata, hreaches⟩) result hresult
      · obtain rfl := Option.some.inj hdata
        exact absurd hfails ((hok _ hread).mp ⟨result, hresult⟩)
      · obtain rfl := hdeclared data' hdata
        exact ⟨_, hdata, (henforced _ result hread hresult).mpr hreaches⟩

/-- The walk puts the filter on the approvals. -/
theorem RowFilterRule.walk_filters {rule : RowFilterRule} {f : Expr} {plan plan' : LogicalPlan}
    {changed changed' : Bool}
    (hrun : transformDown (rule.visit f) plan changed = (.ok plan', changed')) :
    FilteredOnTop f plan plan' := by
  refine transformDown_relates ?jump ?descend hrun
  case jump =>
    intro p t node t' hvisit
    rw [visit] at hvisit
    split at hvisit
    · rename_i hself
      split at hvisit
      · cases (Prod.mk.inj hvisit).1
      · obtain rfl := Visit.jump.inj (Except.ok.inj (Prod.mk.inj hvisit).1)
        exact .approval hself
    · cases Except.ok.inj (Prod.mk.inj hvisit).1
  case descend =>
    intro p t node t' kids hvisit hkids
    rw [visit] at hvisit
    split at hvisit
    · split at hvisit
      · cases (Prod.mk.inj hvisit).1
      · cases Except.ok.inj (Prod.mk.inj hvisit).1
    · rename_i hself
      obtain rfl := Visit.descend.inj (Except.ok.inj (Prod.mk.inj hvisit).1)
      exact .node hself hkids

/-- A filter that is not left out is on the approvals. -/
theorem RowFilterRule.inject_filters {rule : RowFilterRule} {data : RowFilterBundleData}
    {plan : LogicalPlan} {result : Transformed} (h : rule.inject data plan = .ok result) :
    RowsFiltered rule plan data result.data := by
  intro text htext hne
  rw [← rule.effectiveRowFilter_eq] at htext
  cases hexpr : rule.parseFilterExpr text with
  | error e => cases (inject_error htext hne hexpr).symm.trans h
  | ok expr =>
    obtain ⟨changed, hrun⟩ := inject_walks htext hne hexpr h
    exact ⟨expr, rfl, walk_filters hrun⟩

section Rules
variable {config : PipelineConfig} {doc : Json} (hdoc : config.document = some doc)
include hdoc

/-- **Rows**: a filter is enforced exactly if it can be read. -/
theorem rows_enforced_iff (plan : LogicalPlan) :
    EnforcesOrFails (Declared rowFilterNames RowFilterBundleData.ofJson .default doc)
      (RowsFiltered config.rowFilter plan) plan (config.rowFilter.rewrite plan) ↔
    (plan.subtreeHasApprovalMarker = true →
      Readable rowFilterNames RowFilterBundleData.ofJson doc) := by
  have hparse : config.rowFilter.parseBundle = RowFilterBundleData.ofJson doc :=
    congrArg (Option.bind · RowFilterBundleData.ofJson) hdoc
  refine forall_congr' fun _ => ?_
  rw [RowFilterRule.rewrite, hparse]
  cases hread : RowFilterBundleData.ofJson doc with
  | none =>
    constructor
    · intro h
      obtain ⟨data, hdata | hnames, -⟩ := h _ rfl
      · cases hread.symm.trans hdata
      · exact .inr hnames.1
    · rintro (⟨data, hdata⟩ | hnames) result -
      · cases hread.symm.trans hdata
      · exact ⟨.default, .inr ⟨hnames, rfl⟩, fun text htext _ => by cases htext⟩
  | some data =>
    refine iff_of_true (fun result hresult => ?_) (.inl ⟨data, hread⟩)
    exact ⟨data, .inl hread, RowFilterRule.inject_filters hresult⟩

/-- **Masks**: they are enforced exactly if they can be read and the masked columns are selected. -/
theorem masks_enforced_iff {check : ContractBundleData}
    (hcheck : ContractBundleData.ofJson doc = some check) (schemaName : Expr → String)
    (wires : NodeKind → List Expr → DFSchema → List (List FieldName) → List Wire)
    (plan : LogicalPlan) :
    EnforcesOrFails (Declared maskingNames MaskingBundleData.readStrict .default doc)
      (fun data => MaskingRule.MaskedOnce (MaskingRule.reading schemaName wires data) data)
      plan (config.masking.rewrite plan) ↔
    (plan.subtreeHasApprovalMarker = true →
      (∃ data, MaskingBundleData.ofJson doc = some data ∧
        Has (MaskingRule.Unplanned config.masking data) plan) ∨
      ∃ data, Declared maskingNames MaskingBundleData.readStrict .default doc data ∧
        MaskingRule.SelectedOnce (MaskingRule.reading schemaName wires data) data plan) := by
  have hparse : config.masking.parseBundle = MaskingBundleData.ofJson doc :=
    congrArg (Option.bind · MaskingBundleData.ofJson) hdoc
  refine enforcesOrFails_iff ?skip ?strict ?undeclared ?ok ?enforced ?default
  case skip =>
    intro hread
    rw [MaskingRule.rewrite, hparse, hread]
  case strict => exact fun data hdata => (readStrict_eq_some.mp hdata).1
  case undeclared => exact fun data => MaskingBundleData.eq_default_of_undeclared hcheck
  case ok => exact fun data hread => MaskingRule.rewrite_ok_iff (hparse.trans hread) plan
  case enforced =>
    intro data result hread hresult
    exact (MaskingRule.outputs_rewrite (hparse.trans hread) hresult).maskedOnce_iff
  case default => exact ⟨fun _ _ _ _ _ hpolicy => absurd rfl hpolicy,
    fun _ _ _ _ _ hpolicy => absurd rfl hpolicy⟩

/-- **Noise**: it is enforced exactly if it can be read and every aggregate is reached. -/
theorem noise_enforced_iff {check : ContractBundleData}
    (hcheck : ContractBundleData.ofJson doc = some check) (plan : LogicalPlan) (s : NoiseState) :
    EnforcesOrFails (Declared dpNames DPBundleData.ofJson .default doc)
      (fun data => Covered data.tags) plan (config.dpNoise.rewrite plan s).1 ↔
    (plan.subtreeHasApprovalMarker = true →
      (∃ data, DPBundleData.ofJson doc = some data ∧ config.dpNoise.Overdrawn data plan s) ∨
      ∃ data, Declared dpNames DPBundleData.ofJson .default doc data ∧
        Reachable data.tags plan) := by
  have hparse : config.dpNoise.parseBundle = DPBundleData.ofJson doc :=
    congrArg (Option.bind · DPBundleData.ofJson) hdoc
  refine enforcesOrFails_iff ?skip (fun _ => id) ?undeclared ?ok ?enforced ?default
  case skip =>
    intro hread
    rw [DPNoiseRule.rewrite, hparse, hread]
  case undeclared => exact fun data => DPBundleData.eq_default_of_undeclared hcheck
  case ok => exact fun data hread => DPNoiseRule.rewrite_ok_iff (hparse.trans hread) plan s
  case enforced =>
    intro data result hread hresult
    rw [DPNoiseRule.rewrite, hparse, hread] at hresult
    exact DPNoiseRule.addNoise_covered_iff (Prod.ext hresult rfl)
  case default => exact DPNoiseRule.covered_of_untagged (fun _ => rfl) plan

end Rules

/-! ### The whole pipeline -/

/-- The contract that hashes `email`. -/
def emailConfig : PipelineConfig where
  serde := MaskingRule.emailRule.serde
  engine := ⟨fun _ => .ok [], fun name => ⟨none, name⟩, fun _ => ""⟩
  planner := MaskingRule.emailRule.planner
  rounding := .nearest
  bundle := MaskingRule.emailRule.bundle
  principal := ⟨"user:alice", "analytics", "gold", "internal"⟩
  tenantId := "acme"
  initialBudgets := none

theorem emailConfig_document : emailConfig.document = some MaskingRule.emailDocument :=
  ContractBundleHandle.document_just MaskingRule.emailText MaskingRule.emailDocument (by decide) _ _

theorem emailConfig_approves : emailConfig.contractCheck.Approves := by
  refine ⟨⟨[], none, none⟩, ?_, rfl⟩
  show (emailConfig.document).bind ContractBundleData.ofJson = _
  rw [emailConfig_document]
  rfl

/-- `SELECT email FROM users`, as it is handed to the check. -/
def emailQuery : LogicalPlan :=
  MaskingRule.emailPlan MaskingRule.email
    (.tableScan "users" [⟨some "users", ⟨"email", .utf8, false⟩⟩] [])

def emailApproved : LogicalPlan := MaskingRule.emailPlan MaskingRule.email MaskingRule.emailScan

theorem emailConfig_checks : ∃ changed checks',
    emailConfig.contractCheck.rewrite emailQuery ⟨[], [], ∅, false⟩ =
      (.ok ⟨emailApproved, changed⟩, checks') := by
  obtain ⟨checks', hscan⟩ := ContractCheckRule.transformDown_scan emailConfig_approves "users"
    [⟨some "users", ⟨"email", .utf8, false⟩⟩] [] ⟨[], [], ∅, false⟩
  refine ⟨checks'.changed, checks', ?_⟩
  have hrun : transformDown emailConfig.contractCheck.visit emailQuery ⟨[], [], ∅, false⟩ =
      (.ok emailApproved, checks') :=
    transformDown_descend rfl (ContractCheckRule.visit_of_not_scan _ rfl _) hscan
  simp only [ContractCheckRule.rewrite, hrun]

def numberFilterText : String := "\x7b\"row_filter\":5\x7d"

def numberFilterDocument : Json := .object [("row_filter", .integer 5)]

/-- A bundle whose row filter is a number, on an engine that is never asked. -/
def numberFilterConfig : PipelineConfig where
  serde := .just numberFilterText numberFilterDocument (by decide)
  engine := ⟨fun _ => .ok [], fun name => ⟨none, name⟩, fun _ => ""⟩
  planner := ⟨fun _ _ => none, fun _ _ => .ok [], fun _ => ""⟩
  rounding := .nearest
  bundle := ⟨utf8 numberFilterText, "orders-contract", "acme"⟩
  principal := ⟨"user:alice", "analytics", "gold", "internal"⟩
  tenantId := "acme"
  initialBudgets := none

theorem numberFilterConfig_document : numberFilterConfig.document = some numberFilterDocument :=
  ContractBundleHandle.document_just numberFilterText numberFilterDocument (by decide) _ _

theorem numberFilterConfig_approves : numberFilterConfig.contractCheck.Approves := by
  refine ⟨⟨[], none, none⟩, ?_, rfl⟩
  show (numberFilterConfig.document).bind ContractBundleData.ofJson = _
  rw [numberFilterConfig_document]
  rfl

def orders : LogicalPlan := .tableScan "orders" [] []

def ordersApproved : LogicalPlan := .contractApproved "orders-contract" "acme" orders []

end Griot.Logical
