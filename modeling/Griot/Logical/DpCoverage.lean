import Griot.Logical.DpNoise

/-! Which aggregates the noise rule covers.

An aggregate is covered when each tagged column of its input that its
expressions refer to has a `LaplaceNoise` node directly above it. Coverage is
said of the plan that comes out; `rewrite_covered_iff` says what it takes of the
plan that goes in. -/
namespace Griot.Logical

open Lib Budget

section Coverage
variable (tagged : String → Bool)

/-- The tagged columns of its input that an aggregate refers to. -/
def referredColumns : LogicalPlan → List String
  | .aggregate _ aggrExpr input _ =>
    ((Expr.allColumns aggrExpr).map Column.name).filter fun c =>
      tagged c && input.schema.any fun f => f.field.name = c
  | _ => []

/-- The columns of the noise nodes directly above a place. -/
def noiseAbove : List LogicalPlan → List String
  | .laplaceNoise column _ _ _ :: above => column :: noiseAbove above
  | _ => []

def CoveredAt (plan : LogicalPlan) (site : Site) : Prop :=
  ∀ o ∈ plan.occurrencesAt site, ∀ c ∈ referredColumns tagged o.2, c ∈ noiseAbove o.1.above

/-- **Coverage**: every aggregate of the plan, wherever it stands, has its noise. -/
def Covered (plan : LogicalPlan) : Prop := CoveredAt tagged plan .root

/-- The tagged columns the rule finds in a node it may wrap. -/
def namedColumns : LogicalPlan → List String
  | .aggregate _ aggrExpr input _ =>
    if input.subtreeHasApprovalMarker then (collectAggColumns aggrExpr).filter tagged else []
  | _ => []

/-- The walk comes by: no subquery expression and no aggregate that is wrapped lies above. -/
def Visited (site : Site) : Prop :=
  site.nested = false ∧ ∀ node ∈ site.above, namedColumns tagged node = []

def ReachedAt (plan : LogicalPlan) (site : Site) : Prop :=
  ∀ o ∈ plan.occurrencesAt site, ∀ c ∈ referredColumns tagged o.2,
    c ∈ noiseAbove o.1.above ∨ Visited tagged o.1 ∧ c ∈ namedColumns tagged o.2

/-- Every tagged column an aggregate refers to has its noise already, or the walk
comes by and finds it named. -/
def Reachable (plan : LogicalPlan) : Prop := ReachedAt tagged plan .root

variable {tagged}

/-! ### Node by node -/

theorem noiseAbove_cons (plan : LogicalPlan) {above above' : List LogicalPlan}
    (h : noiseAbove above' = noiseAbove above) :
    noiseAbove (plan :: above') = noiseAbove (plan :: above) := by
  cases plan <;> simp [noiseAbove, h]

/-- Other inputs make no other noise. -/
theorem noiseAbove_withInputs (plan : LogicalPlan) (kids : List LogicalPlan)
    {above above' : List LogicalPlan} (h : noiseAbove above' = noiseAbove above) :
    noiseAbove (plan.withInputs kids :: above') = noiseAbove (plan :: above) := by
  unfold LogicalPlan.withInputs
  split
  case h_7 => exact noiseAbove_cons _ h
  all_goals simp [noiseAbove, h]

theorem coveredAt_iff (plan : LogicalPlan) (site : Site) :
    CoveredAt tagged plan site ↔ (∀ c ∈ referredColumns tagged plan, c ∈ noiseAbove site.above) ∧
      (∀ o ∈ plan.exprs.flatMap Expr.occurrences, ∀ c ∈ referredColumns tagged o.2,
        c ∈ noiseAbove o.1.above) ∧
      ∀ q ∈ plan.inputs, CoveredAt tagged q (site.under plan) := by
  unfold CoveredAt
  rw [LogicalPlan.occurrencesAt_eq]
  simp only [List.forall_mem_cons, List.forall_mem_append, List.forall_mem_flatMap]

theorem reachedAt_iff (plan : LogicalPlan) (site : Site) :
    ReachedAt tagged plan site ↔ (∀ c ∈ referredColumns tagged plan, c ∈ noiseAbove site.above ∨
        Visited tagged site ∧ c ∈ namedColumns tagged plan) ∧
      (∀ o ∈ plan.exprs.flatMap Expr.occurrences, ∀ c ∈ referredColumns tagged o.2,
        c ∈ noiseAbove o.1.above) ∧
      ∀ q ∈ plan.inputs, ReachedAt tagged q (site.under plan) := by
  have hexprs : (∀ o ∈ plan.exprs.flatMap Expr.occurrences, ∀ c ∈ referredColumns tagged o.2,
      c ∈ noiseAbove o.1.above ∨ Visited tagged o.1 ∧ c ∈ namedColumns tagged o.2) ↔
      ∀ o ∈ plan.exprs.flatMap Expr.occurrences, ∀ c ∈ referredColumns tagged o.2,
        c ∈ noiseAbove o.1.above := by
    refine forall₂_congr fun o ho => forall₂_congr fun c _ => ?_
    simp [Visited, plan.nested_exprs o ho]
  unfold ReachedAt
  rw [LogicalPlan.occurrencesAt_eq]
  simp only [List.forall_mem_cons, List.forall_mem_append, hexprs]
  simp only [List.forall_mem_flatMap]

/-- Where the walk does not come by, coverage is what the plan has of itself. -/
theorem coveredAt_of_unvisited (plan : LogicalPlan) : ∀ site place : Site,
    ¬Visited tagged place → noiseAbove site.above = noiseAbove place.above →
      (CoveredAt tagged plan site ↔ ReachedAt tagged plan place) := by
  induction plan using LogicalPlan.inputs_induction with
  | step plan ih =>
    intro site place hplace hnoise
    rw [coveredAt_iff, reachedAt_iff]
    refine and_congr (by simp [hplace, hnoise]) (and_congr_right fun _ => ?_)
    refine forall₂_congr fun q hq => ih q hq _ _ ?_ ?_
    · intro ⟨hnested, habove⟩
      exact hplace ⟨hnested, fun node hnode => habove node (List.mem_cons_of_mem _ hnode)⟩
    · exact noiseAbove_cons plan hnoise

end Coverage

/-- The columns a bundle tags. -/
def DPBundleData.tags (data : DPBundleData) (c : String) : Bool := (data.dpColumns.lookup c).isSome

/-- What a debit for a column is. -/
def DPBundleData.price (data : DPBundleData) (c : String) : F64 :=
  ((data.dpColumns.lookup c).map DPColumnConfig.epsilonPerQuery).getD (.fin 0)

/-! ### What the rule does to a node -/

/-- Noise nodes around a node: it stands below their columns, and they refer to none. -/
theorem coveredAt_wrap (r : F64.Rounding) (tagged : String → Bool) (schema : DFSchema)
    (found : List (String × F64)) :
    ∀ (node : LogicalPlan) (site : Site),
      ∃ above, (∀ c, c ∈ noiseAbove above ↔
          c ∈ found.map Prod.fst ∨ c ∈ noiseAbove site.above) ∧
        (CoveredAt tagged (DPNoiseRule.wrap r node schema found) site ↔
          CoveredAt tagged node {site with above}) := by
  induction found with
  | nil => exact fun node site => ⟨site.above, by simp, Iff.rfl⟩
  | cons f found ih =>
    intro node site
    obtain ⟨above, hnoise, hcovered⟩ :=
      ih (.laplaceNoise f.1 (formatFixed6 (r.div (.fin 1) f.2)) node schema) site
    refine ⟨.laplaceNoise f.1 (formatFixed6 (r.div (.fin 1) f.2)) node schema :: above,
      fun c => ?_, ?_⟩
    · simp only [noiseAbove, List.mem_cons, hnoise, List.map_cons, or_assoc]
    · rw [DPNoiseRule.wrap, hcovered, coveredAt_iff]
      simp [referredColumns, LogicalPlan.exprs, LogicalPlan.inputs, Site.under]

namespace DPNoiseRule

/-- The debits granted are those for the tagged columns, in order, at their prices. -/
theorem consumeAll_ok (rule : DPNoiseRule) (data : DPBundleData) (cs : List String) :
    ∀ {t t' : PrivacyBudgetTracker} {found : List (String × F64)},
      rule.consumeAll data cs t = (t', .ok found) →
        found = (cs.filter data.tags).map fun c => (c, data.price c) := by
  induction cs with
  | nil =>
    intro t t' found h
    simp only [consumeAll, Prod.mk.injEq, Except.ok.injEq] at h
    simp [← h.2]
  | cons c cs ih =>
    intro t t' found h
    rw [consumeAll] at h
    cases hc : data.dpColumns.lookup c with
    | none =>
      simp only [hc] at h
      rw [ih h, List.filter_cons_of_neg (by simp [DPBundleData.tags, hc])]
    | some config =>
      simp only [hc] at h
      rcases hconsume : t.consume rule.rounding rule.tenantId c config.epsilonPerQuery with ⟨_ | _, t₁⟩
      · simp [hconsume] at h
      · simp only [hconsume] at h
        cases hrest : rule.consumeAll data cs t₁ with
        | mk t₂ rest =>
          cases rest with
          | error c' => simp [hrest, Except.map] at h
          | ok rest =>
            obtain ⟨-, rfl⟩ : t₂ = t' ∧ (c, config.epsilonPerQuery) :: rest = found := by
              simpa [hrest, Except.map] using h
            rw [ih hrest, List.filter_cons_of_pos (by simp [DPBundleData.tags, hc]), List.map_cons]
            simp [DPBundleData.price, hc]

/-- What a visit does: nothing to the node unless it pays for every naming of a
tagged column, and then it wraps it in their noise. -/
theorem visit_cases (rule : DPNoiseRule) (data : DPBundleData) (node : LogicalPlan) (s : NoiseState)
    {v : Visit} {s' : NoiseState} (h : rule.visit data node s = (.ok v, s')) :
    (s'.pendingError.isSome ∧ v = .descend node) ∨
    (s.pendingError = none ∧ s'.pendingError = none ∧ v = .descend node ∧
      namedColumns data.tags node = []) ∨
    ∃ found, s.pendingError = none ∧ s'.pendingError = none ∧
      v = .jump (wrap rule.rounding node node.schema found) ∧
      found = (namedColumns data.tags node).map (fun c => (c, data.price c)) ∧ found ≠ [] := by
  unfold visit at h
  cases hpending : s.pendingError with
  | some e =>
    simp only [hpending, Option.isSome_some, if_true, Prod.mk.injEq, Except.ok.injEq] at h
    exact .inl ⟨by simp [← h.2, hpending], h.1.symm⟩
  | none =>
    simp only [hpending, Option.isSome_none, Bool.false_eq_true, if_false] at h
    cases node with
    | aggregate groupExpr aggrExpr input schema =>
      simp only at h
      cases hmarker : input.subtreeHasApprovalMarker with
      | false =>
        simp only [hmarker, Bool.not_false, if_true, Prod.mk.injEq, Except.ok.injEq] at h
        exact .inr (.inl ⟨rfl, by rw [← h.2, hpending], h.1.symm, by simp [namedColumns, hmarker]⟩)
      | true =>
        simp only [hmarker, Bool.not_true, Bool.false_eq_true, if_false] at h
        have hnamed : namedColumns data.tags (.aggregate groupExpr aggrExpr input schema) =
            (collectAggColumns aggrExpr).filter data.tags := by
          simp [namedColumns, hmarker]
        cases hconsume : rule.consumeAll data (collectAggColumns aggrExpr) s.budget with
        | mk budget result =>
          cases result with
          | error c =>
            simp only [hconsume, Prod.mk.injEq, Except.ok.injEq] at h
            exact .inl ⟨by simp [← h.2], h.1.symm⟩
          | ok found =>
            have hfound := rule.consumeAll_ok data _ hconsume
            cases found with
            | nil =>
              simp only [hconsume, Prod.mk.injEq, Except.ok.injEq] at h
              exact .inr (.inl ⟨rfl, by simp [← h.2], h.1.symm,
                by rw [hnamed]; exact List.map_eq_nil_iff.mp hfound.symm⟩)
            | cons f fs =>
              simp only [hconsume, Prod.mk.injEq, Except.ok.injEq] at h
              exact .inr (.inr ⟨f :: fs, rfl, by simp [← h.2], h.1.symm,
                by rw [hnamed, hfound], by simp⟩)
    | _ =>
      simp only [Prod.mk.injEq, Except.ok.injEq] at h
      exact .inr (.inl ⟨rfl, by rw [← h.2, hpending], h.1.symm, rfl⟩)

/-! ### One walk -/

theorem schema_wrap (r : F64.Rounding) (schema : DFSchema) (found : List (String × F64)) :
    ∀ node : LogicalPlan, node.schema = schema → (wrap r node schema found).schema = schema := by
  induction found with
  | nil => exact fun _ h => h
  | cons f found ih => exact fun _ _ => ih _ rfl

/-- What walking a subtree without a refused debit does to it: the schema stays, and
where the walk comes by, coverage of what comes out is reachability of what goes in. -/
structure Noised (data : DPBundleData) (plan : LogicalPlan) (s : NoiseState) (plan' : LogicalPlan)
    (s' : NoiseState) : Prop where
  pending : s'.pendingError = none → s.pendingError = none
  schema_eq : plan'.schema = plan.schema
  covered : s'.pendingError = none → ∀ site place : Site, Visited data.tags place →
    noiseAbove site.above = noiseAbove place.above →
      (CoveredAt data.tags plan' site ↔ ReachedAt data.tags plan place)

theorem walked_pending {data : DPBundleData} {ps ps' : List LogicalPlan} {s s' : NoiseState}
    (h : Walked (Noised data) ps s ps' s') (hs : s'.pendingError = none) :
    s.pendingError = none := by
  induction h with
  | nil s => exact hs
  | cons hp _ ih => exact hp.pending (ih hs)

theorem walked_schema {data : DPBundleData} {ps ps' : List LogicalPlan} {s s' : NoiseState}
    (h : Walked (Noised data) ps s ps' s') :
    ps'.map LogicalPlan.schema = ps.map LogicalPlan.schema := by
  induction h with
  | nil s => rfl
  | cons hp _ ih => rw [List.map_cons, List.map_cons, hp.schema_eq, ih]

theorem walked_covered {data : DPBundleData} {ps ps' : List LogicalPlan} {s s' : NoiseState}
    (h : Walked (Noised data) ps s ps' s') (hs : s'.pendingError = none) {site place : Site}
    (hplace : Visited data.tags place) (hnoise : noiseAbove site.above = noiseAbove place.above) :
    (∀ q ∈ ps', CoveredAt data.tags q site) ↔ ∀ q ∈ ps, ReachedAt data.tags q place := by
  induction h with
  | nil s => simp
  | cons hp hrest ih =>
    rw [List.forall_mem_cons, List.forall_mem_cons, ih hs,
      hp.covered (walked_pending hrest hs) site place hplace hnoise]

/-- An aggregate refers to the same columns over inputs of the same schema. -/
theorem referredColumns_withInputs (tagged : String → Bool) (plan : LogicalPlan)
    {kids : List LogicalPlan} (h : kids.map LogicalPlan.schema = plan.inputs.map LogicalPlan.schema) :
    referredColumns tagged (plan.withInputs kids) = referredColumns tagged plan ∧
      (plan.withInputs kids).schema = plan.schema := by
  unfold LogicalPlan.withInputs
  split
  case h_6 =>
    refine ⟨rfl, ?_⟩
    rw [LogicalPlan.schema, LogicalPlan.schema, LogicalPlan.firstSchema_congr h]
    rfl
  all_goals simp_all [referredColumns, LogicalPlan.schema, LogicalPlan.inputs]

theorem noised_descend (data : DPBundleData) (plan : LogicalPlan)
    (hnamed : namedColumns data.tags plan = []) (s : NoiseState) (kids : List LogicalPlan)
    (s' : NoiseState) (h : Walked (Noised data) plan.inputs s kids s') :
    Noised data plan s (plan.withInputs kids) s' := by
  obtain ⟨hreferred, hschema⟩ := referredColumns_withInputs data.tags plan (walked_schema h)
  refine ⟨walked_pending h, hschema, fun hs site place hplace hnoise => ?_⟩
  have hunder : Visited data.tags (place.under plan) :=
    ⟨hplace.1, List.forall_mem_cons.mpr ⟨hnamed, hplace.2⟩⟩
  rw [coveredAt_iff, reachedAt_iff, hreferred, LogicalPlan.exprs_withInputs,
    plan.inputs_withInputs h.length_eq,
    walked_covered h hs hunder (noiseAbove_withInputs plan kids hnoise), hnoise]
  simp [hnamed]

theorem noised_jump (r : F64.Rounding) (data : DPBundleData) (plan : LogicalPlan)
    (found : List (String × F64)) (hfound : found.map Prod.fst = namedColumns data.tags plan) (hne : found ≠ [])
    (s s' : NoiseState) (hs : s.pendingError = none) :
    Noised data plan s (wrap r plan plan.schema found) s' := by
  refine ⟨fun _ => hs, schema_wrap r _ found plan rfl, fun _ site place hplace hnoise => ?_⟩
  obtain ⟨above, habove, hcovered⟩ := coveredAt_wrap r data.tags plan.schema found plan site
  have hnamed : namedColumns data.tags plan ≠ [] := by
    rw [← hfound]
    simpa using hne
  -- The rule wraps aggregates only, so no noise is above the inputs.
  have hnone : ∀ above : List LogicalPlan, noiseAbove (plan :: above) = [] := by
    intro above
    cases plan with
    | laplaceNoise => exact absurd rfl hnamed
    | _ => rfl
  have hinputs : ∀ q ∈ plan.inputs,
      (CoveredAt data.tags q (Site.under {site with above} plan) ↔
        ReachedAt data.tags q (place.under plan)) := by
    intro q _
    refine coveredAt_of_unvisited q _ _ ?_ (by simp [hnone])
    intro ⟨_, hall⟩
    exact hnamed (hall plan (List.mem_cons_self ..))
  rw [hcovered, coveredAt_iff, reachedAt_iff]
  refine and_congr (forall₂_congr fun c _ => ?_)
    (and_congr_right fun _ => forall₂_congr hinputs)
  rw [habove, hfound, hnoise]
  simp only [hplace, true_and]
  exact or_comm

theorem noised_walk (rule : DPNoiseRule) (data : DPBundleData) (plan : LogicalPlan) (s : NoiseState)
    (plan' : LogicalPlan) (s' : NoiseState)
    (h : transformDown (rule.visit data) plan s = (.ok plan', s')) :
    Noised data plan s plan' s' := by
  refine transformDown_induct (R := Noised data) ?_ ?_ plan s plan' s' h
  · intro plan s node s' hv
    obtain ⟨-, hjump⟩ | ⟨-, -, hjump, -⟩ | ⟨found, hs, -, hjump, hfound, hne⟩ :=
      rule.visit_cases data plan s hv
    · exact absurd hjump (by simp)
    · exact absurd hjump (by simp)
    · obtain rfl := Visit.jump.inj hjump
      exact noised_jump rule.rounding data plan found (by simp [hfound, Function.comp_def]) hne s s' hs
  · intro plan s node s₁ kids s₂ hv hwalked
    obtain ⟨hpending, hnode⟩ | ⟨hs, -, hnode, hnamed⟩ | ⟨found, -, -, hnode, -⟩ :=
      rule.visit_cases data plan s hv
    · -- A debit was refused: the walk only goes on to report it.
      obtain rfl : node = plan := Visit.descend.inj hnode
      have hrefused : s₂.pendingError ≠ none := fun hs => by
        rw [walked_pending hwalked hs] at hpending
        exact absurd hpending (by simp)
      exact ⟨fun hs => absurd hs hrefused,
        (referredColumns_withInputs data.tags node (walked_schema hwalked)).2,
        fun hs => absurd hs hrefused⟩
    · obtain rfl : node = plan := Visit.descend.inj hnode
      have hwalk := noised_descend data node hnamed s₁ kids s₂ hwalked
      exact ⟨fun _ => hs, hwalk.schema_eq, hwalk.covered⟩
    · exact absurd hnode (by simp)

/-! ### Whole plans -/

theorem covered_of_untagged {tagged : String → Bool} (h : ∀ c, tagged c = false)
    (plan : LogicalPlan) : Covered tagged plan ∧ Reachable tagged plan := by
  have hnone : ∀ node, referredColumns tagged node = [] := by
    intro node
    cases node <;> simp [referredColumns, h]
  exact ⟨fun o _ c hc => by simp [hnone] at hc, fun o _ c hc => by simp [hnone] at hc⟩

/-- Noise covers what the walk reaches. -/
theorem addNoise_covered_iff {rule : DPNoiseRule} {data : DPBundleData} {plan : LogicalPlan}
    {s s' : NoiseState} {result : Transformed} (h : rule.addNoise data plan s = (.ok result, s')) :
    Covered data.tags result.data ↔ Reachable data.tags plan := by
  simp only [addNoise] at h
  cases hempty : data.dpColumns.isEmpty with
  | true =>
    simp only [hempty, if_true, Prod.mk.injEq, Except.ok.injEq] at h
    obtain ⟨rfl, rfl⟩ := h
    have hnone : ∀ c, data.tags c = false := fun c => by
      simp [DPBundleData.tags, Dict.isEmpty_iff.mp hempty c]
    exact iff_of_true (covered_of_untagged hnone _).1 (covered_of_untagged hnone _).2
  | false =>
    simp only [hempty, Bool.false_eq_true, if_false] at h
    split at h
    · simp at h
    · rename_i newPlan s₁ hwalk
      split at h
      · simp at h
      · rename_i hpending
        obtain ⟨rfl, rfl⟩ : ⟨newPlan, s₁.changed⟩ = result ∧ s₁ = s' := by simpa using h
        exact (rule.noised_walk data plan _ newPlan s₁ hwalk).covered hpending .root .root
          ⟨rfl, by simp [Site.root]⟩ rfl

/-- **When a rewrite that succeeds covers every aggregate**: exactly when each tagged
column of its input that an aggregate refers to is named where the collector looks, in
an aggregate above a marker, with no subquery expression and no wrapped aggregate above
it, or has its noise already. -/
theorem rewrite_covered_iff (rule : DPNoiseRule) (data : DPBundleData)
    (hdata : rule.parseBundle = some data) (plan : LogicalPlan) (s s' : NoiseState)
    (result : Transformed) (h : rule.rewrite plan s = (.ok result, s')) :
    Covered data.tags result.data ↔ Reachable data.tags plan := by
  rw [rewrite, hdata] at h
  exact addNoise_covered_iff h

/-! ### A negated column -/

/-- A contract that tags `salary`. -/
def payText : String :=
  "\x7b\"dp_columns\":\x7b\"salary\":\x7b\"epsilon_per_query\":1.0,\"noise_mechanism\":\"laplace\"\x7d\x7d\x7d"

def payDocument : Json :=
  .object [("dp_columns", .object [("salary",
    .object [("epsilon_per_query", .number 1), ("noise_mechanism", .string "laplace")])])]

def payBundle : ContractBundleHandle := ⟨utf8 payText, "pay-contract", "acme"⟩

def paySerde : SerdeJson := .just payText payDocument (by decide)

def payData : DPBundleData := ⟨.ofList [("salary", ⟨.fin 1, "laplace"⟩)]⟩

def payNoise : DPNoiseRule := ⟨paySerde, payBundle, "acme", .nearest⟩

def payCheck : ContractCheckRule :=
  ⟨paySerde, payBundle, "user:alice", "analytics", "gold", "internal"⟩

/-- `SELECT SUM(expr) FROM employees` -/
def payPlan (expr : Expr) : LogicalPlan :=
  .aggregate [] [.aggregateFunction "sum" [expr] false none []]
    (.tableScan "employees" [⟨some "employees", ⟨"salary", .float64, true⟩⟩] [])
    [⟨none, ⟨"sum", .float64, true⟩⟩]

theorem payNoise_parseBundle : payNoise.parseBundle = some payData := by
  rw [parseBundle, payNoise, paySerde, payBundle, ContractBundleHandle.document_just]
  show DPBundleData.ofJson payDocument = some payData
  have hnumber : (Json.number 1).asF64 = some (.fin 1) := by
    rw [Json.asF64, F64.round_one]
    rfl
  have hconfig : DPColumnConfig.ofJson (.object [("epsilon_per_query", .number 1),
      ("noise_mechanism", .string "laplace")]) = some ⟨.fin 1, "laplace"⟩ := by
    simp [DPColumnConfig.ofJson, Json.fits, Json.fieldOr, Json.field, Json.valuesOf, hnumber,
      Json.asString, guard]
  simp [DPBundleData.ofJson, payDocument, Json.fits, Json.fieldOr, Json.field, Json.valuesOf,
    Json.asMap, hconfig, guard, payData]

theorem payCheck_parseBundle : payCheck.parseBundle = some ⟨[], none, none⟩ := by
  rw [ContractCheckRule.parseBundle, payCheck, paySerde, payBundle,
    ContractBundleHandle.document_just]
  rfl

theorem payCheck_approves : payCheck.Approves := ⟨_, payCheck_parseBundle, rfl⟩

/-- The plan the contract check approves. -/
def payApproved (expr : Expr) : LogicalPlan :=
  .aggregate [] [.aggregateFunction "sum" [expr] false none []]
    (.contractApproved "pay-contract" "acme"
      (.tableScan "employees" [⟨some "employees", ⟨"salary", .float64, true⟩⟩] [])
      [⟨some "employees", ⟨"salary", .float64, true⟩⟩])
    [⟨none, ⟨"sum", .float64, true⟩⟩]

theorem payCheck_evaluateScan (scan : LogicalPlan) (tableName : String) :
    payCheck.evaluateScan scan tableName =
      (.contractApproved "pay-contract" "acme" scan scan.schema, some ⟨"pay-contract", "acme"⟩,
        payCheck.audit .contractCheckApproved tableName .satisfied) := by
  rw [ContractCheckRule.evaluateScan, payCheck_parseBundle]
  rfl

theorem payCheck_rewrite (expr : Expr) :
    payCheck.rewrite (payPlan expr) ⟨[], [], ∅, false⟩ = (.ok ⟨payApproved expr, true⟩,
      ⟨[payCheck.audit .contractCheckApproved "employees" .satisfied], [⟨"pay-contract", "acme"⟩],
        {"employees"}, true⟩) := by
  have hscan : ∀ s, transformDown payCheck.visit
      (.tableScan "employees" [⟨some "employees", ⟨"salary", .float64, true⟩⟩] []) s = _ := fun s => by
    rw [transformDown, Pass.bind_run, ContractCheckRule.visit_tableScan, payCheck_evaluateScan]
  rw [ContractCheckRule.rewrite, payPlan, transformDown, Pass.bind_run,
    ContractCheckRule.visit_of_not_scan _ rfl]
  simp only [Visit.resume, Pass.bind_run, hscan]
  rfl

def negatedSalary : Expr := .other "Negative" [.column ⟨none, "salary"⟩]

theorem payNoise_rewrite_negated :
    payNoise.rewrite (payApproved negatedSalary) ⟨.new, [], none, false⟩ =
      (.ok ⟨payApproved negatedSalary, false⟩, ⟨.new, [], none, false⟩) := by
  rw [rewrite, payNoise_parseBundle]
  rfl

theorem negated_sum_covered_iff :
    Covered payData.tags (payApproved negatedSalary) ↔
      Reachable payData.tags (payApproved negatedSalary) :=
  rewrite_covered_iff payNoise payData payNoise_parseBundle (payApproved negatedSalary) _ _ _
    payNoise_rewrite_negated

/-- `SELECT SUM(-salary) FROM employees` is approved and goes without noise. -/
theorem negated_sum_uncovered :
    ∃ checked s₁ result s₂, payNoise.parseBundle = some payData ∧ payCheck.Approves ∧
      payCheck.rewrite (payPlan negatedSalary) ⟨[], [], ∅, false⟩ = (.ok checked, s₁) ∧
      payNoise.rewrite checked.data ⟨.new, [], none, false⟩ = (.ok result, s₂) ∧
      ¬Covered payData.tags result.data := by
  refine ⟨_, _, _, _, payNoise_parseBundle, payCheck_approves, payCheck_rewrite negatedSalary,
    payNoise_rewrite_negated, ?_⟩
  intro hcovered
  have hnoise := hcovered (.root, payApproved negatedSalary) (List.mem_cons_self ..) "salary"
    (by decide)
  simp [noiseAbove, Site.root] at hnoise

end DPNoiseRule
end Griot.Logical
