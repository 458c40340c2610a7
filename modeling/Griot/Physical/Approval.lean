import Griot.Physical.Plan

/-! What the approval guard guarantees.

The enforcement operators take an input in which some approval marker is found, wherever it
is. On a chain of operators that puts every leaf below it. An operator with several inputs
can have the marker in one and none in another: exactly then the guard lets a leaf pass
that nothing approved (`accepted_iff`). -/
namespace Griot.Physical.ExecutionPlan

open Lib Budget

def children : ExecutionPlan → List ExecutionPlan
  | dataSource _ _ => []
  | contractApproved _ inner => [inner]
  | rowFilter _ inner => [inner]
  | masking _ inner => [inner]
  | laplaceNoise _ inner => [inner]
  | attestation _ inner => [inner]
  | projection _ inner => [inner]
  | globalLimit _ inner => [inner]
  | operator _ _ children => children

/-- `plan.name() == "ContractApprovedExec"` -/
def isContractApproved : ExecutionPlan → Bool
  | contractApproved _ _ => true
  | _ => false

theorem sizeOf_child {plan child : ExecutionPlan} (h : child ∈ plan.children) :
    sizeOf child < sizeOf plan := by
  cases plan with
  | dataSource => cases h
  | operator schemaOf run children =>
    have hlt := List.sizeOf_lt_of_mem (show child ∈ children from h)
    rw [operator.sizeOf_spec]
    omega
  | _ =>
    obtain rfl := List.mem_singleton.mp h
    simp

/-- Induction over the inputs of operators. -/
theorem byChildren {motive : ExecutionPlan → Prop}
    (h : ∀ plan, (∀ child ∈ plan.children, motive child) → motive plan) (plan : ExecutionPlan) :
    motive plan :=
  h plan fun child _ => byChildren h child
termination_by sizeOf plan
decreasing_by exact sizeOf_child ‹_›

theorem anyContractApproved_eq (plans : List ExecutionPlan) :
    anyContractApproved plans = plans.any hasContractApproved := by
  induction plans with
  | nil => rfl
  | cons plan plans ih => rw [anyContractApproved, ih, List.any_cons]

/-- The search, as the source states it. -/
theorem hasContractApproved_eq (plan : ExecutionPlan) :
    plan.hasContractApproved =
      (plan.isContractApproved || plan.children.any hasContractApproved) := by
  cases plan with
  | operator schemaOf run children =>
    rw [hasContractApproved, anyContractApproved_eq]
    rfl
  | _ => simp [hasContractApproved, isContractApproved, children]

/-! ### Markers and leaves -/

/-- There is a marker somewhere. -/
inductive Marked : ExecutionPlan → Prop
  | here {plan : ExecutionPlan} : plan.isContractApproved = true → Marked plan
  | under {plan child : ExecutionPlan} : child ∈ plan.children → Marked child → Marked plan

/-- There is a leaf that is below no marker. -/
inductive UnapprovedLeaf : ExecutionPlan → Prop
  | here {plan : ExecutionPlan} : plan.isContractApproved = false → plan.children = [] →
    UnapprovedLeaf plan
  | under {plan child : ExecutionPlan} : plan.isContractApproved = false →
    child ∈ plan.children → UnapprovedLeaf child → UnapprovedLeaf plan

/-- Somewhere below no marker, one input of an operator has a marker and another has none. -/
inductive Mixed : ExecutionPlan → Prop
  | here {plan child other : ExecutionPlan} : plan.isContractApproved = false →
    child ∈ plan.children → Marked child → other ∈ plan.children → ¬ Marked other → Mixed plan
  | under {plan child : ExecutionPlan} : plan.isContractApproved = false →
    child ∈ plan.children → Mixed child → Mixed plan

/-- The search finds exactly the plans with a marker. -/
theorem hasContractApproved_iff (plan : ExecutionPlan) :
    plan.hasContractApproved = true ↔ Marked plan := by
  induction plan using byChildren with
  | h plan ih =>
    rw [hasContractApproved_eq, Bool.or_eq_true, List.any_eq_true]
    constructor
    · intro h
      obtain h | ⟨child, hchild, h⟩ := h
      · exact .here h
      · exact .under hchild ((ih child hchild).mp h)
    · intro h
      cases h with
      | here h => exact .inl h
      | under hchild h => exact .inr ⟨_, hchild, (ih _ hchild).mpr h⟩

/-- Without a marker no leaf is approved. -/
theorem unapprovedLeaf_of_not_marked {plan : ExecutionPlan} (h : ¬ Marked plan) :
    UnapprovedLeaf plan := by
  induction plan using byChildren with
  | h plan ih =>
    have hself : plan.isContractApproved = false := Bool.eq_false_iff.mpr fun htrue => h (.here htrue)
    cases hchildren : plan.children with
    | nil => exact .here hself hchildren
    | cons child rest =>
      have hchild : child ∈ plan.children := hchildren ▸ List.mem_cons_self
      exact .under hself hchild (ih child hchild fun hmarked => h (.under hchild hmarked))

/-- **In a plan with a marker, a leaf escapes exactly where the inputs of an operator
differ.** -/
theorem unapprovedLeaf_iff {plan : ExecutionPlan} (h : Marked plan) :
    UnapprovedLeaf plan ↔ Mixed plan := by
  constructor
  · intro hleaf
    induction hleaf with
    | here hself hchildren =>
      cases h with
      | here htrue => exact absurd htrue (by simp [hself])
      | under hchild _ => rw [hchildren] at hchild; cases hchild
    | @under plan child hself hchild hleaf ih =>
      by_cases hmarked : Marked child
      · exact .under hself hchild (ih hmarked)
      · cases h with
        | here htrue => exact absurd htrue (by simp [hself])
        | under hother hmarked' => exact .here hself hother hmarked' hchild hmarked
  · intro hmixed
    clear h
    induction hmixed with
    | here hself _ _ hother hnot => exact .under hself hother (unapprovedLeaf_of_not_marked hnot)
    | under hself hchild _ ih => exact .under hself hchild ih

/-! ### What the guard lets pass -/

/-- A constructor of an enforcement operator, or the exchange of its input, takes the plan. -/
inductive Accepted (serde : SerdeJson) (inner : ExecutionPlan) : Prop
  | rowFilter {bundle : ContractBundleHandle} {plan : ExecutionPlan} :
    newRowFilter serde bundle inner = .ok plan → Accepted serde inner
  | masking {bundle : ContractBundleHandle} {plan : ExecutionPlan} :
    newMasking serde bundle inner = .ok plan → Accepted serde inner
  | permissive {bundle : ContractBundleHandle} {tenantId : String} {plan : ExecutionPlan} :
    newPermissive serde bundle tenantId inner = .ok plan → Accepted serde inner
  | withBudget {bundle : ContractBundleHandle} {tenantId : String} {budget : PrivacyBudgetTracker}
      {plan : ExecutionPlan} :
    newWithBudget serde bundle tenantId budget inner = .ok plan → Accepted serde inner
  | rowFilterCopy {op : RowFilterExec} {old plan : ExecutionPlan} {rest : List ExecutionPlan} :
    (ExecutionPlan.rowFilter op old).withNewChildren (inner :: rest) = .ok plan →
      Accepted serde inner
  | maskingCopy {op : MaskingExec} {old plan : ExecutionPlan} {rest : List ExecutionPlan} :
    (ExecutionPlan.masking op old).withNewChildren (inner :: rest) = .ok plan →
      Accepted serde inner
  | laplaceNoiseCopy {op : LaplaceNoiseExec} {old plan : ExecutionPlan} {rest : List ExecutionPlan} :
    (ExecutionPlan.laplaceNoise op old).withNewChildren (inner :: rest) = .ok plan →
      Accepted serde inner

theorem hasContractApproved_of_require {operator : String} {inner : ExecutionPlan} {u : Unit}
    (h : requireApproved operator inner = .ok u) : inner.hasContractApproved = true := by
  rw [requireApproved] at h
  split at h
  · assumption
  · cases h

theorem hasContractApproved_of_child {operator missing : String} {inner child : ExecutionPlan}
    {rest : List ExecutionPlan} (h : approvedChild operator missing (inner :: rest) = .ok child) :
    inner.hasContractApproved = true := by
  obtain ⟨first, hfirst, h⟩ := bind_eq_ok.mp h
  obtain rfl := Except.ok.inj hfirst
  split at h
  · assumption
  · cases h

theorem Accepted.marked {serde : SerdeJson} {inner : ExecutionPlan} (h : Accepted serde inner) :
    Marked inner := by
  rw [← hasContractApproved_iff]
  cases h with
  | rowFilter h | masking h | permissive h | withBudget h =>
    obtain ⟨_, hrequire, -⟩ := bind_eq_ok.mp h
    exact hasContractApproved_of_require hrequire
  | rowFilterCopy h | maskingCopy h | laplaceNoiseCopy h =>
    obtain ⟨_, hchild, -⟩ := bind_eq_ok.mp h
    exact hasContractApproved_of_child hchild

/-- **The guard covers every leaf of what it lets pass exactly when no operator has a marker
in one input and none in another.** -/
theorem accepted_iff {serde : SerdeJson} {inner : ExecutionPlan} (h : Accepted serde inner) :
    ¬ UnapprovedLeaf inner ↔ ¬ Mixed inner :=
  not_congr (unapprovedLeaf_iff h.marked)

/-- An approved scan and a raw one, put together. -/
def halfApproved : ExecutionPlan :=
  .operator (fun schemas => schemas.headD []) List.flatten
    [.contractApproved ⟨[], "c", "acme"⟩ (.dataSource [] []), .dataSource [] []]

theorem accepted_iff_halfApproved :
    ¬ UnapprovedLeaf halfApproved ↔ ¬ Mixed halfApproved := by
  have haccepted : Accepted (.just "null" .null (by decide)) halfApproved :=
    @Accepted.rowFilter _ _ ⟨[], "c", "acme"⟩ _ rfl
  exact accepted_iff haccepted

/-- **A raw scan feeds a row filter.** -/
theorem unapproved_accepted :
    newRowFilter (.just "null" .null (by decide)) ⟨[], "c", "acme"⟩ halfApproved =
        .ok (.rowFilter ⟨⟨[], "c", "acme"⟩, none⟩ halfApproved) ∧
      UnapprovedLeaf halfApproved := by
  refine ⟨rfl, ?_⟩
  have hraw : UnapprovedLeaf (.dataSource [] []) := .here rfl rfl
  exact .under rfl (List.mem_cons_of_mem _ List.mem_cons_self) hraw

end Griot.Physical.ExecutionPlan
