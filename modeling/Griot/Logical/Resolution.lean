import Griot.Logical.Dataflow
import Griot.Logical.DpCoverage
import Griot.Logical.Insertion

/-! Plans that are well formed.

A node reads columns, and each has to be found among the fields its inputs show. The lookup
is the engine's, so it is a parameter here: it gets the fields of each input and the column. A
plan is resolved if every node of it is, those in the plans of subquery expressions included;
for what a walk makes of a plan it is enough to look at one node after the other
(`tracked_descend`). -/
namespace Griot.Logical

open Lib

/-! ### Shapes -/

/-- The name a field is found by. -/
def DFField.fieldName (f : DFField) : FieldName := ⟨f.qualifier, f.field.name⟩

/-- What a rule must leave of the fields: qualifiers, names and types. -/
abbrev Shape := List (FieldName × DataType)

def DFField.shape (f : DFField) : FieldName × DataType := (f.fieldName, f.field.dataType)

namespace LogicalPlan

/-- The fields a plan shows. -/
def shape (plan : LogicalPlan) : Shape := plan.schema.map DFField.shape

/-- The columns a node reads. -/
def reads (plan : LogicalPlan) : List Column := plan.exprs.flatMap Expr.columns

/-- The input whose fields the node shows, if it has none of its own. -/
def lender : LogicalPlan → Option LogicalPlan
  | filter _ input => some input
  | other kind _ (input :: _) _ => if kind.borrows then some input else none
  | _ => none

/-- The node whose fields the plan shows. -/
def shownBy : LogicalPlan → LogicalPlan
  | filter _ input => input.shownBy
  | other kind exprs inputs schema =>
    if kind.borrows then firstShown inputs (other kind exprs inputs schema)
    else other kind exprs inputs schema
  | plan => plan
where
  firstShown : List LogicalPlan → LogicalPlan → LogicalPlan
    | [], own => own
    | p :: _, _ => p.shownBy

theorem mem_of_lender {plan p : LogicalPlan} (h : plan.lender = some p) : p ∈ plan.inputs := by
  cases plan with
  | filter predicate input => exact List.mem_singleton.mpr (Option.some.inj h).symm
  | other kind exprs inputs schema =>
    cases inputs with
    | nil => cases h
    | cons input inputs =>
      obtain ⟨-, rfl⟩ : kind.borrows = true ∧ input = p := by simpa [lender] using h
      exact List.mem_cons_self
  | _ => cases h

theorem shape_of_lender {plan p : LogicalPlan} (h : plan.lender = some p) : plan.shape = p.shape := by
  cases plan with
  | filter predicate input => rw [← Option.some.inj h]; rfl
  | other kind exprs inputs schema =>
    cases inputs with
    | nil => cases h
    | cons input inputs =>
      obtain ⟨hborrows, rfl⟩ : kind.borrows = true ∧ input = p := by simpa [lender] using h
      rw [shape, LogicalPlan.schema, if_pos hborrows]
      rfl
  | _ => cases h

theorem shownBy_of_lender {plan p : LogicalPlan} (h : plan.lender = some p) :
    plan.shownBy = p.shownBy := by
  cases plan with
  | filter predicate input => rw [← Option.some.inj h]; rfl
  | other kind exprs inputs schema =>
    cases inputs with
    | nil => cases h
    | cons input inputs =>
      obtain ⟨hborrows, rfl⟩ : kind.borrows = true ∧ input = p := by simpa [lender] using h
      rw [shownBy, if_pos hborrows]
      rfl
  | _ => cases h

theorem shownBy_of_none {plan : LogicalPlan} (h : plan.lender = none) : plan.shownBy = plan := by
  cases plan with
  | filter predicate input => cases h
  | other kind exprs inputs schema =>
    cases inputs with
    | nil =>
      rw [shownBy]
      split <;> rfl
    | cons input inputs =>
      have hborrows : ¬ kind.borrows = true := by simpa [lender] using h
      rw [shownBy, if_neg hborrows]
  | _ => rfl

theorem within_shownBy (plan : LogicalPlan) : Within plan.shownBy plan := by
  induction plan using inputs_induction with
  | step plan ih =>
    cases hlender : plan.lender with
    | none =>
      rw [shownBy_of_none hlender]
      exact .root
    | some p =>
      rw [shownBy_of_lender hlender]
      exact .input (mem_of_lender hlender) (ih p (mem_of_lender hlender))

theorem shape_shownBy (plan : LogicalPlan) : plan.shownBy.shape = plan.shape := by
  induction plan using inputs_induction with
  | step plan ih =>
    cases hlender : plan.lender with
    | none => rw [shownBy_of_none hlender]
    | some p =>
      rw [shownBy_of_lender hlender, shape_of_lender hlender, ih p (mem_of_lender hlender)]

/-- Over other inputs a node shows its own fields, or those of what stands for its lender. -/
theorem lender_withInputs {R : LogicalPlan → LogicalPlan → Prop} {plan : LogicalPlan}
    {kids : List LogicalPlan} (h : List.Forall₂ R plan.inputs kids) :
    (plan.lender = none ∧ (plan.withInputs kids).shape = plan.shape) ∨
      ∃ p kid, plan.lender = some p ∧ R p kid ∧ (plan.withInputs kids).shape = kid.shape := by
  cases plan with
  | filter predicate input =>
    obtain ⟨kid, rfl, hkid⟩ := exists_of_forall₂_singleton h
    exact .inr ⟨input, kid, rfl, hkid, rfl⟩
  | other kind exprs inputs schema =>
    cases h with
    | nil => exact .inl ⟨rfl, rfl⟩
    | @cons input kid inputs kids hkid _ =>
      by_cases hborrows : kind.borrows = true
      · refine .inr ⟨input, kid, if_pos hborrows, hkid, ?_⟩
        rw [shape, withInputs, LogicalPlan.schema, if_pos hborrows]
        rfl
      · refine .inl ⟨if_neg hborrows, ?_⟩
        simp only [shape, withInputs, LogicalPlan.schema, if_neg hborrows]
  | tableScan | emptyRelation =>
    obtain rfl := List.forall₂_nil_left_iff.mp h
    exact .inl ⟨rfl, rfl⟩
  | _ =>
    obtain ⟨kid, rfl, -⟩ := exists_of_forall₂_singleton h
    exact .inl ⟨rfl, rfl⟩

end LogicalPlan

/-! ### Resolution -/

/-- The engine finds the column among the fields of the inputs. -/
abbrev Lookup := List (List FieldName) → Column → Prop

section Resolution
variable (lookup : Lookup)

/-- The columns are found among the fields that `shows` gives the inputs of the node. The filters
of a scan are the table's own matter. -/
def Finds (shows : LogicalPlan → Shape) (columns : List Column) (plan : LogicalPlan) : Prop :=
  plan.isTableScan = false →
    ∀ c ∈ columns, lookup (plan.inputs.map fun p => (shows p).map Prod.fst) c

/-- What the node reads is found. -/
def NodeResolved (plan : LogicalPlan) : Prop := Finds lookup LogicalPlan.shape plan.reads plan

/-- The plans inside the expression are resolved. -/
def ExprResolved (expr : Expr) : Prop := ∀ o ∈ expr.occurrences, NodeResolved lookup o.2

/-- Every node is resolved, also in the plans of subquery expressions. -/
def Resolved (plan : LogicalPlan) : Prop := ∀ o ∈ plan.occurrences, NodeResolved lookup o.2

end Resolution

/-- A node, the plans in its expressions, its inputs. -/
theorem resolved_iff {lookup : Lookup} {plan : LogicalPlan} :
    Resolved lookup plan ↔ NodeResolved lookup plan ∧ (∀ e ∈ plan.exprs, ExprResolved lookup e) ∧
      ∀ p ∈ plan.inputs, Resolved lookup p := by
  have hnodes (p : LogicalPlan) (site : Site) : Resolved lookup p ↔
      ∀ o ∈ p.occurrencesAt site, NodeResolved lookup o.2 := by
    have hmap (os : List (Site × LogicalPlan)) : (∀ o ∈ os, NodeResolved lookup o.2) ↔
        ∀ q ∈ os.map Prod.snd, NodeResolved lookup q := List.forall_mem_map.symm
    rw [Resolved, hmap, hmap, p.nodes_at site]
  rw [Resolved, LogicalPlan.occurrences, LogicalPlan.occurrencesAt_eq, List.forall_mem_cons,
    List.forall_mem_append, List.forall_mem_flatMap, List.forall_mem_flatMap]
  exact and_congr_right' (and_congr_right' (forall₂_congr fun p _ => (hnodes p _).symm))

/-! ### Walks -/

/-- The fields an expression is projected as, over inputs with a schema. -/
abbrev FieldOf := DFSchema → Expr → DFField

/-- Every column is found, and every projection has the fields its expressions give. -/
structure Valid (lookup : Lookup) (fieldOf : FieldOf) (plan : LogicalPlan) : Prop where
  resolved : Resolved lookup plan
  typed : ∀ expr input schema, Within (.projection expr input schema) plan →
    schema = expr.map (fieldOf input.schema)

theorem Valid.input {lookup : Lookup} {fieldOf : FieldOf} {plan p : LogicalPlan}
    (h : Valid lookup fieldOf plan) (hp : p ∈ plan.inputs) : Valid lookup fieldOf p :=
  ⟨(resolved_iff.mp h.resolved).2.2 p hp, fun expr input schema hwithin =>
    h.typed expr input schema (.input hp hwithin)⟩

/-- A node of the plan with none to stop at over it. -/
inductive Reached (stop : LogicalPlan → Prop) (q : LogicalPlan) : LogicalPlan → Prop
  | root : Reached stop q q
  | input {plan p : LogicalPlan} : ¬ stop plan → p ∈ plan.inputs → Reached stop q p →
    Reached stop q plan

theorem forall_reached {stop ok : LogicalPlan → Prop} {plan : LogicalPlan} :
    (∀ q, Reached stop q plan → ok q) ↔
      ok plan ∧ (¬ stop plan → ∀ p ∈ plan.inputs, ∀ q, Reached stop q p → ok q) := by
  constructor
  · intro h
    exact ⟨h plan .root, fun hstop p hp q hq => h q (.input hstop hp hq)⟩
  · intro h q hq
    cases hq with
    | root => exact h.1
    | input hstop hp hq => exact h.2 hstop _ hp q hq

/-- Where nothing is below a stop, all nodes are reached. -/
theorem reached_iff_within {stop : LogicalPlan → Prop} (hstop : ∀ q, stop q → q.inputs = [])
    {q plan : LogicalPlan} : Reached stop q plan ↔ Within q plan := by
  constructor
  · intro h
    induction h with
    | root => exact .root
    | input _ hp _ ih => exact .input hp ih
  · intro h
    induction h with
    | root => exact .root
    | input hp _ ih =>
      refine .input (fun hs => ?_) hp ih
      rw [hstop _ hs] at hp
      cases hp

/-- What is made of a valid plan shows the fields of `shows`, and is resolved exactly if the nodes
that were reached are `ok`. -/
structure Tracked (lookup : Lookup) (shows : LogicalPlan → Shape) (stop ok : LogicalPlan → Prop)
    (plan plan' : LogicalPlan) : Prop where
  shape : plan'.shape = shows plan
  resolved : Resolved lookup plan' ↔ ∀ q, Reached stop q plan → ok q

section Tracked
variable {lookup : Lookup} {fieldOf : FieldOf} {shows : LogicalPlan → Shape}
  {stop ok : LogicalPlan → Prop}

/-- Inputs that were walked show the fields of `shows`. -/
theorem names_of_tracked {ps kids : List LogicalPlan}
    (h : List.Forall₂ (Tracked lookup shows stop ok) ps kids) :
    (kids.map fun p => p.shape.map Prod.fst) = ps.map fun p => (shows p).map Prod.fst := by
  induction h with
  | nil => rfl
  | cons hhead _ ih => exact congrArg₂ List.cons (congrArg (List.map Prod.fst) hhead.shape) ih

theorem resolved_of_tracked {ps kids : List LogicalPlan}
    (h : List.Forall₂ (Tracked lookup shows stop ok) ps kids) :
    (∀ p ∈ kids, Resolved lookup p) ↔ ∀ p ∈ ps, ∀ q, Reached stop q p → ok q := by
  induction h with
  | nil => simp
  | cons hhead _ ih => rw [List.forall_mem_cons, List.forall_mem_cons, hhead.resolved, ih]

theorem tracked_inputs {plan : LogicalPlan} {kids : List LogicalPlan}
    (hvalid : Valid lookup fieldOf plan)
    (h : List.Forall₂ (fun p p' => Valid lookup fieldOf p → Tracked lookup shows stop ok p p')
      plan.inputs kids) : List.Forall₂ (Tracked lookup shows stop ok) plan.inputs kids :=
  List.forall₂_iff_get.mpr ⟨h.length_eq, fun _ hi hi' =>
    h.get hi hi' (hvalid.input (List.get_mem ..))⟩

/-- A node put in place of one that was walked through, over the inputs that come out. -/
theorem tracked_descend {plan node : LogicalPlan} {kids : List LogicalPlan} (hstop : ¬ stop plan)
    (hkids : List.Forall₂ (Tracked lookup shows stop ok) plan.inputs kids)
    (hinputs : node.inputs = plan.inputs) (hscan : node.isTableScan = plan.isTableScan)
    (hshape : (node.withInputs kids).shape = shows plan)
    (hexprs : ∀ e ∈ node.exprs, ExprResolved lookup e)
    (hok : ok plan ↔ Finds lookup shows node.reads plan) :
    Tracked lookup shows stop ok plan (node.withInputs kids) := by
  have hlength : kids.length = node.inputs.length := by rw [hinputs, hkids.length_eq]
  refine ⟨hshape, ?_⟩
  rw [resolved_iff, forall_reached, NodeResolved, Finds, LogicalPlan.reads,
    node.inputs_withInputs hlength, node.exprs_withInputs, node.isTableScan_withInputs,
    names_of_tracked hkids, resolved_of_tracked hkids, hok, Finds, LogicalPlan.reads, hscan]
  constructor
  · intro h
    exact ⟨h.1, fun _ => h.2.2⟩
  · intro h
    exact ⟨h.1, hexprs, h.2 hstop⟩

/-- A node walked through as it is. -/
theorem tracked_walked {plan : LogicalPlan} {kids : List LogicalPlan}
    (hvalid : Valid lookup fieldOf plan) (hstop : ¬ stop plan)
    (hkids : List.Forall₂ (fun p p' => Valid lookup fieldOf p → Tracked lookup shows stop ok p p')
      plan.inputs kids)
    (hlender : ∀ p, plan.lender = some p → shows plan = shows p)
    (hown : plan.lender = none → shows plan = plan.shape)
    (hok : ok plan ↔ Finds lookup shows plan.reads plan) :
    Tracked lookup shows stop ok plan (plan.withInputs kids) := by
  have htracked := tracked_inputs hvalid hkids
  refine tracked_descend hstop htracked rfl rfl ?_ (resolved_iff.mp hvalid.resolved).2.1 hok
  obtain ⟨hnone, hshape⟩ | ⟨p, kid, hsome, hkid, hshape⟩ := LogicalPlan.lender_withInputs htracked
  · rw [hshape, hown hnone]
  · rw [hshape, hkid.shape, hlender p hsome]

end Tracked

/-! ### What a rule must leave -/

/-- The plan shows the same fields, and its expressions still find their columns. -/
structure Preserved (lookup : Lookup) (plan plan' : LogicalPlan) : Prop where
  shape : plan'.shape = plan.shape
  resolved : Resolved lookup plan'

theorem Valid.preserved {lookup : Lookup} {fieldOf : FieldOf} {plan : LogicalPlan}
    (h : Valid lookup fieldOf plan) : Preserved lookup plan plan := ⟨rfl, h.resolved⟩

theorem Tracked.preserved_iff {lookup : Lookup} {shows : LogicalPlan → Shape}
    {stop ok : LogicalPlan → Prop} {plan plan' : LogicalPlan}
    (h : Tracked lookup shows stop ok plan plan') :
    Preserved lookup plan plan' ↔
      shows plan = plan.shape ∧ ∀ q, Reached stop q plan → ok q := by
  rw [← h.resolved, ← h.shape]
  exact ⟨fun h => ⟨h.shape, h.resolved⟩, fun h => ⟨h.1, h.2⟩⟩

end Griot.Logical
