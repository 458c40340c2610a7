import Griot.Lib.Declared
import Griot.Physical.Interleaving

/-! Plan properties, and the operators that declare them.

A plan declares the schema, the orderings, the equalities and the partitioning of
the rows it emits. The masking and the noise operator declare what their input
declares, when they are built and whenever their input is exchanged
(`MaskingNode.Reachable.spec`, `LaplaceNoiseNode.Reachable.spec`). How the engine
compares values that are not null, and hashes them, is given. -/
namespace Griot.Physical

open Lib Budget
open Logical (MaskPolicy)

/-! ### Declarations -/

structure Comparator where
  compare : Value → Value → Ordering
  hash : List Value → Nat

/-- `PhysicalSortExpr` with its `SortOptions`. -/
structure PhysicalSortExpr where
  expr : PhysicalExpr
  descending : Bool
  nullsFirst : Bool

abbrev LexOrdering := List PhysicalSortExpr

inductive AcrossPartitions where
  | heterogeneous
  | uniform (value : Option Value)

structure ConstExpr where
  expr : PhysicalExpr
  acrossPartitions : AcrossPartitions

inductive Partitioning where
  | roundRobinBatch (count : Nat)
  | hash (exprs : List PhysicalExpr) (count : Nat)
  | unknownPartitioning (count : Nat)

def Partitioning.partitionCount : Partitioning → Nat
  | roundRobinBatch count => count
  | hash _ count => count
  | unknownPartitioning count => count

structure EquivalenceProperties where
  schema : Schema
  /-- The equal expressions of each class. -/
  eqGroup : List (List PhysicalExpr)
  /-- Orderings that hold side by side. -/
  oeqClass : List LexOrdering
  constants : List ConstExpr

structure PlanProperties where
  eqProperties : EquivalenceProperties
  partitioning : Partitioning

namespace PhysicalSortExpr

/-- Nulls stand at their end, the direction reversed or not. -/
def compare (order : Comparator) (key : PhysicalSortExpr) (r s : Row) : Ordering :=
  match key.expr.valueAt r, key.expr.valueAt s with
  | .null, .null => .eq
  | .null, _ => if key.nullsFirst then .lt else .gt
  | _, .null => if key.nullsFirst then .gt else .lt
  | v, w => if key.descending then (order.compare v w).swap else order.compare v w

end PhysicalSortExpr

/-- The first key that tells two rows apart decides. -/
def LexOrdering.compare (order : Comparator) : LexOrdering → Row → Row → Ordering
  | [], _, _ => .eq
  | key :: keys, r, s => (key.compare order r s).then (LexOrdering.compare order keys r s)

/-- `r` is not after `s`. -/
def LexOrdering.precedes (order : Comparator) (keys : LexOrdering) (r s : Row) : Bool :=
  (keys.compare order r s).isLE

namespace PlanProperties

/-- Where a row may lie by hash partitioning. -/
def hashed (order : Comparator) (partition : Nat) (row : Row) : Partitioning → Prop
  | .hash exprs count => order.hash (exprs.map (·.valueAt row)) % count = partition
  | _ => True

def uniformValue (row : Row) (c : ConstExpr) : Prop :=
  match c.acrossPartitions with
  | .uniform (some value) => c.expr.valueAt row = value
  | _ => True

/-- The value of a uniform constant is that of every row of every partition. -/
def sameUniform (r s : Row) (c : ConstExpr) : Prop :=
  match c.acrossPartitions with
  | .uniform _ => c.expr.valueAt r = c.expr.valueAt s
  | .heterogeneous => True

/-- What the properties say of the rows. -/
def declaration (order : Comparator) (D : PlanProperties) : Declaration Row where
  placed := fun partition row =>
    partition < D.partitioning.partitionCount ∧ hashed order partition row D.partitioning ∧
    (∀ exprs ∈ D.eqProperties.eqGroup, ∀ e ∈ exprs, ∀ e' ∈ exprs, e.valueAt row = e'.valueAt row) ∧
    ∀ c ∈ D.eqProperties.constants, uniformValue row c
  precedes := fun r s =>
    (∀ keys ∈ D.eqProperties.oeqClass, LexOrdering.precedes order keys r s = true) ∧
    ∀ c ∈ D.eqProperties.constants, c.expr.valueAt r = c.expr.valueAt s
  agrees := fun r s => ∀ c ∈ D.eqProperties.constants, sameUniform r s c
  agrees_symm := fun {r s} h c hc => by
    have hsame := h c hc
    unfold sameUniform at hsame ⊢
    split at hsame
    · exact hsame.symm
    · trivial

/-- Every expression that the properties are about. -/
def exprs (D : PlanProperties) : List PhysicalExpr :=
  D.eqProperties.eqGroup.flatten ++ D.eqProperties.oeqClass.flatten.map (·.expr) ++
    D.eqProperties.constants.map (·.expr) ++
    match D.partitioning with
    | .hash exprs _ => exprs
    | _ => []

section Unread
variable {order : Comparator} {D : PlanProperties} {r s r' s' : Row}

theorem compare_congr {keys : LexOrdering}
    (hr : ∀ key ∈ keys, key.expr.valueAt r' = key.expr.valueAt r)
    (hs : ∀ key ∈ keys, key.expr.valueAt s' = key.expr.valueAt s) :
    keys.compare order r' s' = keys.compare order r s := by
  induction keys with
  | nil => rfl
  | cons key keys ih =>
    rw [List.forall_mem_cons] at hr hs
    have hkey : key.compare order r' s' = key.compare order r s := by
      rw [PhysicalSortExpr.compare, PhysicalSortExpr.compare, hr.1, hs.1]
    rw [LexOrdering.compare, LexOrdering.compare, hkey, ih hr.2 hs.2]

theorem hashed_congr {partition : Nat} {partitioning : Partitioning}
    (h : ∀ exprs count, partitioning = .hash exprs count →
      ∀ e ∈ exprs, e.valueAt r' = e.valueAt r) (hr : hashed order partition r partitioning) :
    hashed order partition r' partitioning := by
  cases partitioning with
  | hash exprs count =>
    have hvalues : exprs.map (·.valueAt r') = exprs.map (·.valueAt r) :=
      List.map_congr_left (h exprs count rfl)
    show order.hash _ % count = partition
    rw [hvalues]
    exact hr
  | _ => trivial

/-- **Unread columns**: rows may be replaced freely where no declared expression looks. -/
theorem keeps_of_unread {fits : Row → Prop} {R : Row → Row → Prop}
    (h : ∀ e ∈ D.exprs, ∀ r r', fits r → R r r' → e.valueAt r' = e.valueAt r) :
    (D.declaration order).Keeps fits R := by
  have hconstant : ∀ {c}, c ∈ D.eqProperties.constants → c.expr ∈ D.exprs := fun hc =>
    List.mem_append_left _ (List.mem_append_right _ (List.mem_map_of_mem hc))
  have hclass : ∀ {exprs e}, exprs ∈ D.eqProperties.eqGroup → e ∈ exprs → e ∈ D.exprs :=
    fun hexprs he => List.mem_append_left _ (List.mem_append_left _ (List.mem_append_left _
      (List.mem_flatten_of_mem hexprs he)))
  have hkey : ∀ {keys key}, keys ∈ D.eqProperties.oeqClass → key ∈ keys → key.expr ∈ D.exprs :=
    fun hkeys hmem => List.mem_append_left _ (List.mem_append_left _ (List.mem_append_right _
      (List.mem_map_of_mem (List.mem_flatten_of_mem hkeys hmem))))
  refine .of_view (fun row => fun e : {e // e ∈ D.exprs} => e.1.valueAt row) (fun r r' hfits hr =>
    funext fun e => h e.1 e.2 r r' hfits hr) ?_ ?_ ?_
  · intro p r r' hview hplaced
    have heq : ∀ e ∈ D.exprs, e.valueAt r' = e.valueAt r := fun e he => congrFun hview ⟨e, he⟩
    obtain ⟨hcount, hhashed, hclasses, huniform⟩ := hplaced
    refine ⟨hcount, hashed_congr (fun exprs count hpartitioning e he => ?_) hhashed,
      fun exprs hexprs e he e' he' => ?_, fun c hc => ?_⟩
    · exact heq e (List.mem_append_right _ (by rw [hpartitioning]; exact he))
    · rw [heq e (hclass hexprs he), heq e' (hclass hexprs he')]
      exact hclasses exprs hexprs e he e' he'
    · have hvalue := huniform c hc
      rw [uniformValue, heq _ (hconstant hc)]
      exact hvalue
  · intro r s r' s' hviewr hviews hprecedes
    have heqr : ∀ e ∈ D.exprs, e.valueAt r' = e.valueAt r := fun e he => congrFun hviewr ⟨e, he⟩
    have heqs : ∀ e ∈ D.exprs, e.valueAt s' = e.valueAt s := fun e he => congrFun hviews ⟨e, he⟩
    refine ⟨fun keys hkeys => ?_, fun c hc => ?_⟩
    · rw [LexOrdering.precedes, compare_congr (fun key hmem => heqr _ (hkey hkeys hmem))
        (fun key hmem => heqs _ (hkey hkeys hmem))]
      exact hprecedes.1 keys hkeys
    · rw [heqr _ (hconstant hc), heqs _ (hconstant hc)]
      exact hprecedes.2 c hc
  · intro r s r' s' hviewr hviews hagrees c hc
    have hsame := hagrees c hc
    rw [sameUniform, congrFun hviewr ⟨_, hconstant hc⟩, congrFun hviews ⟨_, hconstant hc⟩]
    exact hsame

end Unread

end PlanProperties

/-! ### Plans -/

/-- The rows of the batches of a stream. -/
def emittedRows (stream : BatchStream DataFusionError RecordBatch) : List Row :=
  stream.flatMap fun
    | .ok batch => batch.rows
    | .error _ => []

section Emitted
variable (stream : BatchStream DataFusionError RecordBatch)

@[simp] theorem emittedRows_nil : emittedRows [] = [] := rfl

@[simp] theorem emittedRows_ok (batch : RecordBatch) :
    emittedRows (.ok batch :: stream) = batch.rows ++ emittedRows stream := rfl

@[simp] theorem emittedRows_error (e : DataFusionError) :
    emittedRows (.error e :: stream) = emittedRows stream := rfl

@[simp] theorem emittedRows_append (stream' : BatchStream DataFusionError RecordBatch) :
    emittedRows (stream ++ stream') = emittedRows stream ++ emittedRows stream' :=
  List.flatMap_append

end Emitted

/-- The properties are true of what the partitions emit, the schema they refer to included. -/
structure Truthful (order : Comparator) (schema : Schema) (D : PlanProperties)
    (partitions : Nat → BatchStream DataFusionError RecordBatch) : Prop where
  schema_eq : D.eqProperties.schema = schema
  batches : ∀ p batch, .ok batch ∈ partitions p → batch.schema = D.eqProperties.schema
  rows : (D.declaration order).Holds fun p => emittedRows (partitions p)

/-- A plan as the operators see their input. -/
structure InnerPlan where
  hasContractApproved : Bool
  schema : Schema
  properties : PlanProperties
  execute : Nat → BatchStream DataFusionError RecordBatch

def InnerPlan.Truthful (order : Comparator) (plan : InnerPlan) : Prop :=
  Physical.Truthful order plan.schema plan.properties plan.execute

/-- A new input with an approval marker in it; `missing` ends the message where there is none. -/
def newChild (operator missing : String) (children : List InnerPlan) :
    Except DataFusionError InnerPlan :=
  match children with
  | [] => .error (.internal (operator ++ "::with_new_children requires exactly one child"))
  | inner :: _ =>
    if inner.hasContractApproved then .ok inner
    else .error (.internal
      (operator ++ "::with_new_children: new child has no ContractApprovedExec" ++ missing))

/-- `MaskingExec` with its input and its cached properties. -/
structure MaskingNode where
  op : MaskingExec
  inner : InnerPlan
  properties : PlanProperties

namespace MaskingNode

/-- `MaskingExec::new` -/
def new (serde : SerdeJson) (bundle : ContractBundleHandle) (inner : InnerPlan) :
    Except PhysicalError MaskingNode :=
  if inner.hasContractApproved then do
    let columnPolicies ← MaskingExec.parseMaskingBundle serde bundle
    return ⟨⟨bundle, columnPolicies, MaskingExec.maskedOutputSchema inner.schema columnPolicies⟩,
      inner, inner.properties⟩
  else .error (.contractNotApproved "MaskingExec")

def withNewChildren (node : MaskingNode) (children : List InnerPlan) :
    Except DataFusionError MaskingNode := do
  let inner ← newChild "MaskingExec" " ancestor" children
  return ⟨{node.op with
      outputSchema := MaskingExec.maskedOutputSchema inner.schema node.op.columnPolicies},
    inner, inner.properties⟩

def schema (node : MaskingNode) : Schema := node.op.outputSchema

def execute (engine : Engine) (node : MaskingNode) (partition : Nat) :
    BatchStream DataFusionError RecordBatch :=
  andThen (node.inner.execute partition) (node.op.onBatch engine)

/-- Built from the bundle, its input exchanged any number of times. -/
inductive Reachable (serde : SerdeJson) (bundle : ContractBundleHandle) : MaskingNode → Prop
  | new {inner : InnerPlan} {node : MaskingNode} :
    MaskingNode.new serde bundle inner = .ok node → Reachable serde bundle node
  | exchange {node node' : MaskingNode} {children : List InnerPlan} :
    Reachable serde bundle node → node.withNewChildren children = .ok node' →
    Reachable serde bundle node'

variable {serde : SerdeJson} {bundle : ContractBundleHandle} {node : MaskingNode}

/-- The properties are those of the input, whatever the masks. -/
theorem Reachable.spec (h : Reachable serde bundle node) : ∃ policies,
    MaskingExec.parseMaskingBundle serde bundle = .ok policies ∧
      node.op = ⟨bundle, policies, MaskingExec.maskedOutputSchema node.inner.schema policies⟩ ∧
      node.properties = node.inner.properties := by
  induction h with
  | new h =>
    rw [MaskingNode.new] at h
    split at h
    · obtain ⟨policies, hparse, h⟩ := bind_eq_ok.mp h
      obtain rfl := Except.ok.inj h
      exact ⟨policies, hparse, rfl, rfl⟩
    · exact absurd h (by simp)
  | exchange _ h ih =>
    obtain ⟨policies, hparse, hop, -⟩ := ih
    obtain ⟨inner, -, h⟩ := bind_eq_ok.mp h
    obtain rfl := Except.ok.inj h
    exact ⟨policies, hparse, by rw [hop], rfl⟩

theorem reachable_of_parse (inner : InnerPlan) (happroved : inner.hasContractApproved = true)
    {policies : Dict String MaskPolicy}
    (h : MaskingExec.parseMaskingBundle serde bundle = .ok policies) :
    Reachable serde bundle ⟨⟨bundle, policies,
      MaskingExec.maskedOutputSchema inner.schema policies⟩, inner, inner.properties⟩ := by
  have hnew : MaskingNode.new serde bundle inner = .ok ⟨⟨bundle, policies,
      MaskingExec.maskedOutputSchema inner.schema policies⟩, inner, inner.properties⟩ := by
    rw [MaskingNode.new, if_pos happroved, h]
    rfl
  exact .new hnew

end MaskingNode

/-- `LaplaceNoiseExec` with its input and its cached properties. -/
structure LaplaceNoiseNode where
  op : LaplaceNoiseExec
  inner : InnerPlan
  properties : PlanProperties

namespace LaplaceNoiseNode

/-- `LaplaceNoiseExec::build` -/
def build (serde : SerdeJson) (bundle : ContractBundleHandle) (tenantId : String)
    (budget : PrivacyBudgetTracker) (inner : InnerPlan) : Except PhysicalError LaplaceNoiseNode :=
  if inner.hasContractApproved then do
    let op ← LaplaceNoiseExec.ofBundle serde bundle tenantId budget
    return ⟨op, inner, inner.properties⟩
  else .error (.contractNotApproved "LaplaceNoiseExec")

def withNewChildren (node : LaplaceNoiseNode) (children : List InnerPlan) :
    Except DataFusionError LaplaceNoiseNode := do
  let inner ← newChild "LaplaceNoiseExec" "" children
  return ⟨node.op, inner, inner.properties⟩

/-- The noise is said to change no schema. -/
def schema (node : LaplaceNoiseNode) : Schema := node.inner.schema

inductive Reachable (serde : SerdeJson) (bundle : ContractBundleHandle) (tenantId : String)
    (budget : PrivacyBudgetTracker) : LaplaceNoiseNode → Prop
  | build {inner : InnerPlan} {node : LaplaceNoiseNode} :
    LaplaceNoiseNode.build serde bundle tenantId budget inner = .ok node →
    Reachable serde bundle tenantId budget node
  | exchange {node node' : LaplaceNoiseNode} {children : List InnerPlan} :
    Reachable serde bundle tenantId budget node → node.withNewChildren children = .ok node' →
    Reachable serde bundle tenantId budget node'

variable {serde : SerdeJson} {bundle : ContractBundleHandle} {tenantId : String}
  {budget : PrivacyBudgetTracker} {node : LaplaceNoiseNode}

/-- Copies share the operator, and declare what their own input declares. -/
theorem Reachable.spec (h : Reachable serde bundle tenantId budget node) :
    LaplaceNoiseExec.ofBundle serde bundle tenantId budget = .ok node.op ∧
      node.properties = node.inner.properties := by
  induction h with
  | build h =>
    rw [LaplaceNoiseNode.build] at h
    split at h
    · obtain ⟨op, hop, h⟩ := bind_eq_ok.mp h
      obtain rfl := Except.ok.inj h
      exact ⟨hop, rfl⟩
    · exact absurd h (by simp)
  | exchange _ h ih =>
    obtain ⟨inner, -, h⟩ := bind_eq_ok.mp h
    obtain rfl := Except.ok.inj h
    exact ⟨ih.1, rfl⟩

theorem reachable_of_ofBundle (inner : InnerPlan) (happroved : inner.hasContractApproved = true)
    {op : LaplaceNoiseExec} (h : LaplaceNoiseExec.ofBundle serde bundle tenantId budget = .ok op) :
    Reachable serde bundle tenantId budget ⟨op, inner, inner.properties⟩ := by
  have hbuild : LaplaceNoiseNode.build serde bundle tenantId budget inner =
      .ok ⟨op, inner, inner.properties⟩ := by
    rw [LaplaceNoiseNode.build, if_pos happroved, h]
    rfl
  exact .build hbuild

end LaplaceNoiseNode

end Griot.Physical
