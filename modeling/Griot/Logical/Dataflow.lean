import Griot.Logical.Traverse

/-! Where the columns of a plan come from.

Every output column of a node has a list of flows: the raw columns it is computed from, each
with what happens to it on the way. References are resolved by name against the columns the
inputs put out. A flow is taken through any expression, also into the plan of a subquery. -/
namespace Griot.Logical

/-- What happens to a value on its way to an output. -/
inductive Hop where
  /-- A projection selects it as the column of this name. -/
  | select (name : String)
  /-- It goes through the mask expression of this column. -/
  | mask (name : String)
  | compute
  deriving DecidableEq

/-- A raw column a value is computed from, and what happens to it, in order. -/
structure Flow where
  column : String
  /-- The scan is below an approval marker. -/
  approved : Bool
  hops : List Hop
  deriving DecidableEq

namespace Flow

/-- The flow goes on. -/
def andThen (f : Flow) (hop : Hop) : Flow := {f with hops := f.hops ++ [hop]}

def approve (f : Flow) : Flow := {f with approved := true}

end Flow

structure FieldName where
  qualifier : Option String
  name : String
  deriving DecidableEq

structure Output where
  name : FieldName
  flows : List Flow

/-- The reference may mean the field. -/
def Column.finds (c : Column) (field : FieldName) : Bool :=
  field.name = c.name && (c.relation = none || c.relation = field.qualifier)

/-- The flows of the first column the reference may mean. -/
def readColumn (inputs : List Output) (c : Column) : List Flow :=
  ((inputs.find? fun o => c.finds o.name).map Output.flows).getD []

/-- An output of a node without a constructor of its own: the columns of its inputs it hands on,
by input and position, and the expressions it computes with, by position. -/
structure Wire where
  name : FieldName
  columns : List (Nat × Nat)
  exprs : List Nat

/-- How plans are read: the names expressions get, the outputs of the other nodes, and the
expressions that mask a column. -/
structure Reading where
  schemaName : Expr → String
  wires : NodeKind → List Expr → DFSchema → List (List FieldName) → List Wire
  maskOf : Expr → Option Column

namespace Reading

/-- The field an expression is projected as. -/
def fieldName (R : Reading) : Expr → FieldName
  | .column c => ⟨c.relation, c.name⟩
  | .alias _ name => ⟨none, name⟩
  | expr => ⟨none, R.schemaName expr⟩

/-- A projected expression: one that selects a column goes by the name of the column. -/
def project (R : Reading) (selects : Expr → Option Column) (env : Column → List Flow) (expr : Expr)
    (flows : List Flow) : Output :=
  match selects expr with
  | some c => ⟨⟨none, c.name⟩, (env c).map (·.andThen (.select c.name))⟩
  | none => ⟨R.fieldName expr, flows⟩

def wire (inputs : List (List Output)) (exprs : List (List Flow)) (w : Wire) : Output :=
  ⟨w.name,
    (w.columns.flatMap fun place =>
      ((inputs[place.1]?.bind (·[place.2]?)).map Output.flows).getD []) ++
      w.exprs.flatMap fun i => (exprs[i]?.getD []).map (·.andThen .compute)⟩

end Reading

/-- No expression counts as selecting a column. -/
def noSelects : Expr → Option Column := fun _ => none

/-- The keys of a grouping set are columns of their own. -/
def isGroupingSet (op : String) : Bool := op ∈ ["Rollup", "Cube", "GroupingSets"]

mutual

/-- The flows into an expression over inputs with the flows `env`. -/
def Expr.flows (R : Reading) (env : Column → List Flow) : Expr → List Flow
  | .column c => env c
  | .literal _ => []
  | .alias expr name => match R.maskOf (.alias expr name) with
    | some c => (env c).map (·.andThen (.mask c.name))
    | none => expr.flows R env
  | .binaryExpr left _ right => (left.flows R env ++ right.flows R env).map (·.andThen .compute)
  | .cast expr _ => (expr.flows R env).map (·.andThen .compute)
  | .aggregateFunction _ args _ filter orderBy =>
    ((Expr.allFlows R env args).flatten ++ Expr.optionFlows R env filter ++
      (Expr.allFlows R env orderBy).flatten).map (·.andThen .compute)
  | .subquery _ args subquery outerRefColumns =>
    ((Expr.allFlows R env args).flatten ++ outerRefColumns.flatMap env ++
      (subquery.outputs R noSelects).flatMap Output.flows).map (·.andThen .compute)
  | .other _ args => (Expr.allFlows R env args).flatten.map (·.andThen .compute)

def Expr.allFlows (R : Reading) (env : Column → List Flow) : List Expr → List (List Flow)
  | [] => []
  | e :: es => e.flows R env :: Expr.allFlows R env es

def Expr.optionFlows (R : Reading) (env : Column → List Flow) : Option Expr → List Flow
  | none => []
  | some e => e.flows R env

/-- The columns of a grouping. -/
def Expr.keyOutputs (R : Reading) (env : Column → List Flow) : List Expr → List Output
  | [] => []
  | .other op args :: es =>
    (if isGroupingSet op then
      List.zipWith (R.project noSelects env) args (Expr.allFlows R env args)
    else [R.project noSelects env (.other op args)
      ((Expr.allFlows R env args).flatten.map (·.andThen .compute))]) ++ Expr.keyOutputs R env es
  | e :: es => R.project noSelects env e (e.flows R env) :: Expr.keyOutputs R env es

/-- The output columns of a plan; `selects` are the expressions that select a column in the
projections over an approval marker. -/
def LogicalPlan.outputs (R : Reading) (selects : Expr → Option Column) : LogicalPlan → List Output
  | .tableScan _ schema _ =>
    schema.map fun f => ⟨⟨f.qualifier, f.field.name⟩, [⟨f.field.name, false, []⟩]⟩
  | .emptyRelation _ schema => schema.map fun f => ⟨⟨f.qualifier, f.field.name⟩, []⟩
  | .projection expr input _ =>
    let env := readColumn (input.outputs R selects)
    List.zipWith (R.project (if input.subtreeHasApprovalMarker then selects else noSelects) env)
      expr (Expr.allFlows R env expr)
  | .filter _ input => input.outputs R selects
  | .aggregate groupExpr aggrExpr input _ =>
    let env := readColumn (input.outputs R selects)
    Expr.keyOutputs R env groupExpr ++
      List.zipWith (R.project noSelects env) aggrExpr (Expr.allFlows R env aggrExpr)
  | .contractApproved _ _ input _ =>
    (input.outputs R selects).map fun o => {o with flows := o.flows.map Flow.approve}
  | .laplaceNoise _ _ input _ => input.outputs R selects
  | .other kind exprs inputs schema =>
    let outputs := LogicalPlan.allOutputs R selects inputs
    let env := readColumn outputs.flatten
    (R.wires kind exprs schema (outputs.map (·.map Output.name))).map
      (Reading.wire outputs (Expr.allFlows R env exprs))

def LogicalPlan.allOutputs (R : Reading) (selects : Expr → Option Column) :
    List LogicalPlan → List (List Output)
  | [] => []
  | p :: ps => p.outputs R selects :: LogicalPlan.allOutputs R selects ps

end

theorem Expr.allFlows_eq (R : Reading) (env : Column → List Flow) (es : List Expr) :
    Expr.allFlows R env es = es.map (Expr.flows R env) := by
  induction es with
  | nil => rfl
  | cons e es ih => rw [Expr.allFlows, ih, List.map_cons]

theorem LogicalPlan.allOutputs_eq (R : Reading) (selects : Expr → Option Column)
    (ps : List LogicalPlan) :
    LogicalPlan.allOutputs R selects ps = ps.map (LogicalPlan.outputs R selects) := by
  induction ps with
  | nil => rfl
  | cons p ps ih => rw [LogicalPlan.allOutputs, ih, List.map_cons]

/-- The columns of one key. -/
def Reading.keys (R : Reading) (env : Column → List Flow) (e : Expr) : List Output :=
  match e with
  | .other op args =>
    if isGroupingSet op then List.zipWith (R.project noSelects env) args (Expr.allFlows R env args)
    else [R.project noSelects env (.other op args) ((Expr.other op args).flows R env)]
  | e => [R.project noSelects env e (e.flows R env)]

theorem Expr.keyOutputs_cons (R : Reading) (env : Column → List Flow) (e : Expr) (es : List Expr) :
    Expr.keyOutputs R env (e :: es) = R.keys env e ++ Expr.keyOutputs R env es := by
  cases e with
  | other op args => rw [Expr.keyOutputs, Reading.keys, Expr.flows]
  | _ => rw [Expr.keyOutputs, Reading.keys, List.singleton_append] <;> simp

theorem mem_readColumn {inputs : List Output} {c : Column} {f : Flow}
    (h : f ∈ readColumn inputs c) : ∃ o ∈ inputs, f ∈ o.flows := by
  unfold readColumn at h
  cases hfind : inputs.find? fun o => c.finds o.name with
  | none => simp [hfind] at h
  | some o =>
    rw [hfind] at h
    exact ⟨o, List.mem_of_find?_eq_some hfind, h⟩

/-! ### Plans read as they are -/

/-- The flow goes through no selected column. -/
def Flow.Plain (f : Flow) : Prop := ∀ name, Hop.select name ∉ f.hops

theorem Flow.Plain.andThen {f : Flow} (h : f.Plain) {hop : Hop} (hhop : ∀ name, hop ≠ .select name) :
    (f.andThen hop).Plain := by
  intro name hmem
  obtain hmem | hmem := List.mem_append.mp hmem
  · exact h name hmem
  · exact hhop name (List.mem_singleton.mp hmem).symm

/-- Flows that are plain stay so where no column counts as selected. -/
def PlainFlows (flows : List Flow) : Prop := ∀ f ∈ flows, f.Plain

theorem PlainFlows.andThen {flows : List Flow} (h : PlainFlows flows) {hop : Hop}
    (hhop : ∀ name, hop ≠ .select name) : PlainFlows (flows.map (·.andThen hop)) := by
  intro f hf
  obtain ⟨g, hg, rfl⟩ := List.mem_map.mp hf
  exact (h g hg).andThen hhop

theorem PlainFlows.append {flows flows' : List Flow} (h : PlainFlows flows) (h' : PlainFlows flows') :
    PlainFlows (flows ++ flows') := fun f hf =>
  (List.mem_append.mp hf).elim (h f) (h' f)

def PlainOutputs (outputs : List Output) : Prop := ∀ o ∈ outputs, PlainFlows o.flows

theorem PlainOutputs.readColumn {outputs : List Output} (h : PlainOutputs outputs) (c : Column) :
    PlainFlows (readColumn outputs c) := by
  intro f hf
  obtain ⟨o, ho, hmem⟩ := mem_readColumn hf
  exact h o ho f hmem

theorem plain_flatten {flows : List (List Flow)} (h : ∀ fs ∈ flows, PlainFlows fs) :
    PlainFlows flows.flatten := by
  intro f hf
  obtain ⟨fs, hfs, hmem⟩ := List.mem_flatten.mp hf
  exact h fs hfs f hmem

theorem plain_project {R : Reading} {env : Column → List Flow} {es : List Expr}
    {flows : List (List Flow)} (h : ∀ fs ∈ flows, PlainFlows fs) :
    PlainOutputs (List.zipWith (R.project noSelects env) es flows) := by
  induction es generalizing flows with
  | nil =>
    intro o ho
    simp at ho
  | cons e es ih =>
    cases flows with
    | nil =>
      intro o ho
      simp at ho
    | cons fs flows =>
      rw [List.forall_mem_cons] at h
      intro o ho
      rw [List.zipWith_cons_cons, List.mem_cons] at ho
      obtain rfl | ho := ho
      · exact h.1
      · exact ih h.2 o ho

theorem plain_wire {inputs : List (List Output)} (hinputs : ∀ os ∈ inputs, PlainOutputs os)
    {exprs : List (List Flow)} (hexprs : ∀ fs ∈ exprs, PlainFlows fs) (w : Wire) :
    PlainFlows (Reading.wire inputs exprs w).flows := by
  refine PlainFlows.append ?_ ?_
  · intro f hf
    obtain ⟨place, -, hmem⟩ := List.mem_flatMap.mp hf
    cases hinput : inputs[place.1]? with
    | none => simp [hinput] at hmem
    | some os =>
      cases ho : os[place.2]? with
      | none => simp [hinput, ho] at hmem
      | some o =>
        have hmem' : f ∈ o.flows := by simpa [hinput, ho] using hmem
        exact hinputs os (List.mem_of_getElem? hinput) o (List.mem_of_getElem? ho) f hmem'
  · intro f hf
    obtain ⟨i, -, hmem⟩ := List.mem_flatMap.mp hf
    have hplain : PlainFlows (exprs[i]?.getD []) := by
      cases hexpr : exprs[i]? with
      | none => exact fun f hf => absurd hf List.not_mem_nil
      | some fs => exact hexprs fs (List.mem_of_getElem? hexpr)
    exact hplain.andThen (by simp) f hmem

mutual

theorem plain_flows (R : Reading) {env : Column → List Flow} (henv : ∀ c, PlainFlows (env c)) :
    ∀ e : Expr, PlainFlows (e.flows R env)
  | .column c => by
    rw [Expr.flows]
    exact henv c
  | .literal _ => by
    rw [Expr.flows]
    exact fun f hf => absurd hf List.not_mem_nil
  | .alias expr name => by
    rw [Expr.flows]
    split
    · exact (henv _).andThen (by simp)
    · exact plain_flows R henv expr
  | .binaryExpr left _ right => by
    rw [Expr.flows]
    exact ((plain_flows R henv left).append (plain_flows R henv right)).andThen (by simp)
  | .cast expr _ => by
    rw [Expr.flows]
    exact (plain_flows R henv expr).andThen (by simp)
  | .aggregateFunction _ args _ filter orderBy => by
    rw [Expr.flows]
    exact (((plain_flatten (plain_allFlows R henv args)).append
      (plain_optionFlows R henv filter)).append
      (plain_flatten (plain_allFlows R henv orderBy))).andThen (by simp)
  | .subquery _ args subquery outerRefColumns => by
    rw [Expr.flows]
    refine (((plain_flatten (plain_allFlows R henv args)).append ?_).append ?_).andThen (by simp)
    · intro f hf
      obtain ⟨c, -, hmem⟩ := List.mem_flatMap.mp hf
      exact henv c f hmem
    · intro f hf
      obtain ⟨o, ho, hmem⟩ := List.mem_flatMap.mp hf
      exact plain_outputs R subquery o ho f hmem
  | .other _ args => by
    rw [Expr.flows]
    exact (plain_flatten (plain_allFlows R henv args)).andThen (by simp)

theorem plain_allFlows (R : Reading) {env : Column → List Flow}
    (henv : ∀ c, PlainFlows (env c)) : ∀ es : List Expr, ∀ fs ∈ Expr.allFlows R env es, PlainFlows fs
  | [] => fun fs hfs => absurd hfs List.not_mem_nil
  | e :: es => by
    rw [Expr.allFlows, List.forall_mem_cons]
    exact ⟨plain_flows R henv e, plain_allFlows R henv es⟩

theorem plain_optionFlows (R : Reading) {env : Column → List Flow}
    (henv : ∀ c, PlainFlows (env c)) : ∀ e : Option Expr, PlainFlows (Expr.optionFlows R env e)
  | none => fun f hf => absurd hf List.not_mem_nil
  | some e => by
    rw [Expr.optionFlows]
    exact plain_flows R henv e

theorem plain_outputs (R : Reading) : ∀ plan : LogicalPlan,
    PlainOutputs (plan.outputs R noSelects)
  | .tableScan _ schema _ => by
    rw [LogicalPlan.outputs]
    intro o ho
    obtain ⟨field, -, rfl⟩ := List.mem_map.mp ho
    intro f hf
    obtain rfl := List.mem_singleton.mp hf
    exact fun _ => List.not_mem_nil
  | .emptyRelation _ schema => by
    rw [LogicalPlan.outputs]
    intro o ho
    obtain ⟨field, -, rfl⟩ := List.mem_map.mp ho
    exact fun f hf => absurd hf List.not_mem_nil
  | .projection expr input _ => by
    rw [LogicalPlan.outputs, ite_self]
    exact plain_project (plain_allFlows R (plain_outputs R input).readColumn expr)
  | .filter _ input => by
    rw [LogicalPlan.outputs]
    exact plain_outputs R input
  | .aggregate groupExpr aggrExpr input _ => by
    rw [LogicalPlan.outputs]
    have henv := (plain_outputs R input).readColumn
    intro o ho
    obtain ho | ho := List.mem_append.mp ho
    · exact plain_keyOutputs R henv groupExpr o ho
    · exact plain_project (plain_allFlows R henv aggrExpr) o ho
  | .contractApproved _ _ input _ => by
    rw [LogicalPlan.outputs]
    intro o ho
    obtain ⟨o', ho', rfl⟩ := List.mem_map.mp ho
    intro f hf
    obtain ⟨f', hf', rfl⟩ := List.mem_map.mp hf
    exact plain_outputs R input o' ho' f' hf'
  | .laplaceNoise _ _ input _ => by
    rw [LogicalPlan.outputs]
    exact plain_outputs R input
  | .other kind exprs inputs schema => by
    rw [LogicalPlan.outputs]
    have hinputs := plain_allOutputs R inputs
    have henv : ∀ c, PlainFlows (readColumn (LogicalPlan.allOutputs R noSelects inputs).flatten c) := by
      refine PlainOutputs.readColumn fun o ho => ?_
      obtain ⟨os, hos, hmem⟩ := List.mem_flatten.mp ho
      exact hinputs os hos o hmem
    intro o ho
    obtain ⟨w, -, rfl⟩ := List.mem_map.mp ho
    exact plain_wire hinputs (plain_allFlows R henv exprs) w

theorem plain_allOutputs (R : Reading) : ∀ ps : List LogicalPlan,
    ∀ os ∈ LogicalPlan.allOutputs R noSelects ps, PlainOutputs os
  | [] => fun os hos => absurd hos List.not_mem_nil
  | p :: ps => by
    rw [LogicalPlan.allOutputs, List.forall_mem_cons]
    exact ⟨plain_outputs R p, plain_allOutputs R ps⟩

theorem plain_keyOutputs (R : Reading) {env : Column → List Flow}
    (henv : ∀ c, PlainFlows (env c)) : ∀ es : List Expr, PlainOutputs (Expr.keyOutputs R env es)
  | [] => fun o ho => absurd ho List.not_mem_nil
  | e :: es => by
    rw [Expr.keyOutputs_cons]
    have he := plain_flows R henv e
    intro o ho
    obtain ho | ho := List.mem_append.mp ho
    · cases e with
      | other op args =>
        rw [Reading.keys] at ho
        split at ho
        · exact plain_project (plain_allFlows R henv args) o ho
        · obtain rfl := List.mem_singleton.mp ho
          exact he
      | _ =>
        obtain rfl := List.mem_singleton.mp ho
        exact he
    · exact plain_keyOutputs R henv es o ho

end

/-! ### Changing flows -/

/-- A change of flows that the nodes above pass on, and that leaves plain flows alone. -/
structure Carries (t : Flow → Option Flow) : Prop where
  andThen {hop : Hop} (hhop : ∀ name, hop ≠ .select name) (f : Flow) :
    t (f.andThen hop) = (t f).map (·.andThen hop)
  approve (f : Flow) : t f.approve = (t f).map Flow.approve
  plain {f : Flow} (h : f.Plain) : t f = some f

def Output.carry (t : Flow → Option Flow) (o : Output) : Output :=
  {o with flows := o.flows.filterMap t}

@[simp] theorem Output.name_carry (t : Flow → Option Flow) (o : Output) :
    (o.carry t).name = o.name := rfl

@[simp] theorem Output.flows_carry (t : Flow → Option Flow) (o : Output) :
    (o.carry t).flows = o.flows.filterMap t := rfl

namespace Carries

variable {t : Flow → Option Flow}

theorem readColumn (inputs : List Output) (c : Column) :
    Logical.readColumn (inputs.map (Output.carry t)) c = (Logical.readColumn inputs c).filterMap t := by
  unfold Logical.readColumn
  rw [List.find?_map]
  show ((inputs.find? fun o => c.finds o.name).map (Output.carry t) |>.map Output.flows).getD [] = _
  cases inputs.find? fun o => c.finds o.name <;> rfl

section
variable (ht : Carries t)
include ht

theorem map_andThen {hop : Hop} (hhop : ∀ name, hop ≠ .select name) (flows : List Flow) :
    (flows.filterMap t).map (·.andThen hop) = (flows.map (·.andThen hop)).filterMap t := by
  rw [List.filterMap_map, List.map_filterMap]
  exact congrArg (List.filterMap · flows) (funext fun f => (ht.andThen hhop f).symm)

theorem filterMap_plain {flows : List Flow} (h : PlainFlows flows) : flows.filterMap t = flows := by
  rw [List.filterMap_congr fun f hf => ht.plain (h f hf)]
  exact List.filterMap_some

end

variable (R : Reading) (env : Column → List Flow)

mutual

theorem flows (ht : Carries t) : ∀ e : Expr,
    e.flows R (fun c => (env c).filterMap t) = (e.flows R env).filterMap t
  | .column c => by rw [Expr.flows, Expr.flows]
  | .literal _ => by
    rw [Expr.flows, Expr.flows]
    rfl
  | .alias expr name => by
    rw [Expr.flows, Expr.flows]
    cases R.maskOf (.alias expr name) with
    | some c => exact ht.map_andThen (by simp) (env c)
    | none => exact flows ht expr
  | .binaryExpr left _ right => by
    rw [Expr.flows, Expr.flows, flows ht left, flows ht right, ← List.filterMap_append,
      ht.map_andThen (by simp)]
  | .cast expr _ => by
    rw [Expr.flows, Expr.flows, flows ht expr, ht.map_andThen (by simp)]
  | .aggregateFunction _ args _ filter orderBy => by
    rw [Expr.flows, Expr.flows, flatten_allFlows ht args, optionFlows ht filter, flatten_allFlows ht orderBy,
      ← List.filterMap_append, ← List.filterMap_append, ht.map_andThen (by simp)]
  | .subquery _ args subquery outerRefColumns => by
    have hinner : PlainFlows ((subquery.outputs R noSelects).flatMap Output.flows) := by
      intro f hf
      obtain ⟨o, ho, hmem⟩ := List.mem_flatMap.mp hf
      exact plain_outputs R subquery o ho f hmem
    have houter : outerRefColumns.flatMap (fun c => (env c).filterMap t) =
        (outerRefColumns.flatMap env).filterMap t := by
      rw [List.filterMap_flatMap]
    rw [Expr.flows, Expr.flows, flatten_allFlows ht args, houter, ← ht.filterMap_plain hinner,
      ← List.filterMap_append, ← List.filterMap_append, ht.filterMap_plain hinner,
      ht.map_andThen (by simp)]
  | .other _ args => by
    rw [Expr.flows, Expr.flows, flatten_allFlows ht args, ht.map_andThen (by simp)]

theorem flatten_allFlows (ht : Carries t) : ∀ es : List Expr,
    (Expr.allFlows R (fun c => (env c).filterMap t) es).flatten =
      (Expr.allFlows R env es).flatten.filterMap t
  | [] => rfl
  | e :: es => by
    rw [Expr.allFlows, Expr.allFlows, List.flatten_cons, List.flatten_cons, flows ht e,
      flatten_allFlows ht es, List.filterMap_append]

theorem optionFlows (ht : Carries t) : ∀ e : Option Expr,
    Expr.optionFlows R (fun c => (env c).filterMap t) e = (Expr.optionFlows R env e).filterMap t
  | none => rfl
  | some e => by rw [Expr.optionFlows, Expr.optionFlows, flows ht e]

end

variable (ht : Carries t)
include ht

theorem allFlows (es : List Expr) :
    Expr.allFlows R (fun c => (env c).filterMap t) es =
      (Expr.allFlows R env es).map (List.filterMap t) := by
  rw [Expr.allFlows_eq, Expr.allFlows_eq, List.map_map]
  exact List.map_congr_left fun e _ => ht.flows R env e

theorem project (es : List Expr) :
    List.zipWith (R.project noSelects fun c => (env c).filterMap t) es
        (Expr.allFlows R (fun c => (env c).filterMap t) es) =
      (List.zipWith (R.project noSelects env) es (Expr.allFlows R env es)).map (Output.carry t) := by
  induction es with
  | nil => rfl
  | cons e es ih =>
    rw [Expr.allFlows, Expr.allFlows, List.zipWith_cons_cons, List.zipWith_cons_cons, List.map_cons,
      ih, ht.flows R env e]
    rfl

theorem keyOutputs (es : List Expr) :
    Expr.keyOutputs R (fun c => (env c).filterMap t) es =
      (Expr.keyOutputs R env es).map (Output.carry t) := by
  have hone (e : Expr) : R.project noSelects (fun c => (env c).filterMap t) e
      (e.flows R fun c => (env c).filterMap t) =
        (R.project noSelects env e (e.flows R env)).carry t := by
    rw [ht.flows R env e]
    rfl
  induction es with
  | nil => rfl
  | cons e es ih =>
    rw [Expr.keyOutputs_cons, Expr.keyOutputs_cons, List.map_append, ih]
    congr 1
    cases e with
    | other op args =>
      rw [Reading.keys, Reading.keys]
      split
      · exact ht.project R env args
      · exact congrArg (fun o => [o]) (hone _)
    | _ => exact congrArg (fun o => [o]) (hone _)

theorem wire (inputs : List (List Output)) (exprs : List (List Flow)) (w : Wire) :
    Reading.wire (inputs.map (List.map (Output.carry t))) (exprs.map (List.filterMap t)) w =
      (Reading.wire inputs exprs w).carry t := by
  have hcolumn (place : Nat × Nat) :
      (((inputs.map (List.map (Output.carry t)))[place.1]?.bind (·[place.2]?)).map
        Output.flows).getD [] =
      (((inputs[place.1]?.bind (·[place.2]?)).map Output.flows).getD []).filterMap t := by
    rw [List.getElem?_map]
    cases inputs[place.1]? with
    | none => rfl
    | some os =>
      show (((os.map (Output.carry t))[place.2]?).map Output.flows).getD [] = _
      rw [List.getElem?_map]
      show _ = ((os[place.2]?.map Output.flows).getD []).filterMap t
      cases os[place.2]? <;> rfl
  have hexpr (i : Nat) : ((exprs.map (List.filterMap t))[i]?.getD []).map (Flow.andThen · .compute) =
      ((exprs[i]?.getD []).map (Flow.andThen · .compute)).filterMap t := by
    rw [List.getElem?_map, ← ht.map_andThen (by simp)]
    cases exprs[i]? <;> rfl
  simp only [Reading.wire, Output.carry, List.filterMap_append, List.filterMap_flatMap, hcolumn, hexpr]

end Carries

end Griot.Logical
