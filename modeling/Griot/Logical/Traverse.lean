import Griot.Logical.Plan

/-! Walking a plan.

`transformDown` is DataFusion's traversal: a visitor sees a node before its
inputs and either lets the walk go on into the inputs or replaces the node and
jumps over them. It never enters the expressions of a node, so the plans of
subquery expressions are not visited.

`occurrences` lists every plan node there is, visited or not, with its `Site`:
the nodes above it, and whether a subquery expression lies between it and the
root. What a rule must guarantee of a plan is said of all occurrences; what a
rule does reach is a matter of the site. -/
namespace Griot.Logical

open Lib

/-! ### The traversal -/

/-- What a visitor makes of a node: a replacement whose inputs are not walked,
or the node, its inputs unchanged, to walk on from. -/
inductive Visit where
  | jump (node : LogicalPlan)
  | descend (node : LogicalPlan)

/-- A pass over a plan: it may record things in `σ`, and fail; what it recorded
before it failed stays recorded. -/
def Pass (σ ε α : Type) : Type := σ → Except ε α × σ

namespace Pass
variable {σ ε α β : Type}

instance : Monad (Pass σ ε) where
  pure a := fun s => (.ok a, s)
  bind x f := fun s => match x s with
    | (.ok a, s₁) => f a s₁
    | (.error e, s₁) => (.error e, s₁)

@[simp] theorem pure_run (a : α) (s : σ) : (pure a : Pass σ ε α) s = (.ok a, s) := rfl

theorem bind_run (x : Pass σ ε α) (f : α → Pass σ ε β) (s : σ) :
    (x >>= f) s = match x s with
      | (.ok a, s₁) => f a s₁
      | (.error e, s₁) => (.error e, s₁) := rfl

instance : LawfulMonad (Pass σ ε) := LawfulMonad.mk' _
  (fun x => by
    funext s
    show (match x s with
      | (.ok a, s₁) => (.ok a, s₁)
      | (.error e, s₁) => (.error e, s₁)) = x s
    obtain ⟨_ | _, _⟩ := x s <;> rfl)
  (fun _ _ => rfl)
  (fun x f g => by
    funext s
    simp only [bind_run]
    obtain ⟨_ | _, _⟩ := x s <;> rfl)

theorem bind_eq_ok {x : Pass σ ε α} {f : α → Pass σ ε β} {s s' : σ} {b : β} :
    (x >>= f) s = (.ok b, s') ↔ ∃ a s₁, x s = (.ok a, s₁) ∧ f a s₁ = (.ok b, s') := by
  rw [bind_run]
  obtain ⟨e | a, s₁⟩ := x s
  · simp
  · simp

end Pass

/-- A rule's closure. -/
abbrev Visitor (σ ε : Type) := LogicalPlan → Pass σ ε Visit

/-- The node with other inputs. -/
def LogicalPlan.withInputs : LogicalPlan → List LogicalPlan → LogicalPlan
  | .projection expr _ schema, [input] => .projection expr input schema
  | .filter predicate _, [input] => .filter predicate input
  | .aggregate groupExpr aggrExpr _ schema, [input] => .aggregate groupExpr aggrExpr input schema
  | .contractApproved contractId tenantId _ schema, [input] =>
    .contractApproved contractId tenantId input schema
  | .laplaceNoise column scaleStr _ schema, [input] => .laplaceNoise column scaleStr input schema
  | .other kind exprs _ schema, inputs => .other kind exprs inputs schema
  | plan, _ => plan

section TransformDown
variable {σ ε : Type}

/-- Go on from a visit, with the walked inputs at hand. -/
def Visit.resume (visit : Visit) (inputs : Pass σ ε (List LogicalPlan)) :
    Pass σ ε LogicalPlan :=
  match visit with
  | .jump node => pure node
  | .descend node => do return node.withInputs (← inputs)

def transformDown (visit : Visitor σ ε) : LogicalPlan → Pass σ ε LogicalPlan
  | .tableScan tableName schema filters => do
    (← visit (.tableScan tableName schema filters)).resume (pure [])
  | .emptyRelation produceOneRow schema => do
    (← visit (.emptyRelation produceOneRow schema)).resume (pure [])
  | .projection expr input schema => do
    (← visit (.projection expr input schema)).resume do return [← transformDown visit input]
  | .filter predicate input => do
    (← visit (.filter predicate input)).resume do return [← transformDown visit input]
  | .aggregate groupExpr aggrExpr input schema => do
    (← visit (.aggregate groupExpr aggrExpr input schema)).resume do
      return [← transformDown visit input]
  | .contractApproved contractId tenantId input schema => do
    (← visit (.contractApproved contractId tenantId input schema)).resume do
      return [← transformDown visit input]
  | .laplaceNoise column scaleStr input schema => do
    (← visit (.laplaceNoise column scaleStr input schema)).resume do
      return [← transformDown visit input]
  | .other kind exprs inputs schema => do
    (← visit (.other kind exprs inputs schema)).resume (transformAll inputs)
where
  transformAll : List LogicalPlan → Pass σ ε (List LogicalPlan)
    | [] => pure []
    | p :: ps => do return (← transformDown visit p) :: (← transformAll ps)

theorem transformAll_eq_mapM (visit : Visitor σ ε) (ps : List LogicalPlan) :
    transformDown.transformAll visit ps = ps.mapM (transformDown visit) := by
  induction ps with
  | nil => rfl
  | cons p ps ih => rw [List.mapM_cons, transformDown.transformAll, ih]

/-- One step of the walk, the same for every node. -/
theorem transformDown_eq (visit : Visitor σ ε) (plan : LogicalPlan) :
    transformDown visit plan =
      visit plan >>= fun v => v.resume (plan.inputs.mapM (transformDown visit)) := by
  cases plan with
  | other kind exprs inputs schema => rw [transformDown, transformAll_eq_mapM]; rfl
  | _ => simp [transformDown, LogicalPlan.inputs]

/-- Nodes walked one after the other, the state passed along. -/
inductive Walked (R : LogicalPlan → σ → LogicalPlan → σ → Prop) :
    List LogicalPlan → σ → List LogicalPlan → σ → Prop where
  | nil (s : σ) : Walked R [] s [] s
  | cons {p p' : LogicalPlan} {ps ps' : List LogicalPlan} {s s₁ s₂ : σ} :
    R p s p' s₁ → Walked R ps s₁ ps' s₂ → Walked R (p :: ps) s (p' :: ps') s₂

theorem Walked.length_eq {R : LogicalPlan → σ → LogicalPlan → σ → Prop} {ps ps' : List LogicalPlan}
    {s s' : σ} (h : Walked R ps s ps' s') : ps'.length = ps.length := by
  induction h with
  | nil => rfl
  | cons _ _ ih => simp [ih]

variable {visit : Visitor σ ε}

private theorem mapM_walked {R : LogicalPlan → σ → LogicalPlan → σ → Prop}
    (ps : List LogicalPlan)
    (hR : ∀ p ∈ ps, ∀ s p' s', transformDown visit p s = (.ok p', s') → R p s p' s')
    {s s' : σ} {ps' : List LogicalPlan}
    (h : ps.mapM (transformDown visit) s = (.ok ps', s')) : Walked R ps s ps' s' := by
  induction ps generalizing s ps' with
  | nil =>
    obtain ⟨rfl, rfl⟩ : [] = ps' ∧ s = s' := by simpa [Pass.pure_run] using h
    exact .nil s
  | cons p ps ih =>
    rw [List.mapM_cons] at h
    obtain ⟨p', s₁, hp, h⟩ := Pass.bind_eq_ok.mp h
    obtain ⟨ps₁, s₂, hps, h⟩ := Pass.bind_eq_ok.mp h
    obtain ⟨rfl, rfl⟩ : p' :: ps₁ = ps' ∧ s₂ = s' := by
      simpa [Pass.pure_run] using h
    exact .cons (hR p (List.mem_cons_self ..) s p' s₁ hp)
      (ih (fun q hq => hR q (List.mem_cons_of_mem _ hq)) hps)

private theorem resume_ok {v : Visit} {inputs : Pass σ ε (List LogicalPlan)}
    {s s' : σ} {plan' : LogicalPlan} (h : v.resume inputs s = (.ok plan', s')) :
    (v = .jump plan' ∧ s = s') ∨
      ∃ node kids, v = .descend node ∧ inputs s = (.ok kids, s') ∧ plan' = node.withInputs kids := by
  cases v with
  | jump node =>
    obtain ⟨rfl, rfl⟩ : node = plan' ∧ s = s' := by
      simpa [Visit.resume, Pass.pure_run] using h
    exact .inl ⟨rfl, rfl⟩
  | descend node =>
    obtain ⟨kids, s₁, hkids, h⟩ := Pass.bind_eq_ok.mp h
    obtain ⟨hplan, rfl⟩ : node.withInputs kids = plan' ∧ s₁ = s' := by
      simpa [Pass.pure_run] using h
    exact .inr ⟨node, kids, rfl, hkids, hplan.symm⟩

theorem LogicalPlan.sizeOf_input {plan q : LogicalPlan} (h : q ∈ plan.inputs) :
    sizeOf q < sizeOf plan := by
  cases plan with
  | tableScan | emptyRelation => exact absurd h (by simp [LogicalPlan.inputs])
  | other kind exprs inputs schema =>
    have := List.sizeOf_lt_of_mem (show q ∈ inputs from h)
    simp only [LogicalPlan.other.sizeOf_spec]
    omega
  | filter predicate input =>
    obtain rfl : q = input := by simpa [LogicalPlan.inputs] using h
    simp
  | _ =>
    simp only [LogicalPlan.inputs, List.mem_singleton] at h
    subst h
    simp
    omega

/-- What holds of a plan once it holds of its inputs holds of every plan. -/
theorem LogicalPlan.inputs_induction {motive : LogicalPlan → Prop}
    (step : ∀ plan : LogicalPlan, (∀ q ∈ plan.inputs, motive q) → motive plan) :
    ∀ plan, motive plan := by
  intro plan
  induction hn : sizeOf plan using Nat.strong_induction_on generalizing plan with
  | _ n ih =>
    subst hn
    exact step plan fun q hq => ih _ (LogicalPlan.sizeOf_input hq) q rfl

/-- **The rule for walks**: a relation between what goes in and what comes out
holds of every walk that succeeds if it holds of each replacement, and of a
node walked through once it holds of the inputs in turn. -/
theorem transformDown_induct {R : LogicalPlan → σ → LogicalPlan → σ → Prop}
    (hjump : ∀ plan s node s', visit plan s = (.ok (.jump node), s') → R plan s node s')
    (hdescend : ∀ plan s node s₁ kids s₂, visit plan s = (.ok (.descend node), s₁) →
      Walked R plan.inputs s₁ kids s₂ → R plan s (node.withInputs kids) s₂)
    (plan : LogicalPlan) :
    ∀ s plan' s', transformDown visit plan s = (.ok plan', s') → R plan s plan' s' := by
  induction plan using LogicalPlan.inputs_induction with
  | step plan ih =>
    intro s plan' s' h
    rw [transformDown_eq] at h
    obtain ⟨v, s₁, hv, h⟩ := Pass.bind_eq_ok.mp h
    obtain ⟨rfl, rfl⟩ | ⟨node, kids, rfl, hkids, rfl⟩ := resume_ok h
    · exact hjump plan s plan' s₁ hv
    · exact hdescend plan s node s₁ kids s' hv (mapM_walked plan.inputs ih hkids)

/-- A visitor that never fails gives a walk that never fails. -/
theorem transformDown_total (h : ∀ plan s, ∃ v s', visit plan s = (.ok v, s')) (plan : LogicalPlan) :
    ∀ s, ∃ plan' s', transformDown visit plan s = (.ok plan', s') := by
  induction plan using LogicalPlan.inputs_induction with
  | step plan ih =>
    have hkids : ∀ ps : List LogicalPlan,
        (∀ p ∈ ps, ∀ s, ∃ p' s', transformDown visit p s = (.ok p', s')) →
        ∀ s, ∃ ps' s', ps.mapM (transformDown visit) s = (.ok ps', s') := by
      intro ps
      induction ps with
      | nil => exact fun _ s => ⟨[], s, rfl⟩
      | cons p ps ihps =>
        intro hps s
        obtain ⟨p', s₁, hp⟩ := hps p (List.mem_cons_self ..) s
        obtain ⟨ps', s₂, hps'⟩ := ihps (fun q hq => hps q (List.mem_cons_of_mem _ hq)) s₁
        refine ⟨p' :: ps', s₂, ?_⟩
        rw [List.mapM_cons]
        exact Pass.bind_eq_ok.mpr ⟨_, _, hp, Pass.bind_eq_ok.mpr ⟨_, _, hps', rfl⟩⟩
    intro s
    obtain ⟨v, s₁, hv⟩ := h plan s
    rw [transformDown_eq]
    cases v with
    | jump node => exact ⟨node, s₁, Pass.bind_eq_ok.mpr ⟨_, _, hv, rfl⟩⟩
    | descend node =>
      obtain ⟨kids, s₂, hk⟩ := hkids plan.inputs ih s₁
      exact ⟨node.withInputs kids, s₂,
        Pass.bind_eq_ok.mpr ⟨_, _, hv, Pass.bind_eq_ok.mpr ⟨_, _, hk, rfl⟩⟩⟩

end TransformDown

namespace LogicalPlan

theorem inputs_withInputs (plan : LogicalPlan) {kids : List LogicalPlan}
    (h : kids.length = plan.inputs.length) : (plan.withInputs kids).inputs = kids := by
  cases plan with
  | other => rfl
  | tableScan | emptyRelation =>
    obtain rfl := List.length_eq_zero_iff.mp h
    rfl
  | _ =>
    obtain ⟨k, rfl⟩ := List.length_eq_one_iff.mp h
    rfl

@[simp] theorem exprs_withInputs (plan : LogicalPlan) (kids : List LogicalPlan) :
    (plan.withInputs kids).exprs = plan.exprs := by
  unfold withInputs
  split <;> rfl

@[simp] theorem isTableScan_withInputs (plan : LogicalPlan) (kids : List LogicalPlan) :
    (plan.withInputs kids).isTableScan = plan.isTableScan := by
  unfold withInputs
  split <;> rfl

end LogicalPlan

/-! ### Occurrences -/

/-- Where a node stands: the nodes it is an input of, nearest first, up to the
root or to the subquery expression that holds it (`nested`). -/
structure Site where
  above : List LogicalPlan
  nested : Bool

namespace Site

/-- The place of the inputs of a node. -/
def under (site : Site) (node : LogicalPlan) : Site := {site with above := node :: site.above}

/-- The place of a plan held by a subquery expression. -/
def inSubquery : Site := ⟨[], true⟩

/-- The place of the whole plan. -/
def root : Site := ⟨[], false⟩

@[simp] theorem under_above (site : Site) (node : LogicalPlan) :
    (site.under node).above = node :: site.above := rfl

@[simp] theorem under_nested (site : Site) (node : LogicalPlan) :
    (site.under node).nested = site.nested := rfl

end Site

mutual

/-- The plan nodes inside an expression. -/
def Expr.occurrences : Expr → List (Site × LogicalPlan)
  | .column _ => []
  | .literal _ => []
  | .alias expr _ => expr.occurrences
  | .binaryExpr left _ right => left.occurrences ++ right.occurrences
  | .cast expr _ => expr.occurrences
  | .aggregateFunction _ args _ filter orderBy =>
    Expr.allOccurrences args ++ Expr.optionOccurrences filter ++ Expr.allOccurrences orderBy
  | .subquery _ args subquery _ => Expr.allOccurrences args ++ subquery.occurrencesAt .inSubquery
  | .other _ args => Expr.allOccurrences args

def Expr.allOccurrences : List Expr → List (Site × LogicalPlan)
  | [] => []
  | e :: es => e.occurrences ++ Expr.allOccurrences es

def Expr.optionOccurrences : Option Expr → List (Site × LogicalPlan)
  | none => []
  | some e => e.occurrences

/-- A node at the given site and every plan node under it. -/
def LogicalPlan.occurrencesAt (site : Site) : LogicalPlan → List (Site × LogicalPlan)
  | .tableScan tableName schema filters =>
    (site, .tableScan tableName schema filters) :: Expr.allOccurrences filters
  | .emptyRelation produceOneRow schema => [(site, .emptyRelation produceOneRow schema)]
  | .projection expr input schema =>
    (site, .projection expr input schema) ::
      (Expr.allOccurrences expr ++ input.occurrencesAt (site.under (.projection expr input schema)))
  | .filter predicate input =>
    (site, .filter predicate input) ::
      (predicate.occurrences ++ input.occurrencesAt (site.under (.filter predicate input)))
  | .aggregate groupExpr aggrExpr input schema =>
    (site, .aggregate groupExpr aggrExpr input schema) ::
      (Expr.allOccurrences groupExpr ++ Expr.allOccurrences aggrExpr ++
        input.occurrencesAt (site.under (.aggregate groupExpr aggrExpr input schema)))
  | .contractApproved contractId tenantId input schema =>
    (site, .contractApproved contractId tenantId input schema) ::
      input.occurrencesAt (site.under (.contractApproved contractId tenantId input schema))
  | .laplaceNoise column scaleStr input schema =>
    (site, .laplaceNoise column scaleStr input schema) ::
      input.occurrencesAt (site.under (.laplaceNoise column scaleStr input schema))
  | .other kind exprs inputs schema =>
    (site, .other kind exprs inputs schema) ::
      (Expr.allOccurrences exprs ++
        LogicalPlan.allOccurrencesAt (site.under (.other kind exprs inputs schema)) inputs)

def LogicalPlan.allOccurrencesAt (site : Site) : List LogicalPlan → List (Site × LogicalPlan)
  | [] => []
  | p :: ps => p.occurrencesAt site ++ LogicalPlan.allOccurrencesAt site ps

end

/-- Every plan node of a plan, with its site. -/
def LogicalPlan.occurrences (plan : LogicalPlan) : List (Site × LogicalPlan) :=
  plan.occurrencesAt .root

theorem Expr.allOccurrences_eq (es : List Expr) :
    Expr.allOccurrences es = es.flatMap Expr.occurrences := by
  induction es with
  | nil => rfl
  | cons e es ih => rw [Expr.allOccurrences, List.flatMap_cons, ih]

theorem LogicalPlan.allOccurrencesAt_eq (site : Site) (ps : List LogicalPlan) :
    LogicalPlan.allOccurrencesAt site ps = ps.flatMap (LogicalPlan.occurrencesAt site) := by
  induction ps with
  | nil => rfl
  | cons p ps ih => rw [LogicalPlan.allOccurrencesAt, List.flatMap_cons, ih]

/-- A node, the plans inside its expressions, and its inputs. -/
theorem LogicalPlan.occurrencesAt_eq (site : Site) (plan : LogicalPlan) :
    plan.occurrencesAt site = (site, plan) :: (plan.exprs.flatMap Expr.occurrences ++
      plan.inputs.flatMap (LogicalPlan.occurrencesAt (site.under plan))) := by
  cases plan <;>
    simp [LogicalPlan.occurrencesAt, LogicalPlan.exprs, LogicalPlan.inputs,
      Expr.allOccurrences_eq, LogicalPlan.allOccurrencesAt_eq]

/-- The nodes of a plan are the same wherever it stands. -/
theorem LogicalPlan.nodes_at (plan : LogicalPlan) : ∀ site : Site,
    (plan.occurrencesAt site).map Prod.snd = plan.occurrences.map Prod.snd := by
  induction plan using LogicalPlan.inputs_induction with
  | step plan ih =>
    intro site
    have hinputs (place : Site) :
        (plan.inputs.flatMap (LogicalPlan.occurrencesAt place)).map Prod.snd =
          plan.inputs.flatMap fun p => p.occurrences.map Prod.snd := by
      rw [List.map_flatMap]
      exact List.flatMap_congr fun p hp => ih p hp place
    rw [LogicalPlan.occurrences, LogicalPlan.occurrencesAt_eq site, LogicalPlan.occurrencesAt_eq .root]
    simp only [List.map_cons, List.map_append, hinputs]

mutual

private theorem Expr.nested_occurrences : ∀ (e : Expr), ∀ o ∈ e.occurrences, o.1.nested = true
  | .column _ => by simp [Expr.occurrences]
  | .literal _ => by simp [Expr.occurrences]
  | .alias expr _ => by simpa [Expr.occurrences] using Expr.nested_occurrences expr
  | .binaryExpr left _ right => by
    intro o ho
    rw [Expr.occurrences, List.mem_append] at ho
    exact ho.elim (Expr.nested_occurrences left o) (Expr.nested_occurrences right o)
  | .cast expr _ => by simpa [Expr.occurrences] using Expr.nested_occurrences expr
  | .aggregateFunction _ args _ filter orderBy => by
    intro o ho
    rw [Expr.occurrences, List.mem_append, List.mem_append] at ho
    obtain (ho | ho) | ho := ho
    · exact Expr.nested_allOccurrences args o ho
    · exact Expr.nested_optionOccurrences filter o ho
    · exact Expr.nested_allOccurrences orderBy o ho
  | .subquery _ args subquery _ => by
    intro o ho
    rw [Expr.occurrences, List.mem_append] at ho
    obtain ho | ho := ho
    · exact Expr.nested_allOccurrences args o ho
    · exact LogicalPlan.nested_of_nested subquery .inSubquery rfl o ho
  | .other _ args => by simpa [Expr.occurrences] using Expr.nested_allOccurrences args

private theorem Expr.nested_allOccurrences :
    ∀ (es : List Expr), ∀ o ∈ Expr.allOccurrences es, o.1.nested = true
  | [] => by simp [Expr.allOccurrences]
  | e :: es => by
    intro o ho
    rw [Expr.allOccurrences, List.mem_append] at ho
    exact ho.elim (Expr.nested_occurrences e o) (Expr.nested_allOccurrences es o)

private theorem Expr.nested_optionOccurrences :
    ∀ (e : Option Expr), ∀ o ∈ Expr.optionOccurrences e, o.1.nested = true
  | none => by simp [Expr.optionOccurrences]
  | some e => by simpa [Expr.optionOccurrences] using Expr.nested_occurrences e

private theorem LogicalPlan.nested_of_nested : ∀ (plan : LogicalPlan) (site : Site),
    site.nested = true → ∀ o ∈ plan.occurrencesAt site, o.1.nested = true
  | .tableScan _ _ filters, site, h => by
    intro o ho
    rw [LogicalPlan.occurrencesAt, List.mem_cons] at ho
    obtain rfl | ho := ho
    · exact h
    · exact Expr.nested_allOccurrences filters o ho
  | .emptyRelation _ _, site, h => by simpa [LogicalPlan.occurrencesAt] using h
  | .projection expr input _, site, h => by
    intro o ho
    rw [LogicalPlan.occurrencesAt, List.mem_cons, List.mem_append] at ho
    obtain rfl | ho | ho := ho
    · exact h
    · exact Expr.nested_allOccurrences expr o ho
    · exact LogicalPlan.nested_of_nested input (site.under _) h o ho
  | .filter predicate input, site, h => by
    intro o ho
    rw [LogicalPlan.occurrencesAt, List.mem_cons, List.mem_append] at ho
    obtain rfl | ho | ho := ho
    · exact h
    · exact Expr.nested_occurrences predicate o ho
    · exact LogicalPlan.nested_of_nested input (site.under _) h o ho
  | .aggregate groupExpr aggrExpr input _, site, h => by
    intro o ho
    rw [LogicalPlan.occurrencesAt, List.mem_cons, List.mem_append, List.mem_append] at ho
    obtain rfl | (ho | ho) | ho := ho
    · exact h
    · exact Expr.nested_allOccurrences groupExpr o ho
    · exact Expr.nested_allOccurrences aggrExpr o ho
    · exact LogicalPlan.nested_of_nested input (site.under _) h o ho
  | .contractApproved _ _ input _, site, h => by
    intro o ho
    rw [LogicalPlan.occurrencesAt, List.mem_cons] at ho
    obtain rfl | ho := ho
    · exact h
    · exact LogicalPlan.nested_of_nested input (site.under _) h o ho
  | .laplaceNoise _ _ input _, site, h => by
    intro o ho
    rw [LogicalPlan.occurrencesAt, List.mem_cons] at ho
    obtain rfl | ho := ho
    · exact h
    · exact LogicalPlan.nested_of_nested input (site.under _) h o ho
  | .other _ exprs inputs _, site, h => by
    intro o ho
    rw [LogicalPlan.occurrencesAt, List.mem_cons, List.mem_append] at ho
    obtain rfl | ho | ho := ho
    · exact h
    · exact Expr.nested_allOccurrences exprs o ho
    · exact LogicalPlan.allNested_of_nested inputs (site.under _) h o ho

private theorem LogicalPlan.allNested_of_nested : ∀ (ps : List LogicalPlan) (site : Site),
    site.nested = true → ∀ o ∈ LogicalPlan.allOccurrencesAt site ps, o.1.nested = true
  | [], _, _ => by simp [LogicalPlan.allOccurrencesAt]
  | p :: ps, site, h => by
    intro o ho
    rw [LogicalPlan.allOccurrencesAt, List.mem_append] at ho
    exact ho.elim (LogicalPlan.nested_of_nested p site h o)
      (LogicalPlan.allNested_of_nested ps site h o)

end

/-- Plan nodes inside the expressions of a node are nested. -/
theorem LogicalPlan.nested_exprs (plan : LogicalPlan) :
    ∀ o ∈ plan.exprs.flatMap Expr.occurrences, o.1.nested = true := by
  intro o ho
  obtain ⟨e, -, ho⟩ := List.mem_flatMap.mp ho
  exact e.nested_occurrences o ho

end Griot.Logical
