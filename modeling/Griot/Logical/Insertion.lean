import Griot.Logical.Traverse
import Mathlib.Algebra.Order.BigOperators.Group.List

/-! Passes that put nodes above nodes.

A visitor with targets rests at every other node and replaces a target by nodes above it,
without walking on. What it makes of a plan is related to the plan by every relation that
such insertions keep (`Inserting.walk`); it is larger where there is a target
(`Inserting.grows`), and the plan as it was where there is none (`Inserting.rests`). -/
namespace Griot.Logical

open Lib

/-! ### Nodes of a plan -/

/-- A node of the plan; plans inside expressions are not looked at. -/
inductive Within (q : LogicalPlan) : LogicalPlan → Prop
  | root : Within q q
  | input {plan p : LogicalPlan} : p ∈ plan.inputs → Within q p → Within q plan

/-- The node is put over the plan, with nothing or other nodes between. -/
inductive Over (plan : LogicalPlan) : LogicalPlan → Prop
  | one {node : LogicalPlan} : plan ∈ node.inputs → Over plan node
  | more {p node : LogicalPlan} : Over plan p → p ∈ node.inputs → Over plan node

/-- Some node of the plan is of the kind. -/
def Has (kind : LogicalPlan → Prop) (plan : LogicalPlan) : Prop := ∃ q, Within q plan ∧ kind q

theorem has_iff {kind : LogicalPlan → Prop} {plan : LogicalPlan} :
    Has kind plan ↔ kind plan ∨ ∃ p ∈ plan.inputs, Has kind p := by
  constructor
  · intro h
    obtain ⟨q, hwithin, hq⟩ := h
    cases hwithin with
    | root => exact .inl hq
    | input hp hwithin => exact .inr ⟨_, hp, q, hwithin, hq⟩
  · intro h
    obtain hplan | ⟨p, hp, q, hwithin, hq⟩ := h
    · exact ⟨plan, .root, hplan⟩
    · exact ⟨q, .input hp hwithin, hq⟩

namespace LogicalPlan

def size : LogicalPlan → Nat
  | tableScan .. => 1
  | emptyRelation .. => 1
  | projection _ input _ => input.size + 1
  | filter _ input => input.size + 1
  | aggregate _ _ input _ => input.size + 1
  | contractApproved _ _ input _ => input.size + 1
  | laplaceNoise _ _ input _ => input.size + 1
  | other _ _ inputs _ => sizes inputs + 1
where
  sizes : List LogicalPlan → Nat
    | [] => 0
    | p :: ps => p.size + sizes ps

theorem sizes_eq (ps : List LogicalPlan) : size.sizes ps = (ps.map size).sum := by
  induction ps with
  | nil => rfl
  | cons p ps ih => rw [size.sizes, ih, List.map_cons, List.sum_cons]

/-- The node and its inputs. -/
theorem size_eq (plan : LogicalPlan) : plan.size = (plan.inputs.map size).sum + 1 := by
  cases plan with
  | other kind exprs ps schema => rw [size, sizes_eq, inputs]
  | _ => simp [size, inputs]

theorem size_input {plan p : LogicalPlan} (h : p ∈ plan.inputs) : p.size < plan.size := by
  have := List.le_sum_of_mem (List.mem_map_of_mem (f := size) h)
  rw [size_eq plan]
  omega

@[simp] theorem extensionName_withInputs (plan : LogicalPlan) (kids : List LogicalPlan) :
    (plan.withInputs kids).extensionName = plan.extensionName := by
  unfold withInputs
  split
  case h_6 kind _ _ _ => cases kind <;> rfl
  all_goals rfl

theorem withInputs_inputs (plan : LogicalPlan) : plan.withInputs plan.inputs = plan := by
  cases plan <;> rfl

/-- The inputs can be put back. -/
theorem withInputs_withInputs (plan : LogicalPlan) {kids : List LogicalPlan}
    (h : kids.length = plan.inputs.length) : (plan.withInputs kids).withInputs plan.inputs = plan := by
  cases plan with
  | other => rfl
  | tableScan | emptyRelation =>
    obtain rfl := List.length_eq_zero_iff.mp h
    rfl
  | _ =>
    obtain ⟨kid, rfl⟩ := List.length_eq_one_iff.mp h
    rfl

end LogicalPlan

/-! ### Relations that insertions keep -/

/-- The relation is kept when nodes are put over the inputs of the plan and over the plan. -/
structure Kept (R : LogicalPlan → LogicalPlan → Prop) : Prop where
  inputs {plan : LogicalPlan} {kids : List LogicalPlan} : List.Forall₂ R plan.inputs kids →
    R plan (plan.withInputs kids)
  above {plan p node : LogicalPlan} : R plan p → p ∈ node.inputs → R plan node

theorem Kept.refl {R : LogicalPlan → LogicalPlan → Prop} (hR : Kept R) (plan : LogicalPlan) :
    R plan plan := by
  induction plan using LogicalPlan.inputs_induction with
  | step plan ih =>
    have hkids : List.Forall₂ R plan.inputs plan.inputs := List.forall₂_same.mpr ih
    simpa only [LogicalPlan.withInputs_inputs] using hR.inputs hkids

theorem Kept.of_over {R : LogicalPlan → LogicalPlan → Prop} (hR : Kept R)
    {plan node : LogicalPlan} (h : Over plan node) : R plan node := by
  induction h with
  | one hmem => exact hR.above (hR.refl plan) hmem
  | more _ hmem ih => exact hR.above ih hmem

theorem kept_size : Kept fun plan plan' => plan.size ≤ plan'.size where
  inputs {plan kids} h := by
    have hlength := h.length_eq
    rw [LogicalPlan.size_eq plan, LogicalPlan.size_eq (plan.withInputs kids),
      plan.inputs_withInputs hlength.symm]
    have : (plan.inputs.map LogicalPlan.size).sum ≤ (kids.map LogicalPlan.size).sum :=
      List.Forall₂.sum_le_sum (List.forall₂_map_left_iff.mpr (List.forall₂_map_right_iff.mpr h))
    omega
  above h hmem := h.trans (LogicalPlan.size_input hmem).le

theorem Over.size_lt {plan node : LogicalPlan} (h : Over plan node) : plan.size < node.size := by
  induction h with
  | one hmem => exact LogicalPlan.size_input hmem
  | more _ hmem ih => exact ih.trans (LogicalPlan.size_input hmem)

/-- Inputs that grow in turn grow in all. -/
theorem sum_size_lt {kind : LogicalPlan → Prop} {ps ps' : List LogicalPlan}
    (h : List.Forall₂ (fun p p' => p.size ≤ p'.size ∧ (Has kind p → p.size < p'.size)) ps ps') :
    (ps.map LogicalPlan.size).sum ≤ (ps'.map LogicalPlan.size).sum ∧
      ((∃ p ∈ ps, Has kind p) →
        (ps.map LogicalPlan.size).sum < (ps'.map LogicalPlan.size).sum) := by
  induction h with
  | nil => exact ⟨le_rfl, fun h => absurd h (by simp)⟩
  | @cons p p' ps ps' hhead _ ih =>
    simp only [List.map_cons, List.sum_cons]
    obtain ⟨hle, hlt⟩ := hhead
    obtain ⟨hsum, hsumLt⟩ := ih
    refine ⟨by omega, fun h => ?_⟩
    obtain ⟨q, hq, hhas⟩ := h
    obtain rfl | hq := List.mem_cons.mp hq
    · have := hlt hhas
      omega
    · have := hsumLt ⟨q, hq, hhas⟩
      omega

/-- What a node is, whatever its inputs, is not lost. -/
theorem kept_has {kind : LogicalPlan → Prop}
    (h : ∀ plan kids, kind plan → kind (plan.withInputs kids)) :
    Kept fun plan plan' => Has kind plan → Has kind plan' where
  inputs {plan kids} hkids hplan := by
    rw [has_iff, plan.inputs_withInputs hkids.length_eq.symm]
    obtain hplan | ⟨p, hp, hhas⟩ := has_iff.mp hplan
    · exact .inl (h plan kids hplan)
    · obtain ⟨k, hk, hpk⟩ := exists_of_forall₂ hkids hp
      exact .inr ⟨k, hk, hpk hhas⟩
  above h hmem hplan := has_iff.mpr (.inr ⟨_, hmem, h hplan⟩)

/-! ### Visitors that insert -/

/-- The walk from a node with one input. -/
theorem transformDown_descend {σ ε : Type} {visit : Visitor σ ε} {plan p p' : LogicalPlan}
    {s s' : σ} (hinputs : plan.inputs = [p]) (hvisit : visit plan s = (.ok (.descend plan), s))
    (hrun : transformDown visit p s = (.ok p', s')) :
    transformDown visit plan s = (.ok (plan.withInputs [p']), s') := by
  have hkids : plan.inputs.mapM (transformDown visit) s = (.ok [p'], s') := by
    rw [hinputs, List.mapM_cons]
    exact Pass.bind_eq_ok.mpr ⟨p', s', hrun, rfl⟩
  rw [transformDown_eq]
  exact Pass.bind_eq_ok.mpr ⟨_, s, hvisit, Pass.bind_eq_ok.mpr ⟨_, s', hkids, rfl⟩⟩

/-- **A walk that comes by everywhere** fails exactly where some node fails. -/
theorem transformDown_ok_iff {σ ε : Type} {visit : Visitor σ ε} {fails : LogicalPlan → Prop}
    (hvisit : ∀ q s, (fails q ∧ ∃ e s', visit q s = (.error e, s')) ∨
      ¬fails q ∧ ∃ node s', visit q s = (.ok (.descend node), s')) (plan : LogicalPlan) :
    ∀ s, (∃ plan' s', transformDown visit plan s = (.ok plan', s')) ↔ ¬Has fails plan := by
  induction plan using LogicalPlan.inputs_induction with
  | step plan ih =>
    have hkids : ∀ ps : List LogicalPlan, (∀ p ∈ ps, ∀ s,
        (∃ p' s', transformDown visit p s = (.ok p', s')) ↔ ¬Has fails p) → ∀ s,
        (∃ ps' s', ps.mapM (transformDown visit) s = (.ok ps', s')) ↔ ∀ p ∈ ps, ¬Has fails p := by
      intro ps
      induction ps with
      | nil => exact fun _ s => iff_of_true ⟨[], s, rfl⟩ fun p hp => absurd hp List.not_mem_nil
      | cons p ps ihps =>
        intro hps s
        rw [List.forall_mem_cons] at hps ⊢
        rw [List.mapM_cons]
        constructor
        · intro ⟨ps', s', h⟩
          obtain ⟨p', s₁, hp, h⟩ := Pass.bind_eq_ok.mp h
          obtain ⟨rest, s₂, hrest, -⟩ := Pass.bind_eq_ok.mp h
          exact ⟨(hps.1 s).mp ⟨p', s₁, hp⟩, (ihps hps.2 s₁).mp ⟨rest, s₂, hrest⟩⟩
        · intro ⟨hp, hrest⟩
          obtain ⟨p', s₁, hp⟩ := (hps.1 s).mpr hp
          obtain ⟨rest, s₂, hrest⟩ := (ihps hps.2 s₁).mpr hrest
          exact ⟨p' :: rest, s₂, Pass.bind_eq_ok.mpr ⟨_, _, hp,
            Pass.bind_eq_ok.mpr ⟨_, _, hrest, rfl⟩⟩⟩
    intro s
    rw [transformDown_eq, has_iff, not_or, not_exists]
    obtain ⟨hfails, e, s', hv⟩ | ⟨hfails, node, s₁, hv⟩ := hvisit plan s
    · refine iff_of_false (fun ⟨plan', s'', h⟩ => ?_) fun h => h.1 hfails
      obtain ⟨v, s₁, hok, -⟩ := Pass.bind_eq_ok.mp h
      cases hv.symm.trans hok
    · have hinputs := hkids plan.inputs ih s₁
      constructor
      · intro ⟨plan', s', h⟩
        obtain ⟨v, s₂, hv', h⟩ := Pass.bind_eq_ok.mp h
        obtain ⟨hnode, rfl⟩ := Prod.mk.inj (hv.symm.trans hv')
        obtain rfl := Except.ok.inj hnode
        obtain ⟨kids, s₃, hk, -⟩ := Pass.bind_eq_ok.mp h
        exact ⟨hfails, fun p hp => (hinputs.mp ⟨kids, s₃, hk⟩) p hp.1 hp.2⟩
      · intro ⟨_, hnone⟩
        obtain ⟨kids, s₂, hk⟩ := hinputs.mpr fun p hp hhas => hnone p ⟨hp, hhas⟩
        exact ⟨node.withInputs kids, s₂, Pass.bind_eq_ok.mpr ⟨_, _, hv,
          Pass.bind_eq_ok.mpr ⟨_, _, hk, rfl⟩⟩⟩

/-- A visitor that only walks on leaves the plan and the state as they are. -/
theorem transformDown_rests {σ ε : Type} {visit : Visitor σ ε} {plan : LogicalPlan} {s : σ}
    (h : ∀ q, Within q plan → visit q s = (.ok (.descend q), s)) :
    transformDown visit plan s = (.ok plan, s) := by
  induction plan using LogicalPlan.inputs_induction with
  | step plan ih =>
    have hinputs : ∀ ps : List LogicalPlan, (∀ p ∈ ps, transformDown visit p s = (.ok p, s)) →
        ps.mapM (transformDown visit) s = (.ok ps, s) := by
      intro ps
      induction ps with
      | nil => exact fun _ => rfl
      | cons p ps ihps =>
        intro hps
        have hrest := ihps fun q hq => hps q (List.mem_cons_of_mem _ hq)
        rw [List.mapM_cons]
        exact Pass.bind_eq_ok.mpr ⟨p, s, hps p List.mem_cons_self,
          Pass.bind_eq_ok.mpr ⟨ps, s, hrest, rfl⟩⟩
    have hkids := hinputs plan.inputs fun p hp => ih p hp fun q hq => h q (.input hp hq)
    rw [transformDown_eq]
    refine Pass.bind_eq_ok.mpr ⟨_, s, h plan .root, Pass.bind_eq_ok.mpr ⟨_, s, hkids, ?_⟩⟩
    rw [plan.withInputs_inputs]
    rfl

/-- A visitor that puts nodes over the targets. A state that is not clean is one from which the
pass cannot succeed any more. -/
structure Inserting {σ ε : Type} (visit : Visitor σ ε) (target : LogicalPlan → Prop)
    (clean : σ → Prop) : Prop where
  rest {q : LogicalPlan} {s : σ} : ¬ target q → clean s → visit q s = (.ok (.descend q), s)
  act {q : LogicalPlan} {s s' : σ} {v : Visit} : target q → clean s → visit q s = (.ok v, s') →
    clean s' → ∃ node, v = .jump node ∧ Over q node
  dirty {q : LogicalPlan} {s s' : σ} {v : Visit} : ¬ clean s → visit q s = (.ok v, s') → ¬ clean s'

theorem Walked.forall₂ {σ : Type} {R : LogicalPlan → σ → LogicalPlan → σ → Prop}
    {Q : LogicalPlan → LogicalPlan → Prop} {clean : σ → Prop}
    (hR : ∀ p s p' s', R p s p' s' → clean s' → clean s ∧ Q p p') {ps ps' : List LogicalPlan}
    {s s' : σ} (h : Walked R ps s ps' s') (hclean : clean s') :
    clean s ∧ List.Forall₂ Q ps ps' := by
  induction h with
  | nil => exact ⟨hclean, .nil⟩
  | cons hhead _ ih =>
    obtain ⟨hmid, htail⟩ := ih hclean
    obtain ⟨hstart, hQ⟩ := hR _ _ _ _ hhead hmid
    exact ⟨hstart, .cons hQ htail⟩

/-- The rule for walks, for a relation of plans alone. -/
theorem transformDown_relates {σ ε : Type} {visit : Visitor σ ε}
    {Q : LogicalPlan → LogicalPlan → Prop}
    (hjump : ∀ p s node s', visit p s = (.ok (.jump node), s') → Q p node)
    (hdescend : ∀ p s node s' kids, visit p s = (.ok (.descend node), s') →
      List.Forall₂ Q p.inputs kids → Q p (node.withInputs kids))
    {plan plan' : LogicalPlan} {s s' : σ} (h : transformDown visit plan s = (.ok plan', s')) :
    Q plan plan' := by
  refine transformDown_induct (R := fun p _ p' _ => Q p p') hjump ?_ plan s plan' s' h
  intro p s node s₁ kids s₂ hvisit hwalked
  have hkids : True ∧ List.Forall₂ Q p.inputs kids :=
    Walked.forall₂ (Q := Q) (fun _ _ _ _ hp _ => ⟨trivial, hp⟩) hwalked trivial
  exact hdescend p s node s₁ kids hvisit hkids.2

namespace Inserting
variable {σ ε : Type} {visit : Visitor σ ε} {target : LogicalPlan → Prop} {clean : σ → Prop}

/-- One step: a target is replaced, any other node is walked on from. -/
theorem step (h : Inserting visit target clean) {q : LogicalPlan} {s s' : σ} {v : Visit}
    (hvisit : visit q s = (.ok v, s')) (hclean : clean s') :
    clean s ∧ ((target q ∧ ∃ node, v = .jump node ∧ Over q node) ∨
      ¬ target q ∧ v = .descend q ∧ s = s') := by
  have hstart : clean s := by
    by_contra hdirty
    exact h.dirty hdirty hvisit hclean
  refine ⟨hstart, ?_⟩
  by_cases htarget : target q
  · exact .inl ⟨htarget, h.act htarget hstart hvisit hclean⟩
  · rw [h.rest htarget hstart] at hvisit
    obtain ⟨hv, rfl⟩ := Prod.mk.inj hvisit
    exact .inr ⟨htarget, (Except.ok.inj hv).symm, rfl⟩

/-- **What is made of a plan stands in every relation that insertions keep.** -/
theorem walk (h : Inserting visit target clean) {R : LogicalPlan → LogicalPlan → Prop}
    (hR : Kept R) {plan plan' : LogicalPlan} {s s' : σ}
    (hrun : transformDown visit plan s = (.ok plan', s')) (hclean : clean s') : R plan plan' := by
  refine (transformDown_induct (R := fun p s p' s' => clean s' → clean s ∧ R p p') ?_ ?_
    plan s plan' s' hrun hclean).2
  · intro p s node s' hvisit hclean
    obtain ⟨hstart, ⟨-, _, hjump, hover⟩ | ⟨-, hdescend, -⟩⟩ := h.step hvisit hclean
    · obtain rfl := Visit.jump.inj hjump
      exact ⟨hstart, hR.of_over hover⟩
    · cases hdescend
  · intro p s node s₁ kids s₂ hvisit hwalked hclean
    obtain ⟨hmid, hkids⟩ := hwalked.forall₂ (fun _ _ _ _ h => h) hclean
    obtain ⟨hstart, ⟨-, _, hjump, -⟩ | ⟨-, hdescend, -⟩⟩ := h.step hvisit hmid
    · cases hjump
    · obtain rfl := Visit.descend.inj hdescend
      exact ⟨hstart, hR.inputs hkids⟩

/-- **A plan without targets stays as it is**, and so does the state. -/
theorem rests (h : Inserting visit target clean) {plan : LogicalPlan} {s : σ} (hclean : clean s)
    (hnone : ¬ Has target plan) : transformDown visit plan s = (.ok plan, s) :=
  transformDown_rests fun _ hwithin =>
    h.rest (fun htarget => hnone ⟨_, hwithin, htarget⟩) hclean

/-- **A plan with a target grows.** -/
theorem grows (h : Inserting visit target clean) {plan plan' : LogicalPlan} {s s' : σ}
    (hrun : transformDown visit plan s = (.ok plan', s')) (hclean : clean s')
    (hhas : Has target plan) : plan.size < plan'.size := by
  refine (transformDown_induct (R := fun p s p' s' => clean s' → clean s ∧ p.size ≤ p'.size ∧
    (Has target p → p.size < p'.size)) ?_ ?_ plan s plan' s' hrun hclean).2.2 hhas
  · intro p s node s' hvisit hclean
    obtain ⟨hstart, ⟨-, _, hjump, hover⟩ | ⟨-, hdescend, -⟩⟩ := h.step hvisit hclean
    · obtain rfl := Visit.jump.inj hjump
      have hlt : p.size < node.size := hover.size_lt
      exact ⟨hstart, hlt.le, fun _ => hlt⟩
    · cases hdescend
  · intro p s node s₁ kids s₂ hvisit hwalked hclean
    obtain ⟨hmid, hkids⟩ := hwalked.forall₂ (fun _ _ _ _ h => h) hclean
    obtain ⟨hstart, ⟨-, _, hjump, -⟩ | ⟨hrest, hdescend, -⟩⟩ := h.step hvisit hmid
    · cases hjump
    · obtain rfl := Visit.descend.inj hdescend
      obtain ⟨hle, hlt⟩ := sum_size_lt hkids
      rw [LogicalPlan.size_eq node, LogicalPlan.size_eq (node.withInputs kids),
        node.inputs_withInputs hkids.length_eq.symm]
      refine ⟨hstart, by omega, fun hhas => ?_⟩
      have := hlt ((has_iff.mp hhas).resolve_left hrest)
      omega

end Inserting

end Griot.Logical
