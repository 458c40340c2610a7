import Griot.Physical.EpsilonReport
import Griot.Physical.Provenance

/-! What an envelope says about the privacy loss.

Every noise operator of a plan has its own `epsilon_consumed`. The attestation operator
looks for one from the top down, the first input first: it does not look below a noise
operator, and the first that has something to report ends the search. So what it puts in
the envelope is the loss of one operator. That is the loss of the whole plan exactly when
no more than one operator reports any, and none below another noise operator does
(`accounts_iff`). -/
namespace Griot.Physical

open Lib LaplaceNoiseExec

/-- A run of a noise operator can leave this in its `epsilon_consumed`, and it is finite. -/
def Leaves (cell : Option F64) : Prop :=
  (∃ (ι : Type) (_ : DecidableEq ι) (r : F64.Rounding) (op : LaplaceNoiseExec)
    (inputs : ι → BatchStream DataFusionError RecordBatch) (schedule : List (ι × (Nat → Draw)))
    (s : System ι), op.Valid ∧ (metered r op inputs).Runs schedule (s, cell)) ∧
  ∀ x, cell = some x → x.isFinite = true

/-- What `epsilon_consumed` of the noise operators of a plan reads, each found by the
numbers of the inputs that lead to it. -/
structure EpsilonCells where
  read : List Nat → Option F64
  left : ∀ path, Leaves (read path)

theorem EpsilonCells.positive (cells : EpsilonCells) (path : List Nat) (x : F64)
    (h : cells.read path = some x) : ∃ q, x = .fin q ∧ 0 < q := by
  obtain ⟨⟨ι, _, r, op, inputs, schedule, s, -, hrun⟩, hfinite⟩ := cells.left path
  have hpos := cell_positive hrun h
  cases x with
  | fin q =>
    rw [F64.lt_finite (x := .fin 0) (y := .fin q) rfl rfl] at hpos
    exact ⟨q, rfl, of_decide_eq_true hpos⟩
  | negZero => cases hpos
  | inf negative => cases hfinite _ h
  | nan => cases hpos

/-- A noise operator of a plan, and whether there is another above it. -/
structure NoiseNode where
  path : List Nat
  below : Bool

/-- The envelope with the privacy loss. -/
structure LossEnvelope extends AttestationEnvelope where
  epsilonConsumed : Option F64
  deltaConsumed : Option F64

namespace ExecutionPlan

section
variable (cells : EpsilonCells)

mutual

/-- The search below the node at `path`. -/
def findEpsilonConsumed : ExecutionPlan → List Nat → Option F64
  | laplaceNoise _ _, path => cells.read path
  | dataSource _ _, _ => none
  | contractApproved _ inner, path => inner.findEpsilonConsumed (path ++ [0])
  | rowFilter _ inner, path => inner.findEpsilonConsumed (path ++ [0])
  | masking _ inner, path => inner.findEpsilonConsumed (path ++ [0])
  | attestation _ inner, path => inner.findEpsilonConsumed (path ++ [0])
  | projection _ inner, path => inner.findEpsilonConsumed (path ++ [0])
  | globalLimit _ inner, path => inner.findEpsilonConsumed (path ++ [0])
  | operator _ _ children, path => findEpsilonConsumedAll children path 0

/-- The search through inputs from number `i` on. -/
def findEpsilonConsumedAll : List ExecutionPlan → List Nat → Nat → Option F64
  | [], _, _ => none
  | plan :: plans, path, i => match plan.findEpsilonConsumed (path ++ [i]) with
    | some eps => some eps
    | none => findEpsilonConsumedAll plans path (i + 1)

end

/-- `execute_attested`: what `executeAttested` gives, with the privacy loss in the envelope. -/
def executeAttestedWithLoss (engine : Engine) (draws : Nat → Nat → Nat → Draw) (stamp : Stamp)
    (op : AttestationExec) (inner : ExecutionPlan) :
    Except (DataFusionError ⊕ PhysicalError) (List RecordBatch × LossEnvelope) :=
  (executeAttested engine draws stamp op inner).map fun result =>
    (result.1, ⟨result.2, inner.findEpsilonConsumed cells [], none⟩)

end

mutual

/-- The noise operators from the node at `path` on. -/
def noiseNodes : ExecutionPlan → Bool → List Nat → List NoiseNode
  | laplaceNoise _ inner, below, path => ⟨path, below⟩ :: inner.noiseNodes true (path ++ [0])
  | dataSource _ _, _, _ => []
  | contractApproved _ inner, below, path => inner.noiseNodes below (path ++ [0])
  | rowFilter _ inner, below, path => inner.noiseNodes below (path ++ [0])
  | masking _ inner, below, path => inner.noiseNodes below (path ++ [0])
  | attestation _ inner, below, path => inner.noiseNodes below (path ++ [0])
  | projection _ inner, below, path => inner.noiseNodes below (path ++ [0])
  | globalLimit _ inner, below, path => inner.noiseNodes below (path ++ [0])
  | operator _ _ children, below, path => noiseNodesAll children below path 0

def noiseNodesAll : List ExecutionPlan → Bool → List Nat → Nat → List NoiseNode
  | [], _, _, _ => []
  | plan :: plans, below, path, i =>
    plan.noiseNodes below (path ++ [i]) ++ noiseNodesAll plans below path (i + 1)

end

/-! ### What the search finds -/

/-- `plan.as_any().is::<LaplaceNoiseExec>()` -/
def isLaplaceNoise : ExecutionPlan → Bool
  | laplaceNoise _ _ => true
  | _ => false

/-- What an operator reports to the search: those below another one are not asked. -/
def exposedReading (cells : EpsilonCells) (node : NoiseNode) : Option F64 :=
  if node.below then none else cells.read node.path

theorem noiseNodes_eq (plan : ExecutionPlan) (below : Bool) (path : List Nat) :
    plan.noiseNodes below path = (if plan.isLaplaceNoise then [⟨path, below⟩] else []) ++
      noiseNodesAll plan.children (below || plan.isLaplaceNoise) path 0 := by
  cases plan with
  | operator schemaOf run inputs => simp [noiseNodes, isLaplaceNoise, children]
  | _ => simp [noiseNodes, noiseNodesAll, isLaplaceNoise, children]

/-- The search, as the source states it. -/
theorem findEpsilonConsumed_eq (cells : EpsilonCells) (plan : ExecutionPlan) (path : List Nat) :
    plan.findEpsilonConsumed cells path =
      if plan.isLaplaceNoise then cells.read path
      else findEpsilonConsumedAll cells plan.children path 0 := by
  have hone : ∀ inner : ExecutionPlan, findEpsilonConsumedAll cells [inner] path 0 =
      inner.findEpsilonConsumed cells (path ++ [0]) := by
    intro inner
    rw [findEpsilonConsumedAll]
    cases inner.findEpsilonConsumed cells (path ++ [0]) <;> rfl
  cases plan with
  | dataSource | laplaceNoise | operator => rfl
  | _ =>
    rw [if_neg (by simp [isLaplaceNoise]), children, hone]
    rfl

theorem noiseNodes_below (plan : ExecutionPlan) :
    ∀ path, ∀ node ∈ plan.noiseNodes true path, node.below = true := by
  induction plan using byChildren with
  | h plan ih =>
    intro path
    have hall : ∀ plans : List ExecutionPlan, (∀ child ∈ plans, child ∈ plan.children) →
        ∀ i, ∀ node ∈ noiseNodesAll plans true path i, node.below = true := by
      intro plans
      induction plans with
      | nil => exact fun _ _ node hnode => absurd hnode List.not_mem_nil
      | cons child plans ihall =>
        intro hsub i
        obtain ⟨hchild, hplans⟩ := List.forall_mem_cons.mp hsub
        rw [noiseNodesAll, List.forall_mem_append]
        exact ⟨ih child hchild _, ihall hplans (i + 1)⟩
    rw [noiseNodes_eq, List.forall_mem_append]
    refine ⟨?_, by simpa using hall plan.children (fun _ h => h) 0⟩
    intro node hnode
    cases hself : plan.isLaplaceNoise with
    | false => simp [hself] at hnode
    | true =>
      obtain rfl : node = ⟨path, true⟩ := by simpa [hself] using hnode
      rfl

/-- **The search** asks the operators that are not below another one, in order. -/
theorem findEpsilonConsumed_eq_findSome (cells : EpsilonCells) (plan : ExecutionPlan) :
    ∀ path, plan.findEpsilonConsumed cells path =
      (plan.noiseNodes false path).findSome? (exposedReading cells) := by
  induction plan using byChildren with
  | h plan ih =>
    intro path
    rw [findEpsilonConsumed_eq, noiseNodes_eq]
    cases hself : plan.isLaplaceNoise with
    | true =>
      have hbelow : (noiseNodesAll plan.children true path 0).findSome? (exposedReading cells) =
          none := by
        have hnode := noiseNodes_below plan path
        rw [noiseNodes_eq, List.forall_mem_append, Bool.true_or] at hnode
        rw [List.findSome?_eq_none_iff]
        intro node hmem
        rw [exposedReading, if_pos (hnode.2 node hmem)]
      simp [exposedReading, List.findSome?_cons, hbelow]
      cases cells.read path <;> rfl
    | false =>
      have hall : ∀ plans : List ExecutionPlan, (∀ child ∈ plans, child ∈ plan.children) →
          ∀ i, findEpsilonConsumedAll cells plans path i =
            (noiseNodesAll plans false path i).findSome? (exposedReading cells) := by
        intro plans
        induction plans with
        | nil => exact fun _ _ => rfl
        | cons child plans ihall =>
          intro hsub i
          obtain ⟨hchild, hplans⟩ := List.forall_mem_cons.mp hsub
          rw [findEpsilonConsumedAll, noiseNodesAll, List.findSome?_append, ih child hchild,
            ihall hplans]
          cases (child.noiseNodes false (path ++ [i])).findSome? (exposedReading cells) <;> rfl
      simpa using hall plan.children (fun _ h => h) 0

/-! ### The loss of a plan -/

/-- What the noise operators of a plan report, all of them. -/
def readings (cells : EpsilonCells) (plan : ExecutionPlan) : List F64 :=
  (plan.noiseNodes false []).filterMap fun node => cells.read node.path

/-- The sum of what the noise operators report, if there is anything. -/
def epsilonConsumed (cells : EpsilonCells) (plan : ExecutionPlan) : Option F64 :=
  match plan.readings cells with
  | [] => none
  | values => some (.fin (values.map fun x => x.toRat?.getD 0).sum)

/-- At most one noise operator reports anything, and it is not below another one. -/
structure OneReports (cells : EpsilonCells) (plan : ExecutionPlan) : Prop where
  one : (plan.readings cells).length ≤ 1
  exposed : ∀ node ∈ plan.noiseNodes false [], (cells.read node.path).isSome → node.below = false

theorem readings_positive {cells : EpsilonCells} {plan : ExecutionPlan} :
    ∀ x ∈ plan.readings cells, ∃ q, x = .fin q ∧ 0 < q := by
  intro x hx
  obtain ⟨node, -, hread⟩ := List.mem_filterMap.mp hx
  exact cells.positive node.path x hread

/-- Of several positive numbers none is the sum. -/
theorem ne_sum_of_two {x y : F64} {rest : List F64}
    (hpos : ∀ z ∈ x :: y :: rest, ∃ q, z = .fin q ∧ 0 < q) {z : F64} (hz : z ∈ x :: y :: rest) :
    z ≠ .fin ((x :: y :: rest).map fun x => x.toRat?.getD 0).sum := by
  have hvalue : ∀ z ∈ x :: y :: rest, z = .fin (z.toRat?.getD 0) ∧ 0 < z.toRat?.getD 0 := by
    intro z hz
    obtain ⟨q, rfl, hq⟩ := hpos z hz
    exact ⟨rfl, hq⟩
  have hle : ∀ z ∈ y :: rest,
      z.toRat?.getD 0 ≤ ((y :: rest).map fun x => x.toRat?.getD 0).sum := fun z hz =>
    List.single_le_sum (by
      intro q hq
      obtain ⟨w, hw, rfl⟩ := List.mem_map.mp hq
      exact (hvalue w (List.mem_cons_of_mem _ hw)).2.le) _ (List.mem_map_of_mem hz)
  intro heq
  have hsum : z.toRat?.getD 0 = x.toRat?.getD 0 + ((y :: rest).map fun x => x.toRat?.getD 0).sum := by
    rw [heq]
    rfl
  cases List.mem_cons.mp hz with
  | inl hzx =>
    subst hzx
    have hy := hle y List.mem_cons_self
    linarith [(hvalue y (List.mem_cons_of_mem _ List.mem_cons_self)).2]
  | inr hrest => linarith [hle z hrest, (hvalue x List.mem_cons_self).2]

theorem exposedReading_some {cells : EpsilonCells} {node : NoiseNode} {x : F64}
    (h : exposedReading cells node = some x) : node.below = false ∧ cells.read node.path = some x := by
  rw [exposedReading] at h
  split at h
  · cases h
  · rename_i hbelow
    exact ⟨by simpa using hbelow, h⟩

/-- A single reading is that of a single operator. -/
theorem readings_singleton {cells : EpsilonCells} {plan : ExecutionPlan} {x : F64}
    (h : plan.readings cells = [x]) :
    ∃ node ∈ plan.noiseNodes false [], cells.read node.path = some x ∧
      ∀ other ∈ plan.noiseNodes false [], (cells.read other.path).isSome → other = node := by
  obtain ⟨before, node, after, hnodes, hbefore, hx, hafter⟩ := List.filterMap_eq_cons_iff.mp h
  rw [List.filterMap_eq_nil_iff] at hafter
  refine ⟨node, by simp [hnodes], hx, fun other hother hsome => ?_⟩
  rw [hnodes, List.mem_append, List.mem_cons] at hother
  obtain hmem | rfl | hmem := hother
  · simp [hbefore other hmem] at hsome
  · rfl
  · simp [hafter other hmem] at hsome

/-- **When the search finds the loss of the whole plan.** -/
theorem findEpsilonConsumed_iff (cells : EpsilonCells) (plan : ExecutionPlan) :
    plan.findEpsilonConsumed cells [] = plan.epsilonConsumed cells ↔ OneReports cells plan := by
  rw [findEpsilonConsumed_eq_findSome]
  cases hread : plan.readings cells with
  | nil =>
    have hnone : ∀ node ∈ plan.noiseNodes false [], cells.read node.path = none :=
      List.filterMap_eq_nil_iff.mp hread
    rw [epsilonConsumed, hread]
    refine iff_of_true (List.findSome?_eq_none_iff.mpr fun node hnode => ?_) ⟨by simp [hread], ?_⟩
    · rw [exposedReading, hnone node hnode, ite_self]
    · intro node hnode hsome
      simp [hnone node hnode] at hsome
  | cons x rest =>
    cases rest with
    | nil =>
      obtain ⟨q, rfl, -⟩ := readings_positive x
        (show x ∈ plan.readings cells by simp [hread])
      obtain ⟨node, hnode, hx, honly⟩ := readings_singleton hread
      have hsum : plan.epsilonConsumed cells = some (.fin q) := by
        simp [epsilonConsumed, hread, F64.toRat?]
      rw [hsum]
      constructor
      · intro hfound
        obtain ⟨other, hother, hy⟩ := List.exists_of_findSome?_eq_some hfound
        obtain ⟨hexposed, hy⟩ := exposedReading_some hy
        obtain rfl := honly other hother (by simp [hy])
        refine ⟨by simp [hread], fun third hthird hsome => ?_⟩
        obtain rfl := honly third hthird hsome
        exact hexposed
      · intro h
        cases hfound : (plan.noiseNodes false []).findSome? (exposedReading cells) with
        | none =>
          have hnot := List.findSome?_eq_none_iff.mp hfound node hnode
          rw [exposedReading, h.exposed node hnode (by simp [hx]), if_neg (by simp), hx] at hnot
          cases hnot
        | some y =>
          obtain ⟨other, hother, hy⟩ := List.exists_of_findSome?_eq_some hfound
          obtain ⟨-, hy⟩ := exposedReading_some hy
          obtain rfl := honly other hother (by simp [hy])
          exact hy.symm.trans hx
    | cons y rest =>
      refine iff_of_false (fun hfound => ?_) fun h => absurd h.one (by simp [hread])
      rw [epsilonConsumed, hread] at hfound
      obtain ⟨node, hnode, hx⟩ := List.exists_of_findSome?_eq_some hfound
      refine ne_sum_of_two (hread ▸ readings_positive) ?_ rfl
      rw [← hread]
      exact List.mem_filterMap.mpr ⟨node, hnode, hread ▸ (exposedReading_some hx).2⟩

/-- **When the envelope accounts for every noise operator.** -/
theorem accounts_iff (cells : EpsilonCells) {engine : Engine} {draws : Nat → Nat → Nat → Draw}
    {stamp : Stamp} {op : AttestationExec} {inner : ExecutionPlan} {batches : List RecordBatch}
    {envelope : LossEnvelope}
    (h : executeAttestedWithLoss cells engine draws stamp op inner = .ok (batches, envelope)) :
    envelope.epsilonConsumed = inner.epsilonConsumed cells ↔ OneReports cells inner := by
  rw [executeAttestedWithLoss] at h
  cases hrun : executeAttested engine draws stamp op inner with
  | error e =>
    rw [hrun] at h
    cases h
  | ok result =>
    rw [hrun] at h
    obtain ⟨-, rfl⟩ := Prod.mk.inj (Except.ok.inj h)
    exact findEpsilonConsumed_iff cells inner

theorem leaves_one : Leaves (some (.fin 1)) := by
  have hcell : (salaryEnd id).2 = some (.fin 1) := by decide +kernel
  have hop : salaryExec.Valid := valid_of_newWithBudget salaryExec_build
  refine ⟨⟨Bool, inferInstance, .nearest, salaryExec, salaryInputs id, salaryTurns,
    (salaryEnd id).1, hop, ?_⟩, fun x hx => by cases hx; rfl⟩
  rw [← hcell]
  exact salaryEnd_runs id

/-- Every noise operator has spent one epsilon. -/
def oneEach : EpsilonCells := ⟨fun _ => some (.fin 1), fun _ => leaves_one⟩

def salaryNoise : ExecutionPlan := .laplaceNoise salaryExec salarySource

/-- The salaries of two sources, each with its own noise. -/
def salaryUnion : ExecutionPlan :=
  .operator List.flatten List.flatten [salaryNoise, salaryNoise]

/-- No filter and no mask: nothing is asked of the engine. -/
def idleEngine : Engine where
  sql := ⟨fun _ => .ok [], fun ident => ⟨none, ident⟩, fun _ => ""⟩
  dfSchema := fun _ => .ok ()
  createPhysicalExpr := fun _ _ => .error ""
  castFails := fun _ _ => none
  render := fun _ _ => none
  sha256Hex := fun _ => ""
  rounding := .nearest

def attestSalaries (inner : ExecutionPlan) :
    Except (DataFusionError ⊕ PhysicalError) (List RecordBatch × LossEnvelope) :=
  executeAttestedWithLoss oneEach idleEngine (fun _ _ _ => (.fin 0, .fin 0)) blankStamp manifestOp inner

theorem salarySource_noised : (salaryNoise.execute idleEngine fun _ _ _ => (.fin 0, .fin 0)) = [] := by
  rw [salaryNoise, execute]
  split <;> rfl

theorem accounts_iff_salary : ∃ batches envelope,
    attestSalaries salaryNoise = .ok (batches, envelope) ∧
      envelope.epsilonConsumed = salaryNoise.epsilonConsumed oneEach := by
  have hrun : attestSalaries salaryNoise = .ok ([], ⟨manifestOp.envelope blankStamp
      ["LaplaceNoiseExec", "ContractApprovedExec"] "", some (.fin 1), none⟩) := by
    rw [attestSalaries, executeAttestedWithLoss, executeAttested, salarySource_noised]
    rfl
  refine ⟨_, _, hrun, (accounts_iff oneEach hrun).mpr ⟨le_refl 1, fun node hnode _ => ?_⟩⟩
  obtain rfl : node = ⟨[], false⟩ := by
    simpa [salaryNoise, salarySource, noiseNodes] using hnode
  rfl

/-- One epsilon is attested, where two sources have spent one each. -/
theorem second_noise_unattested : ∃ batches envelope,
    attestSalaries salaryUnion = .ok (batches, envelope) ∧
      envelope.epsilonConsumed = some (.fin 1) ∧
      salaryUnion.epsilonConsumed oneEach = some (.fin 2) := by
  have hrun : (salaryUnion.execute idleEngine fun _ _ _ => (.fin 0, .fin 0)) = [] := by
    rw [salaryUnion, execute, executeAll, executeAll, executeAll, salarySource_noised]
    rfl
  refine ⟨[], ⟨manifestOp.envelope blankStamp
    ["LaplaceNoiseExec", "ContractApprovedExec", "LaplaceNoiseExec", "ContractApprovedExec"] "",
    some (.fin 1), none⟩, ?_, rfl, by decide +kernel⟩
  rw [attestSalaries, executeAttestedWithLoss, executeAttested, hrun]
  rfl

end ExecutionPlan
end Griot.Physical
