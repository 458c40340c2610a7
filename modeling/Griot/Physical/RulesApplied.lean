import Griot.Lib.LabelTree
import Griot.Physical.EpsilonEnvelope

/-! The rules that an envelope lists.

The walk over the plan takes the name of an operator before those of its inputs. So the envelope
names every enforcement operator once, and an operator after those below it only where no
enforcement operator stands above another (`rulesApplied_order_iff`); above a filter, a mask or
noise built by its constructor there always is one (`stacked_of_requireApproved`). -/
namespace Griot.Physical.ExecutionPlan

open Lib

/-! ### The plan as a tree of names -/

/-- `plan.name()`, of the operators that are looked for. -/
def enforcementName : ExecutionPlan → Option String
  | contractApproved _ _ => some "ContractApprovedExec"
  | rowFilter _ _ => some "RowFilterExec"
  | masking _ _ => some "MaskingExec"
  | laplaceNoise _ _ => some "LaplaceNoiseExec"
  | attestation _ _ => some "AttestationExec"
  | _ => none

def nameTree (plan : ExecutionPlan) : LabelTree String :=
  .node plan.enforcementName (plan.children.attach.map fun child => child.1.nameTree)
termination_by sizeOf plan
decreasing_by exact sizeOf_child child.2

theorem nameTree_eq (plan : ExecutionPlan) :
    plan.nameTree = .node plan.enforcementName (plan.children.map nameTree) := by
  rw [nameTree]
  simp

theorem collectRulesAppliedAll_eq (plans : List ExecutionPlan) :
    collectRulesAppliedAll plans = plans.flatMap collectRulesApplied := by
  induction plans with
  | nil => rfl
  | cons plan plans ih => rw [collectRulesAppliedAll, ih, List.flatMap_cons]

/-- The walk, as the source states it. -/
theorem collectRulesApplied_eq (plan : ExecutionPlan) : plan.collectRulesApplied =
    plan.enforcementName.toList ++ plan.children.flatMap collectRulesApplied := by
  cases plan with
  | operator schemaOf run children =>
    rw [collectRulesApplied, collectRulesAppliedAll_eq]
    rfl
  | _ => simp [collectRulesApplied, enforcementName, children]

/-! ### What is listed and in which order -/

/-- The walk with the place of every operator that it names. -/
def listing (plan : ExecutionPlan) : List (Position × String) := plan.nameTree.listing

/-- An enforcement operator of that name is at the place. -/
def EnforcedAt (plan : ExecutionPlan) (place : Position) (name : String) : Prop :=
  plan.nameTree.LabelAt place name

/-- An enforcement operator stands above another. -/
def Stacked (plan : ExecutionPlan) : Prop := plan.nameTree.Stacked

/-- The entries belong to the enforcement operators, one to each, and have the names of the list. -/
structure ListsAll (plan : ExecutionPlan) (entries : List (Position × String))
    (rules : List String) : Prop where
  names : entries.map Prod.snd = rules
  once : (entries.map Prod.fst).Nodup
  operators : ∀ place name, (place, name) ∈ entries ↔ plan.EnforcedAt place name

theorem listing_names (plan : ExecutionPlan) :
    plan.listing.map Prod.snd = plan.collectRulesApplied := by
  induction plan using byChildren with
  | h plan ih =>
    rw [collectRulesApplied_eq, listing, nameTree_eq, LabelTree.listing_labels, List.flatMap_map]
    exact congrArg (_ ++ ·) (List.flatMap_congr ih)

theorem listsAll_listing (plan : ExecutionPlan) :
    plan.ListsAll plan.listing plan.collectRulesApplied :=
  ⟨plan.listing_names, plan.nameTree.nodup_listing, plan.nameTree.mem_listing_iff⟩

/-- Where no name comes twice the entries are those of the walk. -/
theorem ListsAll.unique {plan : ExecutionPlan} {entries : List (Position × String)}
    (h : plan.ListsAll entries plan.collectRulesApplied)
    (hdistinct : plan.collectRulesApplied.Nodup) : entries = plan.listing :=
  LabelTree.entries_eq (h.names.trans plan.listing_names.symm) (h.names ▸ hdistinct)
    fun e he => (plan.listsAll_listing.operators e.1 e.2).mpr ((h.operators e.1 e.2).mp he)

/-! ### What the guard of the constructors comes to -/

theorem labelled_of_marked {plan : ExecutionPlan} (h : Marked plan) : plan.nameTree.Labelled := by
  induction h with
  | @here plan h =>
    rw [nameTree_eq]
    cases plan with
    | contractApproved bundle inner => exact .here
    | _ => cases h
  | under hchild _ ih =>
    rw [nameTree_eq]
    exact .under (List.mem_map_of_mem hchild) ih

/-- Every filter, mask or noise that its constructor makes stands above a marker. -/
theorem stacked_of_requireApproved {operator name : String} {plan inner : ExecutionPlan}
    (hname : plan.enforcementName = some name) (hinner : inner ∈ plan.children)
    (h : requireApproved operator inner = .ok ()) : plan.Stacked := by
  have hmarked : Marked inner := by
    rw [requireApproved] at h
    split_ifs at h with happroved
    exact inner.hasContractApproved_iff.mp happroved
  rw [Stacked, nameTree_eq, hname]
  exact .here (List.mem_map_of_mem hinner) (labelled_of_marked hmarked)

/-! ### The list of an envelope -/

/-- **The rules of an envelope**: every enforcement operator is listed once, and those below it
first exactly if none stands above another. -/
theorem rulesApplied_order_iff {engine : Engine} {draws : Nat → Nat → Nat → LaplaceNoiseExec.Draw}
    {stamp : Stamp} {op : AttestationExec} {inner : ExecutionPlan} {batches : List RecordBatch}
    {envelope : AttestationEnvelope}
    (h : executeAttested engine draws stamp op inner = .ok (batches, envelope)) :
    inner.ListsAll inner.listing envelope.rulesApplied ∧
      (LabelTree.BottomUp inner.listing ↔ ¬ inner.Stacked) := by
  obtain ⟨resultHash, -, rfl⟩ := executeAttested_envelope h
  exact ⟨inner.listsAll_listing, inner.nameTree.listing_bottomUp_iff⟩

/-! ### The governed pipeline -/

/-- A source that the contract approved. -/
def approvedSource : ExecutionPlan := .contractApproved manifestHandle (.dataSource [] [])

/-- All four operators over a source without batches. -/
def governedPipeline : ExecutionPlan :=
  .laplaceNoise ⟨manifestHandle, .new, "acme", .empty⟩
    (.masking ⟨manifestHandle, .empty, []⟩ (.rowFilter ⟨manifestHandle, none⟩ approvedSource))

theorem execute_approvedSource :
    executeAttested idleEngine (fun _ _ _ => (.fin 0, .fin 0)) blankStamp manifestOp approvedSource =
      .ok ([], manifestOp.envelope blankStamp ["ContractApprovedExec"] "") := rfl

theorem rulesApplied_order_approved :
    approvedSource.ListsAll approvedSource.listing ["ContractApprovedExec"] ∧
      (LabelTree.BottomUp approvedSource.listing ↔ ¬ approvedSource.Stacked) :=
  rulesApplied_order_iff execute_approvedSource

/-- **The governed pipeline is listed from the top**, and no other reading of the list has an
operator after those below it. -/
theorem governed_from_the_top : ∃ batches envelope,
    executeAttested idleEngine (fun _ _ _ => (.fin 0, .fin 0)) blankStamp manifestOp
        governedPipeline = .ok (batches, envelope) ∧
      envelope.rulesApplied =
        ["LaplaceNoiseExec", "MaskingExec", "RowFilterExec", "ContractApprovedExec"] ∧
      ∀ entries, governedPipeline.ListsAll entries envelope.rulesApplied →
        ¬ LabelTree.BottomUp entries := by
  refine ⟨[], manifestOp.envelope blankStamp governedPipeline.collectRulesApplied "", rfl, rfl, ?_⟩
  intro entries hentries hbottomUp
  obtain rfl := hentries.unique (by decide)
  have hinner : requireApproved "LaplaceNoiseExec" (.masking ⟨manifestHandle, .empty, []⟩
      (.rowFilter ⟨manifestHandle, none⟩ approvedSource)) = .ok () := rfl
  have hstacked : governedPipeline.Stacked :=
    stacked_of_requireApproved rfl (List.mem_singleton.mpr rfl) hinner
  exact governedPipeline.nameTree.listing_bottomUp_iff.mp hbottomUp hstacked

end Griot.Physical.ExecutionPlan
