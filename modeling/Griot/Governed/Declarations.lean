import Griot.Governed.Scan
import Griot.Physical.NoisedRows

/-! Whether the declared properties are true of governed rows.

The masking and the noise operator declare of the rows they emit what their input
declares of the rows before. That stays true of every input exactly when no masked
column changes its type and the masks, or the noise, keep what is declared of one row
and of two rows (`declared_truth_iff`). It does where no declared expression reads a
masked or a tagged column; an ordering that reads one is as a rule lost. -/
namespace Griot

open Lib Budget Physical
open LaplaceNoiseExec (Draw)
open Logical (MaskPolicy)

/-! ### Rows of a schema -/

/-- The cells of the row are of the types of the schema, nulls only where it allows them. -/
def Fits (schema : Schema) (row : Row) : Prop :=
  List.Forall₂ (fun field v => v.hasType field.dataType = true ∧
    (field.nullable = false → v ≠ .null)) schema row

theorem fits_of_mem {batch : RecordBatch} {row : Row} (h : row ∈ batch.rows) :
    Fits batch.schema row := by
  obtain ⟨i, hi, rfl⟩ := List.mem_map.mp h
  rw [List.mem_range] at hi
  rw [Fits, Lib.row, List.map_map, List.forall₂_map_right_iff]
  refine batch.fits.imp fun field col hcol => ?_
  have hmem : cell col.cells i ∈ col.cells := by
    have hi' : i < col.cells.length := hcol.length_eq ▸ hi
    simp [cell, hi']
  refine ⟨hcol.type_eq ▸ col.typed _ hmem, fun hnullable hnull => ?_⟩
  exact hcol.no_nulls hnullable (hnull ▸ hmem)

theorem batch_of_fits {schema : Schema} {row : Row} (h : Fits schema row) :
    ∃ batch : RecordBatch, batch.schema = schema ∧ batch.rows = [row] := by
  have hcolumns : ∃ columns, List.Forall₂ (Admits 1) schema columns ∧
      Lib.row (columns.map ArrayRef.cells) 0 = row := by
    induction h with
    | nil => exact ⟨[], .nil, rfl⟩
    | @cons field v schema row hv _ ih =>
      obtain ⟨columns, hfits, hrow⟩ := ih
      refine ⟨⟨field.dataType, [v], by simpa using hv.1⟩ :: columns, .cons ⟨rfl, ?_, rfl⟩ hfits, ?_⟩
      · intro hnullable
        simpa using (hv.2 hnullable).symm
      · rw [← hrow]
        rfl
  obtain ⟨columns, hfits, hrow⟩ := hcolumns
  exact ⟨⟨schema, columns, 1, hfits⟩, rfl, by rw [← hrow]; rfl⟩

/-- Rows that fit come as batches of one row. -/
theorem batches_of_deals {schema : Schema} {R : Row → Row → Prop} {deals deals' : List (Nat × Row)}
    (h : Declaration.Redealt R deals deals') (hfits : ∀ d ∈ deals, Fits schema d.2) :
    ∃ batches : List (Nat × RecordBatch),
      Declaration.Redealt (fun batch r => batch.schema = schema ∧ batch.rows = [r]) batches deals ∧
      Declaration.Redealt (fun batch r' => batch.schema = schema ∧
        ∃ r, batch.rows = [r] ∧ R r r') batches deals' := by
  induction h with
  | nil => exact ⟨[], .nil, .nil⟩
  | @cons d d' deals deals' hd _ ih =>
    rw [List.forall_mem_cons] at hfits
    obtain ⟨batch, hschema, hrows⟩ := batch_of_fits hfits.1
    obtain ⟨batches, hbatches, hbatches'⟩ := ih hfits.2
    exact ⟨(d.1, batch) :: batches, .cons ⟨rfl, hschema, hrows⟩ hbatches,
      .cons ⟨hd.1, hschema, d.2, hrows, hd.2⟩ hbatches'⟩

theorem emittedRows_deal {deals : List (Nat × RecordBatch)} {rows : List (Nat × Row)}
    {P : RecordBatch → Row → Prop} (h : Declaration.Redealt P deals rows)
    (hrows : ∀ batch r, P batch r → batch.rows = [r]) (p : Nat) :
    emittedRows ((Declaration.deal deals p).map .ok) = Declaration.deal rows p := by
  have hdeal := Declaration.deal_redealt h p
  generalize Declaration.deal deals p = batches at hdeal
  generalize Declaration.deal rows p = rows at hdeal
  induction hdeal with
  | nil => rfl
  | cons hbatch _ ih =>
    rw [List.map_cons, emittedRows_ok, ih, hrows _ _ hbatch]
    rfl

theorem fits_of_emitted {schema : Schema} {stream : BatchStream DataFusionError RecordBatch}
    (hschema : ∀ batch, .ok batch ∈ stream → batch.schema = schema) {r : Row}
    (h : r ∈ emittedRows stream) : Fits schema r := by
  obtain ⟨item, hitem, hr⟩ := List.mem_flatMap.mp h
  cases item with
  | error e => exact absurd hr (by simp)
  | ok batch => exact hschema batch hitem ▸ fits_of_mem hr

/-- A plan whose partitions emit batches that were dealt one by one. -/
def dealtPlan (D : PlanProperties) (deals : List (Nat × RecordBatch)) : InnerPlan :=
  ⟨true, D.eqProperties.schema, D, fun p => (Declaration.deal deals p).map .ok⟩

theorem dealtPlan_truthful {order : Comparator} {D : PlanProperties}
    {batches : List (Nat × RecordBatch)} {deals : List (Nat × Row)}
    (h : Declaration.Redealt (fun batch r => batch.schema = D.eqProperties.schema ∧
      batch.rows = [r]) batches deals) (hholds : (D.declaration order).Holds (Declaration.deal deals)) :
    (dealtPlan D batches).Truthful order where
  schema_eq := rfl
  batches := fun p batch hbatch => by
    have hmem : batch ∈ Declaration.deal batches p := by simpa [dealtPlan] using hbatch
    obtain ⟨r, -, hr⟩ := exists_of_forall₂ (Declaration.deal_redealt h p) hmem
    exact hr.1
  rows := by
    have hrows : (fun p => emittedRows ((dealtPlan D batches).execute p)) = Declaration.deal deals :=
      funext fun p => emittedRows_deal h (fun _ _ hr => hr.2) p
    rw [hrows]
    exact hholds

/-! ### Masked rows -/

/-- The action that the masking operator knows by this name. -/
def actionOf : MaskPolicy → MaskAction
  | .redact => .redact
  | .hashSha256 => .hashSha256
  | .partialMask => .partialMask
  | .null => .null
  | .noop => .noop
  | .tokenize => .tokenize

/-- The masks as a policy. -/
def maskPolicy (policies : Dict String MaskPolicy) : ResolvedPolicy :=
  {ResolvedPolicy.allowAll "" "" "" with columnMasks := policies.map actionOf}

theorem applies_maskPolicy (policies : Dict String MaskPolicy) :
    Applies (maskPolicy policies) policies := by
  intro column
  rw [ResolvedPolicy.actionFor, maskPolicy, Dict.lookup_map]
  cases policies.lookup column with
  | none => rfl
  | some policy => cases policy <;> rfl

/-- Every column has a value for its mask. -/
def AllMaskable (engine : Engine) (policies : Dict String MaskPolicy) (schema : Schema) : Prop :=
  ∀ field ∈ schema,
    Maskable engine field.dataType ((maskPolicy policies).actionFor field.name).toPolicy

section Masked
variable {engine : Engine} {policies : Dict String MaskPolicy} {schema : Schema}
  {bundle : ContractBundleHandle}

/-- The operator over an input of this schema. -/
abbrev maskingOp (bundle : ContractBundleHandle) (policies : Dict String MaskPolicy)
    (schema : Schema) : MaskingExec :=
  ⟨bundle, policies, MaskingExec.maskedOutputSchema schema policies⟩

theorem onBatch_rows {batch out : RecordBatch} (hschema : batch.schema = schema)
    (h : (maskingOp bundle policies schema).onBatch engine batch = .ok out) :
    out.rows = batch.rows.map (maskedRow engine (maskPolicy policies) schema) := by
  have hrows := (masking_rowWise bundle (applies_maskPolicy policies) _ batch hschema out h).2
  rw [List.filterMap_eq_map'] at hrows
  exact hrows

theorem onBatch_schema {batch out : RecordBatch} (hschema : batch.schema = schema)
    (htypes : MaskingExec.maskedOutputSchema schema policies = schema)
    (h : (maskingOp bundle policies schema).onBatch engine batch = .ok out) :
    out.schema = schema := by
  rw [MaskingExec.onBatch] at h
  split at h
  · exact Except.ok.inj h ▸ hschema
  · rw [mapError_ok, MaskingExec.applyMaskingToBatch, bind_eq_ok] at h
    obtain ⟨columns, -, h⟩ := h
    rw [mapError_ok] at h
    exact (RecordBatch.tryNew_ok h).1.trans htypes

theorem allMaskable_of_ok (htypes : TypeOnly engine) {batch out : RecordBatch}
    (hschema : batch.schema = schema)
    (h : (maskingOp bundle policies schema).onBatch engine batch = .ok out) :
    AllMaskable engine policies schema := by
  have hok := (masking_ok_iff htypes bundle (applies_maskPolicy policies) hschema).mp ⟨out, h⟩
  cases hempty : policies.isEmpty with
  | false => exact (hok hempty).2
  | true =>
    intro field _
    refine .inl ?_
    rw [← applies_maskPolicy policies, Dict.isEmpty_iff.mp hempty]
    rfl

theorem maskedRow_nil (p : ResolvedPolicy) (row : Row) : maskedRow engine p [] row = [] := rfl

/-- The rows that come out of masking, batches that fail left out. -/
theorem emittedRows_masked {stream : BatchStream DataFusionError RecordBatch}
    (hschema : ∀ batch, .ok batch ∈ stream → batch.schema = schema) :
    List.SublistForall₂ (fun r' r => r' = maskedRow engine (maskPolicy policies) schema r)
      (emittedRows (andThen stream ((maskingOp bundle policies schema).onBatch engine)))
      (emittedRows stream) := by
  have hkept : ∃ kept : List Row, kept.Sublist (emittedRows stream) ∧
      emittedRows (andThen stream ((maskingOp bundle policies schema).onBatch engine)) =
        kept.map (maskedRow engine (maskPolicy policies) schema) := by
    induction stream with
    | nil => exact ⟨[], .slnil, rfl⟩
    | cons item stream ih =>
      obtain ⟨kept, hsub, hrows⟩ := ih fun batch hbatch => hschema batch (List.mem_cons_of_mem _ hbatch)
      cases item with
      | error e => exact ⟨kept, hsub, hrows⟩
      | ok batch =>
        cases hout : (maskingOp bundle policies schema).onBatch engine batch with
        | error e =>
          refine ⟨kept, hsub.trans (List.sublist_append_right ..), ?_⟩
          rw [← hrows]
          show emittedRows ((maskingOp bundle policies schema).onBatch engine batch :: _) = _
          rw [hout]
          rfl
        | ok out =>
          refine ⟨batch.rows ++ kept, List.Sublist.append (.refl _) hsub, ?_⟩
          show emittedRows ((maskingOp bundle policies schema).onBatch engine batch :: _) = _
          rw [hout, emittedRows_ok, List.map_append,
            onBatch_rows (hschema batch (List.mem_cons_self ..)) hout]
          exact congrArg _ hrows
  obtain ⟨kept, hsub, hrows⟩ := hkept
  rw [hrows, List.sublistForall₂_map_left_iff]
  refine List.sublistForall₂_iff.mpr ⟨kept, List.forall₂_same.mpr fun _ _ => rfl, hsub⟩

end Masked

/-- The masks go with what is declared: no masked column changes its type and, where there
is a mask for every column, masking keeps what is declared of one row and of two. -/
structure MasksKeep (engine : Engine) (order : Comparator) (policies : Dict String MaskPolicy)
    (D : PlanProperties) : Prop where
  types : MaskingExec.maskedOutputSchema D.eqProperties.schema policies = D.eqProperties.schema
  rows : AllMaskable engine policies D.eqProperties.schema →
    (D.declaration order).Keeps (Fits D.eqProperties.schema)
      fun r r' => r' = maskedRow engine (maskPolicy policies) D.eqProperties.schema r

section Masking
variable {engine : Engine} {order : Comparator} {policies : Dict String MaskPolicy}
  {D : PlanProperties}

/-- **Masks that go with the declaration**: it stays true of every input. -/
theorem MasksKeep.truthful (bundle : ContractBundleHandle) (htypes : TypeOnly engine) {plan : InnerPlan}
    (h : MasksKeep engine order policies plan.properties) (hplan : plan.Truthful order) :
    Truthful order (MaskingExec.maskedOutputSchema plan.schema policies) plan.properties fun p =>
      andThen (plan.execute p) ((maskingOp bundle policies plan.schema).onBatch engine) := by
  obtain ⟨hschema, hbatches, hrows⟩ := hplan
  have hkeep := h
  rw [hschema] at hbatches
  obtain ⟨hsame, hkeeps⟩ := hkeep
  rw [hschema] at hsame hkeeps
  have hout : ∀ p out, .ok out ∈ andThen (plan.execute p)
      ((maskingOp bundle policies plan.schema).onBatch engine) →
      out.schema = plan.schema ∧ AllMaskable engine policies plan.schema := fun p out hmem => by
    obtain ⟨item, hitem, heq⟩ := List.mem_map.mp hmem
    obtain ⟨batch, rfl, hbatch⟩ := bind_eq_ok.mp heq
    exact ⟨onBatch_schema (hbatches p batch hitem) hsame hbatch,
      allMaskable_of_ok htypes (hbatches p batch hitem) hbatch⟩
  refine ⟨hschema.trans hsame.symm, fun p out hmem => by rw [hschema]; exact (hout p out hmem).1, ?_⟩
  by_cases hmaskable : AllMaskable engine policies plan.schema
  · exact (hkeeps hmaskable).holds hrows (fun p r hr => fits_of_emitted (hbatches p) hr)
      fun p => emittedRows_masked (hbatches p)
  · -- No batch is put out, so there are no rows.
    have hnone : ∀ p, emittedRows (andThen (plan.execute p)
        ((maskingOp bundle policies plan.schema).onBatch engine)) = [] := fun p => by
      refine List.eq_nil_iff_forall_not_mem.mpr fun r hr => ?_
      obtain ⟨item, hitem, hr⟩ := List.mem_flatMap.mp hr
      cases item with
      | error e => exact absurd hr (by simp)
      | ok out => exact hmaskable (hout p out hitem).2
    simp only [hnone]
    exact Declaration.holds_nil

/-- A declaration that stays true of every input says what the masks keep. -/
theorem masksKeep_of_truthful (bundle : ContractBundleHandle) (htypes : TypeOnly engine)
    (h : ∀ plan : InnerPlan, plan.hasContractApproved = true → plan.properties = D →
      plan.Truthful order → Truthful order (MaskingExec.maskedOutputSchema plan.schema policies) D
        fun p => andThen (plan.execute p) ((maskingOp bundle policies plan.schema).onBatch engine)) :
    MasksKeep engine order policies D where
  types :=
    (h (dealtPlan D []) rfl rfl (dealtPlan_truthful .nil Declaration.holds_nil)).schema_eq.symm
  rows := fun hmaskable => by
    by_cases hne : D.eqProperties.schema = []
    · refine .of_eq fun r r' hfits hr' => ?_
      rw [hr', hne, maskedRow_nil]
      rw [hne] at hfits
      exact (List.forall₂_nil_left_iff.mp hfits).symm
    refine Declaration.keeps_iff.mpr fun deals deals' hfits hredealt hholds => ?_
    obtain ⟨batches, hbatches, hbatches'⟩ := batches_of_deals hredealt hfits
    have htruthful := h (dealtPlan D batches) rfl rfl (dealtPlan_truthful hbatches hholds)
    have hrows : ∀ p, emittedRows (andThen ((Declaration.deal batches p).map .ok)
        ((maskingOp bundle policies D.eqProperties.schema).onBatch engine)) =
          Declaration.deal deals' p := fun p => by
      have hdeal := Declaration.deal_redealt hbatches' p
      generalize Declaration.deal batches p = batches at hdeal
      generalize Declaration.deal deals' p = rows at hdeal
      rw [andThen_map]
      induction hdeal with
      | nil => rfl
      | @cons batch r' batches rows hbatch _ ih =>
        obtain ⟨hschema, r, hr, rfl⟩ := hbatch
        obtain ⟨out, hout⟩ := (masking_ok_iff htypes bundle (applies_maskPolicy policies) hschema).mpr
          fun _ => ⟨hne, hmaskable⟩
        have hbind : (Except.ok batch >>= (maskingOp bundle policies
            D.eqProperties.schema).onBatch engine) = .ok out := hout
        rw [List.map_cons, hbind, emittedRows_ok, ih, onBatch_rows hschema hout, hr]
        rfl
    have heq : (fun p => emittedRows (andThen ((dealtPlan D batches).execute p)
        ((maskingOp bundle policies D.eqProperties.schema).onBatch engine))) =
          Declaration.deal deals' := funext hrows
    rw [← heq]
    exact htruthful.rows

end Masking

/-! ### Noised rows -/

/-- What the partitions have put out at some point of a run. The streams of the node and any
others that debit its tracker take turns in any order. -/
def Physical.LaplaceNoiseNode.Emits (rounding : F64.Rounding) (sampled : Draw → Prop)
    (node : LaplaceNoiseNode) (partitions : Nat → BatchStream DataFusionError RecordBatch) : Prop :=
  ∃ (ι : Type) (_ : DecidableEq ι) (ops : ι → LaplaceNoiseExec)
    (inputs : ι → BatchStream DataFusionError RecordBatch) (streamOf : Nat → ι)
    (schedule : List (ι × (Nat → Draw))),
    streamOf.Injective ∧ (∀ p, ops (streamOf p) = node.op) ∧
    (∀ p, inputs (streamOf p) = node.inner.execute p) ∧
    (∀ turn ∈ schedule, ∀ k, sampled (turn.2 k)) ∧
    partitions = fun p =>
      (((System.start node.op.budget inputs).run rounding ops schedule).streams (streamOf p)).output

/-- The noise goes with what is declared: where it is for the types of the tagged columns, it
keeps what is declared of one row and of two. -/
def NoiseKeeps (rounding : F64.Rounding) (order : Comparator) (sampled : Draw → Prop)
    (op : LaplaceNoiseExec) (D : PlanProperties) : Prop :=
  op.NoisableSchema D.eqProperties.schema → (D.declaration order).Keeps
    (Fits D.eqProperties.schema) (op.Noises rounding sampled D.eqProperties.schema)

section Noise
variable {rounding : F64.Rounding} {order : Comparator} {sampled : Draw → Prop}
  {D : PlanProperties}

/-- **Noise that goes with the declaration**: it stays true over every run. -/
theorem NoiseKeeps.truthful (hsampled : ∃ draw, sampled draw) {node : LaplaceNoiseNode}
    (h : NoiseKeeps rounding order sampled node.op node.inner.properties)
    (hplan : node.inner.Truthful order)
    {partitions : Nat → BatchStream DataFusionError RecordBatch}
    (hemits : node.Emits rounding sampled partitions) :
    Truthful order node.schema node.inner.properties partitions := by
  obtain ⟨ι, _, ops, inputs, streamOf, schedule, -, hops, hinputs, hdraws, rfl⟩ := hemits
  obtain ⟨hschema, hbatches, hrows⟩ := hplan
  have hrelays : ∀ p, Relays node.op rounding sampled (node.inner.execute p)
      (((System.start node.op.budget inputs).run rounding ops schedule).streams (streamOf p)) := fun p =>
    System.run_relays hsampled (hops p) hdraws (by
      rw [← hinputs p]
      exact .start)
  refine ⟨hschema, fun p batch hbatch => ((hrelays p).batch (hbatches p) hbatch).1, ?_⟩
  by_cases hnoisable : node.op.NoisableSchema node.inner.properties.eqProperties.schema
  · exact (h hnoisable).holds hrows (fun p r hr => fits_of_emitted (hbatches p) hr)
      fun p => (hrelays p).rows (hbatches p)
  · have hnone : ∀ p, emittedRows (((System.start node.op.budget inputs).run rounding ops schedule).streams
        (streamOf p)).output = [] := fun p => by
      refine List.eq_nil_iff_forall_not_mem.mpr fun r hr => ?_
      obtain ⟨item, hitem, hr⟩ := List.mem_flatMap.mp hr
      cases item with
      | error e => exact absurd hr (by simp)
      | ok out => exact hnoisable ((hrelays p).batch (hbatches p) hitem).2
    simp only [hnone]
    exact Declaration.holds_nil

/-- A declaration that stays true over every run says what the noise keeps. -/
theorem noiseKeeps_of_truthful {op : LaplaceNoiseExec} (hbudget : op.budget.enabled = false)
    (h : ∀ plan : InnerPlan, plan.hasContractApproved = true → plan.properties = D →
      plan.Truthful order → ∀ partitions, LaplaceNoiseNode.Emits rounding sampled ⟨op, plan, D⟩ partitions →
        Truthful order plan.schema D partitions) : NoiseKeeps rounding order sampled op D := by
  intro hnoisable
  by_cases hne : D.eqProperties.schema = []
  · refine .of_eq fun r r' hfits hr' => ?_
    rw [hne] at hfits hr'
    obtain ⟨draws, -, rfl⟩ := hr'
    exact (List.forall₂_nil_left_iff.mp hfits).symm
  cases htagged : op.dpColumns.isEmpty with
  | true =>
    refine .of_eq fun r r' hfits hr' => ?_
    obtain ⟨draws, -, rfl⟩ := hr'
    exact LaplaceNoiseExec.noisedRow_untagged htagged draws hfits.length_eq.symm
  | false =>
    refine Declaration.keeps_iff.mpr fun deals deals' hfits hredealt hholds => ?_
    obtain ⟨batches, hbatches, hbatches'⟩ := batches_of_deals hredealt hfits
    let inputs : Nat → BatchStream DataFusionError RecordBatch := (dealtPlan D batches).execute
    obtain ⟨schedule, hdraws, hrun⟩ := System.run_deals rounding htagged hne hnoisable hbatches'
      (s := System.start op.budget inputs) hbudget (fun _ => rfl) (fun _ => rfl)
    have htruthful := h (dealtPlan D batches) rfl rfl (dealtPlan_truthful hbatches hholds) _
      ⟨Nat, inferInstance, fun _ => op, inputs, id, schedule, Function.injective_id,
        fun _ => rfl, fun _ => rfl, hdraws, rfl⟩
    have heq : (fun p => emittedRows
        (((System.start op.budget inputs).run rounding (fun _ => op) schedule).streams p).output) =
          Declaration.deal deals' := funext hrun
    rw [← heq]
    exact htruthful.rows

end Noise

/-! ### Declared truth -/

/-- **Declared truth**: what the masking operator declares is true of the rows it emits, over
every input of which its declaration `D` is true and after every exchange, exactly when the
masks of the bundle go with `D`; and so it is for the noise operator, over every run. -/
theorem declared_truth_iff {engine : Engine} (htypes : TypeOnly engine) (order : Comparator)
    {sampled : Draw → Prop} (hsampled : ∃ draw, sampled draw) (serde : SerdeJson)
    (bundle : ContractBundleHandle) (D : PlanProperties) :
    ((∀ node, MaskingNode.Reachable serde bundle node → node.inner.properties = D →
        node.inner.Truthful order →
        Truthful order node.schema node.properties (node.execute engine)) ↔
      ∀ policies, MaskingExec.parseMaskingBundle serde bundle = .ok policies →
        MasksKeep engine order policies D) ∧
    ((∀ tenantId budget node, LaplaceNoiseNode.Reachable serde bundle tenantId budget node →
        node.inner.properties = D → node.inner.Truthful order →
        ∀ partitions, node.Emits engine.rounding sampled partitions →
          Truthful order node.schema node.properties partitions) ↔
      ∀ tenantId budget op, LaplaceNoiseExec.ofBundle serde bundle tenantId budget = .ok op →
        NoiseKeeps engine.rounding order sampled op D) := by
  refine ⟨⟨fun h policies hparse => ?_, fun h node hnode hD hinner => ?_⟩,
    ⟨fun h tenantId budget op hop => ?_, fun h tenantId budget node hnode hD hinner partitions => ?_⟩⟩
  · refine masksKeep_of_truthful bundle htypes fun plan happroved hD hplan => ?_
    have hnode := MaskingNode.reachable_of_parse plan happroved hparse
    rw [hD] at hnode
    exact h _ hnode hD hplan
  · obtain ⟨policies, hparse, hop, hproperties⟩ := hnode.spec
    have hkeep := (hD ▸ h policies hparse).truthful bundle htypes hinner
    rw [hproperties, MaskingNode.schema, hop]
    have hexecute : node.execute engine = fun p => andThen (node.inner.execute p)
        ((maskingOp bundle policies node.inner.schema).onBatch engine) := by
      funext p
      rw [MaskingNode.execute, hop]
    rw [hexecute]
    exact hkeep
  · obtain ⟨dpColumns, hparse, hvalid, rfl⟩ := LaplaceNoiseExec.ofBundle_ok_iff.mp hop
    -- An operator of the same bundle without a budget to enforce makes the same noise.
    have hfree : LaplaceNoiseExec.ofBundle serde bundle tenantId .new =
        .ok ⟨bundle, .new, tenantId, dpColumns⟩ :=
      LaplaceNoiseExec.ofBundle_ok_iff.mpr ⟨dpColumns, hparse, hvalid, rfl⟩
    have hkeeps : NoiseKeeps engine.rounding order sampled ⟨bundle, .new, tenantId, dpColumns⟩ D :=
      noiseKeeps_of_truthful rfl fun plan happroved hD hplan partitions hemits => by
        have hnode := LaplaceNoiseNode.reachable_of_ofBundle plan happroved hfree
        rw [hD] at hnode
        exact h _ _ _ hnode hD hplan partitions hemits
    exact hkeeps
  · intro hemits
    obtain ⟨hop, hproperties⟩ := hnode.spec
    rw [hproperties]
    exact (hD ▸ h _ _ _ hop : NoiseKeeps engine.rounding order sampled node.op node.inner.properties).truthful
      hsampled hinner hemits

/-! ### Employees in order -/

/-- Numbers and texts as they are sorted. -/
def valueOrder : Comparator where
  compare := fun
    | .int64 i, .int64 j => Ord.compare i.toInt j.toInt
    | .utf8 s, .utf8 t => Ord.compare s t
    | _, _ => .eq
  hash := fun _ => 0

def employeeColumn (i : Nat) (dataType : DataType) : PhysicalExpr :=
  ⟨dataType, fun row => row.getD i .null, fun _ => none⟩

/-- One partition of employees in an order. -/
def orderedBy (keys : LexOrdering) : PlanProperties :=
  ⟨⟨employeeSchema, [], [keys], []⟩, .unknownPartitioning 1⟩

def ana : Row := [.utf8 "ana@acme.example", .boolean true, .int64 41]

def bob : Row := [.utf8 "bob@acme.example", .null, .int64 30]

def anaAndBob (keys : LexOrdering) : InnerPlan := dealtPlan (orderedBy keys) [(0, employees.slice 2)]

theorem anaAndBob_rows (keys : LexOrdering) :
    (fun p => emittedRows ((anaAndBob keys).execute p)) = Declaration.deal [(0, ana), (0, bob)] := by
  funext p
  rw [Declaration.deal_cons, Declaration.deal_cons]
  by_cases hp : 0 = p
  · subst hp
    show (employees.slice 2).rows ++ [] = _
    rw [RecordBatch.rows_slice]
    rfl
  · rw [anaAndBob, dealtPlan]
    simp only [Declaration.deal_cons, if_neg hp]
    rfl

theorem orderedBy_together {keys : LexOrdering} {r s : Row} :
    ((orderedBy keys).declaration valueOrder).Together 0 0 r s ↔
      keys.precedes valueOrder r s = true := by
  constructor
  · intro h
    exact (h.precedes rfl).1 keys (List.mem_singleton_self _)
  · intro h
    have hplaced : ∀ row, ((orderedBy keys).declaration valueOrder).placed 0 row := fun row =>
      ⟨Nat.one_pos, trivial, fun _ hexprs => absurd hexprs List.not_mem_nil,
        fun _ hc => absurd hc List.not_mem_nil⟩
    refine ⟨hplaced r, hplaced s, fun _ hc => absurd hc List.not_mem_nil,
      fun _ => ⟨fun keys' hkeys' => ?_, fun _ hc => absurd hc List.not_mem_nil⟩⟩
    rw [List.mem_singleton.mp hkeys']
    exact h

theorem anaAndBob_truthful {keys : LexOrdering} (h : keys.precedes valueOrder ana bob = true) :
    (anaAndBob keys).Truthful valueOrder where
  schema_eq := rfl
  batches := fun p batch hbatch => by
    have hmem : batch ∈ Declaration.deal [(0, employees.slice 2)] p := by
      simpa [anaAndBob, dealtPlan] using hbatch
    obtain ⟨-, rfl⟩ : p = 0 ∧ batch = employees.slice 2 := by simpa [Declaration.mem_deal] using hmem
    rfl
  rows := by
    rw [anaAndBob_rows]
    exact Declaration.holds_pair.mpr (orderedBy_together.mpr h)

/-- By age, the oldest first. -/
def oldestFirst : LexOrdering := [⟨employeeColumn 2 .int64, true, false⟩]

/-- By address and then by age. -/
def byAddress : LexOrdering :=
  [⟨employeeColumn 0 .utf8, false, false⟩, ⟨employeeColumn 2 .int64, false, false⟩]

/-- The bundle that masks addresses but for their last four characters. -/
def employeeBundle : ContractBundleHandle := employeePolicy.toBundleHandle employeeSerde

theorem anaAndBob_reachable (keys : LexOrdering) {policies : Dict String MaskPolicy}
    (h : MaskingExec.parseMaskingBundle employeeSerde employeeBundle = .ok policies) :
    MaskingNode.Reachable employeeSerde employeeBundle
      ⟨maskingOp employeeBundle policies employeeSchema, anaAndBob keys, orderedBy keys⟩ :=
  MaskingNode.reachable_of_parse (anaAndBob keys) rfl h

theorem maskedRow_employee {policies : Dict String MaskPolicy} (h : Applies employeePolicy policies)
    (row : Row) : maskedRow columnEngine (maskPolicy policies) employeeSchema row =
      maskedRow columnEngine employeePolicy employeeSchema row := by
  have haction : ∀ column, (maskPolicy policies).actionFor column = employeePolicy.actionFor column :=
    fun column => by
      have heq := (applies_maskPolicy policies column).symm.trans (h column)
      cases hleft : (maskPolicy policies).actionFor column <;>
        cases hright : employeePolicy.actionFor column <;> simp_all [MaskAction.toPolicy]
  simp only [maskedRow, haction]

theorem employeeSchema_masked {policies : Dict String MaskPolicy}
    (h : Applies employeePolicy policies) :
    MaskingExec.maskedOutputSchema employeeSchema policies = employeeSchema := by
  have hfield : ∀ field ∈ employeeSchema, MaskingExec.maskedField policies field = id field := by
    intro field hfield
    have hpolicy := h field.name
    rw [MaskingExec.maskedField]
    cases hlookup : policies.lookup field.name with
    | none => rfl
    | some policy =>
      rw [hlookup, Option.getD_some] at hpolicy
      simp only [employeeSchema, List.mem_cons, List.not_mem_nil, or_false] at hfield
      obtain rfl | rfl | rfl := hfield <;> rw [hpolicy] <;> rfl
  rw [MaskingExec.maskedOutputSchema, List.map_congr_left hfield, List.map_id]

/-- The order by age reads no address. -/
theorem oldestFirst_kept {policies : Dict String MaskPolicy} (h : Applies employeePolicy policies) :
    MasksKeep columnEngine valueOrder policies (orderedBy oldestFirst) where
  types := employeeSchema_masked h
  rows := fun _ => PlanProperties.keeps_of_unread fun e he row row' hfits hrow' => by
    obtain rfl := List.mem_singleton.mp (by simpa [PlanProperties.exprs, orderedBy, oldestFirst] using he)
    rw [hrow']
    show (maskedRow columnEngine (maskPolicy policies) employeeSchema row).getD 2 .null = row.getD 2 .null
    rw [maskedRow_employee h]
    cases hfits with
    | cons _ hrest => cases hrest with
      | cons _ hrest => cases hrest with
        | @cons _ v _ _ _ hrest =>
          cases hrest
          show maskedCell columnEngine .int64 (employeePolicy.actionFor "age") v = v
          cases v <;> rfl

/-- Masking addresses keeps employees in the order of their age. -/
theorem declared_truth_oldestFirst : ∃ policies,
    MaskingExec.parseMaskingBundle employeeSerde employeeBundle = .ok policies ∧
      Truthful valueOrder (MaskingExec.maskedOutputSchema employeeSchema policies)
        (orderedBy oldestFirst) fun p => andThen ((anaAndBob oldestFirst).execute p)
          ((maskingOp employeeBundle policies employeeSchema).onBatch columnEngine) := by
  obtain ⟨policies, hparse, happlies⟩ := ResolvedPolicy.parseMaskingBundle_eq employeeSerde_reads
  refine ⟨policies, hparse, ?_⟩
  refine (@declared_truth_iff columnEngine columnEngine_typeOnly valueOrder (fun _ => True)
    ⟨(.fin 0, .fin 0), trivial⟩ employeeSerde employeeBundle (orderedBy oldestFirst)).1.mpr ?_
    _ (anaAndBob_reachable oldestFirst hparse) rfl (anaAndBob_truthful (by decide))
  intro policies' hparse'
  obtain rfl := Except.ok.inj (hparse.symm.trans hparse')
  exact oldestFirst_kept happlies

/-- **An order that is lost**: two employees by address and then by age are not when their
addresses are masked, yet the operator declares that they are. -/
theorem masked_order_lost : ∃ node, MaskingNode.Reachable employeeSerde employeeBundle node ∧
    node.inner.Truthful valueOrder ∧ node.properties = orderedBy byAddress ∧
    ¬Truthful valueOrder node.schema node.properties (node.execute columnEngine) := by
  obtain ⟨policies, hparse, happlies⟩ := ResolvedPolicy.parseMaskingBundle_eq employeeSerde_reads
  refine ⟨_, anaAndBob_reachable byAddress hparse, anaAndBob_truthful (by decide), rfl,
    fun htruthful => ?_⟩
  obtain ⟨out, hout⟩ : ∃ out, (maskingOp employeeBundle policies employeeSchema).onBatch
      columnEngine (employees.slice 2) = .ok out :=
    (masking_ok_iff columnEngine_typeOnly employeeBundle happlies rfl).mpr
      (employees_enforceable policies).masks
  have hrows : emittedRows (andThen ((anaAndBob byAddress).execute 0)
      ((maskingOp employeeBundle policies employeeSchema).onBatch columnEngine)) =
        [maskedRow columnEngine employeePolicy employeeSchema ana,
          maskedRow columnEngine employeePolicy employeeSchema bob] := by
    show emittedRows [(maskingOp employeeBundle policies employeeSchema).onBatch columnEngine
      (employees.slice 2)] = _
    have hmasked : out.rows = (employees.slice 2).rows.map
        (maskedRow columnEngine (maskPolicy policies) employeeSchema) := onBatch_rows rfl hout
    rw [hout, emittedRows_ok, hmasked, RecordBatch.rows_slice,
      List.map_congr_left fun row _ => maskedRow_employee happlies row]
    rfl
  have hordered := htruthful.rows.ordered 0
  simp only [MaskingNode.execute, hrows, List.pairwise_cons, List.mem_singleton, forall_eq] at hordered
  have hprecedes := hordered.1.1.1 byAddress (List.mem_singleton_self _)
  revert hprecedes
  decide +kernel

end Griot
