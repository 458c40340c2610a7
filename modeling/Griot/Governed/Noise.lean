import Griot.Contract.Validity
import Griot.Governed.Schema
import Griot.Governed.View
import Griot.Physical.NoisedStream

/-! Governed scans with noise.

A policy filters the rows, masks their cells and adds noise to the numbers it names
(`governedStream`); a scan that is drained yields these rows, whatever table is below
(`scan_noised`). A scan is refused for the policy or for the types of the columns it
masks, filters or adds noise to, and for nothing else (`scan_noised_ok_iff`): a mask
that makes a text of a number leaves nothing to add noise to. -/
namespace Griot

open Lib Physical Budget LaplaceNoiseExec
open Logical (MaskPolicy)

/-! ### The meaning of a policy with noise -/

section Meaning
variable (engine : Engine) (p : ResolvedPolicy) (schema : Schema)

/-- The columns as the masks leave them. -/
def ResolvedPolicy.maskedSchema : Schema :=
  schema.map fun field => {field with
    dataType := MaskingExec.maskedFieldType field.dataType (p.actionFor field.name).toPolicy}

/-- A number that is not null under noise of the scale of its column. -/
def ResolvedPolicy.noisedCell (draw : Draw) (field : Field) (v : Value) : Value :=
  match p.dpColumns.lookup field.name with
  | none => v
  | some d => match field.dataType with
    | .float64 => noiseFloat engine.rounding (engine.rounding.div d.sensitivity d.epsilon) draw v
    | .int64 => noiseInt engine.rounding (engine.rounding.div d.sensitivity d.epsilon) draw v
    | _ => v

def ResolvedPolicy.noisedRow (draws : Nat → Draw) (row : Row) : Row :=
  ((p.maskedSchema schema).zip row).mapIdx fun k x => p.noisedCell engine (draws k) x.1 x.2

/-- The rows of one batch: filter, mask, noise. -/
def governedBatch (draws : Nat → Nat → Draw) (rows : List Row) : List Row :=
  ((rows.filter (keeps engine p schema)).map (maskedRow engine p schema)).mapIdx fun j row =>
    p.noisedRow engine schema (fun k => draws k j) row

def itemRows : Except DataFusionError RecordBatch → List Row
  | .ok batch => batch.rows
  | .error _ => []

/-- **The governed rows with noise**, batch by batch; then the columns and the first rows that
the query asks for. -/
def governedStream (draws : Nat → Nat → Nat → Draw) (sel : Selection)
    (stream : BatchStream DataFusionError RecordBatch) : List Row :=
  sel.first ((stream.mapIdx fun n item =>
    governedBatch engine p schema (draws n) (itemRows item)).flatten.map sel.project)

/-- A policy without noise leaves masked rows as they are. -/
theorem noisedRow_maskedRow (hdp : p.dpColumns = .empty) (draws : Nat → Draw) (row : Row) :
    p.noisedRow engine schema draws (maskedRow engine p schema row) = maskedRow engine p schema row := by
  have hlength : (maskedRow engine p schema row).length ≤ (p.maskedSchema schema).length := by
    simp [maskedRow, ResolvedPolicy.maskedSchema]
  refine List.ext_getElem (by simp [ResolvedPolicy.noisedRow, Nat.min_eq_right hlength]) fun k hk hk' => ?_
  simp only [ResolvedPolicy.noisedRow, List.getElem_mapIdx, List.getElem_zip, ResolvedPolicy.noisedCell, hdp]
  rfl

/-- **Without noise the batches do not matter**: the governed rows are those of all rows. -/
theorem governedStream_eq (hdp : p.dpColumns = .empty) (draws : Nat → Nat → Nat → Draw) (sel : Selection)
    (stream : BatchStream DataFusionError RecordBatch) :
    governedStream engine p schema draws sel stream =
      governedRows engine p schema sel (stream.flatMap itemRows) := by
  have hbatch : ∀ draws rows, governedBatch engine p schema draws rows =
      (rows.filter (keeps engine p schema)).map (maskedRow engine p schema) := by
    intro draws rows
    refine List.ext_getElem (List.length_mapIdx ..) fun j hj hj' => ?_
    simp only [governedBatch, List.getElem_mapIdx, List.getElem_map]
    exact noisedRow_maskedRow engine p schema hdp _ _
  have hbatches : (stream.mapIdx fun n item => governedBatch engine p schema (draws n) (itemRows item)) =
      stream.map fun item => ((itemRows item).filter (keeps engine p schema)).map
        (maskedRow engine p schema) := by
    refine List.ext_getElem (by simp) fun n hn hn' => ?_
    simp only [List.getElem_mapIdx, List.getElem_map]
    exact hbatch _ _
  rw [governedStream, hbatches, governedRows, List.filter_flatMap, List.map_flatMap, List.flatMap_def]

/-- The columns that get noise are numbers, after masking. -/
def ResolvedPolicy.Noisable : Prop :=
  ∀ field ∈ p.maskedSchema schema, (p.dpColumns.lookup field.name).isSome →
    field.dataType = .float64 ∨ field.dataType = .int64

/-- There is a mask other than `noop`. -/
def ResolvedPolicy.Masks : Prop := ∃ column, p.actionFor column ≠ .noop

/-- The policy can be enforced on the batches of a schema. -/
structure ResolvedPolicy.Fits : Prop where
  filter : Filterable engine p schema
  masks : p.Masks → schema ≠ [] ∧
    ∀ field ∈ schema, Maskable engine field.dataType (p.actionFor field.name).toPolicy
  noise : p.hasDp = true → schema ≠ [] ∧ p.Noisable schema

/-- The contract has an id, and its parameters for noise are finite and positive. -/
structure ResolvedPolicy.Plannable : Prop where
  id : p.contractId ≠ ""
  finite : p.FiniteNoise
  positive : p.NoiseValid

/-- What the masking operator reads of the policy. -/
structure ResolvedPolicy.ReadsMasks (policies : Dict String MaskPolicy) : Prop where
  applies : Applies p policies
  masks : policies.isEmpty = false ↔ p.Masks

end Meaning

/-- The noise operator of a policy, with a tracker of its own that enforces nothing. -/
def ResolvedPolicy.noiseExec (serde : SerdeJson) (p : ResolvedPolicy) : LaplaceNoiseExec :=
  ⟨p.toBundleHandle serde, .new, p.tenantId, p.dpColumns.map fun d => (d.epsilon, d.sensitivity)⟩

section Operators
variable {engine : Engine} {serde : SerdeJson} {p : ResolvedPolicy} {schema : Schema}
  {policies : Dict String MaskPolicy}

theorem maskedOutputSchema_eq (happlies : Applies p policies) (schema : Schema) :
    MaskingExec.maskedOutputSchema schema policies = p.maskedSchema schema := by
  refine List.map_congr_left fun field _ => ?_
  rw [← happlies, MaskingExec.maskedField]
  cases policies.lookup field.name <;> rfl

theorem noiseExec_noisedCell (draw : Draw) (field : Field) (v : Value) :
    (p.noiseExec serde).noisedCell engine.rounding draw field v = p.noisedCell engine draw field v := by
  have hlookup : (p.noiseExec serde).dpColumns.lookup field.name =
      (p.dpColumns.lookup field.name).map fun d => (d.epsilon, d.sensitivity) := Dict.lookup_map ..
  rw [LaplaceNoiseExec.noisedCell, ResolvedPolicy.noisedCell, hlookup]
  cases p.dpColumns.lookup field.name <;> rfl

theorem noiseExec_noisedRows (draws : Nat → Nat → Draw) (rows : List Row) :
    (p.noiseExec serde).noisedRows engine.rounding draws (p.maskedSchema schema) rows =
      rows.mapIdx fun j row => p.noisedRow engine schema (fun k => draws k j) row := by
  have hcell : ∀ draw field v, (p.noiseExec serde).noisedCell engine.rounding draw field v =
      p.noisedCell engine draw field v := noiseExec_noisedCell
  simp only [noisedRows, LaplaceNoiseExec.noisedRow, ResolvedPolicy.noisedRow, hcell]

theorem noiseExec_noisable :
    (p.noiseExec serde).NoisableSchema (p.maskedSchema schema) ↔ p.Noisable schema := by
  have htagged : ∀ column, (p.noiseExec serde).tagged column =
      (p.dpColumns.lookup column).isSome := fun column => by
    rw [tagged, ResolvedPolicy.noiseExec, Dict.lookup_map, Option.isSome_map]
  simp only [NoisableSchema, ResolvedPolicy.Noisable, htagged]

theorem noiseExec_isEmpty : (p.noiseExec serde).dpColumns.isEmpty = !p.hasDp := by
  have hiff : (p.noiseExec serde).dpColumns.isEmpty = true ↔ p.dpColumns.isEmpty = true := by
    rw [Dict.isEmpty_iff, Dict.isEmpty_iff]
    refine forall_congr' fun column => ?_
    rw [ResolvedPolicy.noiseExec, Dict.lookup_map, Option.map_eq_none_iff]
  rw [ResolvedPolicy.hasDp, Bool.not_not]
  exact Bool.eq_iff_iff.mpr hiff

end Operators

/-! ### What is seen of a governed scan -/

section Scans
variable {engine : Engine} {draws : Nat → Nat → Nat → Draw} {serde : SerdeJson} {p : ResolvedPolicy}

theorem parseMaskingBundle_reads
    (hserde : serde.fromSlice (serde.toVec p.toBundleValue) = some p.toBundleValue) :
    ∃ policies, MaskingExec.parseMaskingBundle serde (p.toBundleHandle serde) = .ok policies ∧
      p.ReadsMasks policies := by
  obtain ⟨policies, hparse, happlies⟩ := ResolvedPolicy.parseMaskingBundle_eq hserde
  obtain ⟨policies', hparse', hlookup⟩ := ResolvedPolicy.parseMaskingBundle_exact hserde
  obtain rfl : policies = policies' := Except.ok.inj (hparse.symm.trans hparse')
  refine ⟨policies, hparse, happlies, ?_⟩
  have hnoop : (policies.isEmpty = true) ↔ ∀ column, p.actionFor column = .noop := by
    rw [Dict.isEmpty_iff]
    constructor
    · intro h column
      have haction := happlies column
      rw [h] at haction
      cases hcase : p.actionFor column <;> rw [hcase] at haction <;> first | rfl | cases haction
    · intro h column
      cases hpolicy : policies.lookup column with
      | none => rfl
      | some policy =>
        obtain ⟨action, haction, hne, -⟩ := (hlookup column policy).mp hpolicy
        have hcolumn := h column
        rw [ResolvedPolicy.actionFor, haction] at hcolumn
        exact absurd hcolumn hne
  rw [← Bool.not_eq_true, hnoop, ResolvedPolicy.Masks, not_forall]

theorem ofBundle_noiseExec
    (hserde : serde.fromSlice (serde.toVec p.toBundleValue) = some p.toBundleValue)
    (hdouble : p.Doubles) :
    (p.FiniteNoise ∧ p.NoiseValid ∧ LaplaceNoiseExec.ofBundle serde (p.toBundleHandle serde)
      p.tenantId .new = .ok (p.noiseExec serde)) ∨
    ¬ (p.FiniteNoise ∧ p.NoiseValid) ∧ ∃ e, LaplaceNoiseExec.ofBundle serde (p.toBundleHandle serde)
      p.tenantId .new = .error e := by
  by_cases hfinite : p.FiniteNoise
  · have hparse := ResolvedPolicy.parseDpBundle_eq hserde hdouble hfinite
    cases hcheck : LaplaceNoiseExec.validateColumns
        (p.dpColumns.map fun d => (d.epsilon, d.sensitivity)) with
    | ok =>
      exact .inl ⟨hfinite, (validateColumns_ok_iff hfinite).mp hcheck,
        LaplaceNoiseExec.ofBundle_ok_iff.mpr ⟨_, hparse, hcheck, rfl⟩⟩
    | error e =>
      refine .inr ⟨fun h => ?_, e, ?_⟩
      · rw [(validateColumns_ok_iff hfinite).mpr h.2] at hcheck
        cases hcheck
      · rw [LaplaceNoiseExec.ofBundle, hparse]
        simp [hcheck, bind, Except.bind]
  · refine .inr ⟨fun h => hfinite h.1,
      .contractBundleMalformed ("LaplaceNoiseExec" ++ " bundle JSON parse error"), ?_⟩
    rw [LaplaceNoiseExec.ofBundle, ResolvedPolicy.parseDpBundle_error hserde hdouble hfinite]
    rfl

variable (engine draws) in
/-- **The enforcement operators**: they are built for a policy that can be planned, and for no
other. -/
theorem governView_cases
    (hserde : serde.fromSlice (serde.toVec p.toBundleValue) = some p.toBundleValue)
    (hdouble : p.Doubles) : ∃ policies, p.ReadsMasks policies ∧
      (p.Plannable → ∀ v, governView engine draws serde p v =
        .ok ((enforceView engine serde p p.rowFilter policies v).laplaceNoise engine draws
          (p.noiseExec serde))) ∧
      (¬ p.Plannable → ∃ e, ∀ v, governView engine draws serde p v = .error e) := by
  obtain ⟨policies, hmasks, hreads⟩ := parseMaskingBundle_reads hserde
  have hfilter := ResolvedPolicy.parseRowFilter_eq hserde
  have hnoise := @noiseExec_isEmpty serde p
  refine ⟨policies, hreads, fun hplan v => ?_, fun hplan => ?_⟩
  · rw [governView, if_neg hplan.id, hfilter, hmasks]
    cases hdp : p.hasDp with
    | false =>
      rw [hdp, Bool.not_false] at hnoise
      show Except.ok (enforceView engine serde p p.rowFilter policies v) = _
      rw [PlanView.laplaceNoise, if_pos hnoise]
    | true =>
      obtain ⟨-, -, hop⟩ | ⟨hnot, -⟩ := ofBundle_noiseExec hserde hdouble
      · rw [hop]
        rfl
      · exact absurd ⟨hplan.finite, hplan.positive⟩ hnot
  · by_cases hid : p.contractId = ""
    · exact ⟨_, fun v => by rw [governView, if_pos hid]; rfl⟩
    obtain ⟨hfinite, hpositive, -⟩ | ⟨-, e, hop⟩ := ofBundle_noiseExec hserde hdouble
    · exact absurd ⟨hid, hfinite, hpositive⟩ hplan
    · cases hdp : p.hasDp with
      | false =>
        -- Without noise there is no parameter that could be refused.
        have hempty : p.dpColumns.isEmpty = true := by
          rw [ResolvedPolicy.hasDp] at hdp
          simpa using hdp
        refine absurd ⟨hid, fun column d hd => ?_, fun column d hd => ?_⟩ hplan <;>
        · rw [Dict.isEmpty_iff.mp hempty column] at hd
          cases hd
      | true =>
        refine ⟨.physical e, fun v => ?_⟩
        rw [governView, if_neg hid, hfilter, hmasks, hop]
        simp only [hdp]
        rfl

section Streams
variable {policies : Dict String MaskPolicy} {v : PlanView}

theorem masking_schema {bundle : ContractBundleHandle} {schema : Schema} {batch out : RecordBatch}
    (hschema : batch.schema = schema)
    (h : MaskingExec.onBatch engine
      ⟨bundle, policies, MaskingExec.maskedOutputSchema schema policies⟩ batch = .ok out) :
    out.schema = MaskingExec.maskedOutputSchema schema policies := by
  unfold MaskingExec.onBatch at h
  split at h
  · rename_i hempty
    obtain rfl := Except.ok.inj h
    rw [hschema]
    exact (maskedOutputSchema_of_isEmpty hempty _).symm
  · rw [mapError_ok, MaskingExec.applyMaskingToBatch] at h
    obtain ⟨cols, -, h⟩ := bind_eq_ok.mp h
    exact (RecordBatch.tryNew_ok (mapError_ok.mp h)).1

theorem raw_yields (hschema : ∀ batch, .ok batch ∈ v.stream → batch.schema = v.schema) :
    Yields RecordBatch.batching (fun batch => batch.schema = v.schema) v.stream
      (v.stream.map itemRows) := by
  rw [Yields, List.forall₂_map_right_iff, List.forall₂_same]
  intro item hitem batch hbatch
  subst hbatch
  exact ⟨hschema batch hitem, rfl⟩

/-- Filter and masks. -/
theorem enforced_yields (happlies : Applies p policies)
    (hschema : ∀ batch, .ok batch ∈ v.stream → batch.schema = v.schema) :
    Yields RecordBatch.batching (fun batch => batch.schema = p.maskedSchema v.schema)
      (enforceView engine serde p p.rowFilter policies v).stream
      (v.stream.map fun item => ((itemRows item).filter (keeps engine p v.schema)).map
        (maskedRow engine p v.schema)) := by
  have hmasking : RowWise RecordBatch.batching (fun batch => batch.schema = v.schema)
      (MaskingExec.onBatch engine ⟨p.toBundleHandle serde, policies,
        MaskingExec.maskedOutputSchema v.schema policies⟩)
      (fun batch => batch.schema = p.maskedSchema v.schema)
      fun row => some (maskedRow engine p v.schema row) := fun batch hbatch out hout =>
    ⟨(masking_schema hbatch hout).trans (maskedOutputSchema_eq happlies _),
      (masking_rowWise (p.toBundleHandle serde) happlies _ batch hbatch out hout).2⟩
  have hmasked := ((raw_yields hschema).andThen
    (@rowFilter_rowWise engine p v.schema (p.toBundleHandle serde))).andThen hmasking
  rw [List.map_map, List.map_map] at hmasked
  simp only [Function.comp_def, List.filterMap_eq_filter, List.filterMap_eq_map'] at hmasked
  exact hmasked

/-- **The stream of a governed scan** yields the governed rows, batch by batch. -/
theorem governed_yields (happlies : Applies p policies)
    (hschema : ∀ batch, .ok batch ∈ v.stream → batch.schema = v.schema) :
    Yields RecordBatch.batching (fun batch => batch.schema = p.maskedSchema v.schema)
      ((enforceView engine serde p p.rowFilter policies v).laplaceNoise engine draws
        (p.noiseExec serde)).stream
      (v.stream.mapIdx fun n item => governedBatch engine p v.schema (draws n) (itemRows item)) := by
  have henforced := @enforced_yields engine serde p policies v happlies hschema
  have hexpected : (v.stream.map fun item => ((itemRows item).filter (keeps engine p v.schema)).map
      (maskedRow engine p v.schema)).mapIdx (fun n rows =>
        (p.noiseExec serde).noisedRows engine.rounding (draws (0 + n)) (p.maskedSchema v.schema) rows) =
      v.stream.mapIdx fun n item => governedBatch engine p v.schema (draws n) (itemRows item) := by
    refine List.ext_getElem (by simp) fun n hn hn' => ?_
    simp only [List.getElem_mapIdx, List.getElem_map, Nat.zero_add, noiseExec_noisedRows,
      governedBatch]
  rw [← hexpected, PlanView.laplaceNoise]
  split
  · rename_i hempty
    exact yields_untagged hempty henforced 0
  · exact noiseStream_yields henforced 0 _

end Streams

/-! ### Columns and limit -/

section Narrow
variable {sel : Selection} {v w : PlanView}

/-- The view under the projection of a query. -/
def PlanView.project (sel : Selection) (v : PlanView) : PlanView :=
  sel.projection.elim v (v.projection ·)

theorem narrowView_ok_iff : narrowView sel v = .ok w ↔
    sel.InRange v.schema ∧ w = sel.limit.elim (v.project sel) ((v.project sel).globalLimit ·) := by
  obtain ⟨projection, limit⟩ := sel
  cases projection with
  | none =>
    show Except.ok _ = Except.ok w ↔ _
    simp [Selection.InRange, PlanView.project, eq_comm]
  | some indices =>
    rw [narrowView]
    by_cases hrange : ∀ i ∈ indices, i < v.schema.length
    · have hin : Selection.InRange ⟨some indices, limit⟩ v.schema := fun indices' h => by
        obtain rfl := Option.some.inj h
        exact hrange
      simp only [if_pos hrange]
      show Except.ok _ = Except.ok w ↔ _
      simp [hin, PlanView.project, eq_comm]
    · have hout : ¬ Selection.InRange ⟨some indices, limit⟩ v.schema := fun h => hrange (h indices rfl)
      simp only [if_neg hrange]
      show Except.error _ = Except.ok w ↔ _
      simp [hout]

theorem limited_stream (v : PlanView) (limit : Option Nat) :
    (limit.elim v (v.globalLimit ·)).stream =
      limit.elim v.stream (limitStream RecordBatch.batching · v.stream) := by
  cases limit <;> rfl

theorem project_yields {P : RecordBatch → Prop} {expected : List (List Row)}
    (h : Yields RecordBatch.batching P v.stream expected) :
    Yields RecordBatch.batching (fun _ => True) (v.project sel).stream
      (expected.map fun rows => rows.map sel.project) := by
  obtain ⟨projection, limit⟩ := sel
  cases projection with
  | none =>
    have hid : (expected.map fun rows => rows.map (Selection.project ⟨none, limit⟩)) = expected := by
      show expected.map (fun rows => rows.map id) = expected
      simp
    rw [hid]
    exact h.imp fun item rows hitem batch hbatch => ⟨trivial, (hitem batch hbatch).2⟩
  | some indices =>
    have hproject := h.andThen (f := fun batch => .ok (batch.project indices))
      fun batch _ => project_rowWise (some indices) batch trivial
    simp only [List.filterMap_eq_map'] at hproject
    exact hproject

theorem project_uniform {P : Prop} (h : Uniform P v.stream) : Uniform P (v.project sel).stream := by
  obtain ⟨projection, limit⟩ := sel
  cases projection with
  | none => exact h
  | some indices =>
    refine ⟨fun hp item hitem => ?_, fun hp item rest hcons => ?_⟩
    · obtain ⟨item', hitem', rfl⟩ := List.mem_map.mp hitem
      obtain ⟨batch, rfl⟩ := h.1 hp item' hitem'
      exact ⟨_, rfl⟩
    · obtain ⟨item', rest', hv, rfl, -⟩ := List.map_eq_cons_iff.mp hcons
      obtain ⟨e, rfl⟩ := h.2 hp item' rest' hv
      exact ⟨e, rfl⟩

theorem project_stream_eq_nil : (v.project sel).stream = [] ↔ v.stream = [] := by
  obtain ⟨projection, limit⟩ := sel
  cases projection with
  | none => exact Iff.rfl
  | some indices => exact List.map_eq_nil_iff

end Narrow

/-! ### Scans -/

/-- What is seen of the governed scan of a plan. -/
def scanned (engine : Engine) (draws : Nat → Nat → Nat → Draw) (serde : SerdeJson)
    (p : ResolvedPolicy) (policies : Dict String MaskPolicy) (sel : Selection) (v : PlanView) :
    PlanView :=
  let governed := ((enforceView engine serde p p.rowFilter policies v).laplaceNoise engine draws
    (p.noiseExec serde)).project sel
  sel.limit.elim governed (governed.globalLimit ·)

variable (engine draws) in
/-- **The whole plan**: a policy that can be planned and columns in range have one, and nothing
else has. -/
theorem scan_spec (hserde : serde.fromSlice (serde.toVec p.toBundleValue) = some p.toBundleValue)
    (hdouble : p.Doubles) : ∃ policies, p.ReadsMasks policies ∧ ∀ (inner : TableProvider)
      (sel : Selection) (w : PlanView),
      ((ContractTableProvider.new serde inner p).scan serde sel.projection sel.limit).map
          (PlanView.ofPlan engine draws) = .ok w ↔
        ∃ raw, inner.scan = .ok raw ∧ (p.Plannable ∧ sel.InRange raw.schema) ∧
          w = scanned engine draws serde p policies sel (PlanView.ofPlan engine draws raw) := by
  obtain ⟨policies, hreads, hplannable, hunplannable⟩ := governView_cases engine draws hserde hdouble
  refine ⟨policies, hreads, fun inner sel w => ?_⟩
  rw [scan_view, bind_eq_ok]
  refine exists_congr fun raw => and_congr_right fun _ => ?_
  by_cases hp : p.Plannable
  · have hlength : (((enforceView engine serde p p.rowFilter policies
        (PlanView.ofPlan engine draws raw)).laplaceNoise engine draws (p.noiseExec serde)).schema).length =
          raw.schema.length := List.length_map ..
    have hrange : sel.InRange ((enforceView engine serde p p.rowFilter policies
        (PlanView.ofPlan engine draws raw)).laplaceNoise engine draws (p.noiseExec serde)).schema ↔
          sel.InRange raw.schema := by
      rw [Selection.InRange, Selection.InRange, hlength]
    rw [hplannable hp]
    show narrowView sel _ = .ok w ↔ _
    rw [narrowView_ok_iff, hrange]
    simp only [hp, true_and]
    rfl
  · obtain ⟨e, he⟩ := hunplannable hp
    rw [he]
    exact ⟨fun h => absurd h (by simp [bind, Except.bind]), fun h => absurd h.1.1 hp⟩

/-- What a scan drains to, of a table that can be scanned. -/
theorem scan_drains (hserde : serde.fromSlice (serde.toVec p.toBundleValue) = some p.toBundleValue)
    (hdouble : p.Doubles) {inner : TableProvider} {sel : Selection} {plan : ExecutionPlan}
    (hschema : ∀ raw, inner.scan = .ok raw →
      ∀ batch, .ok batch ∈ raw.execute engine draws → batch.schema = raw.schema)
    (hplan : (ContractTableProvider.new serde inner p).scan serde sel.projection sel.limit = .ok plan)
    {out : List RecordBatch} (hout : collect (plan.execute engine draws) = .ok out) :
    ∃ raw, inner.scan = .ok raw ∧ RecordBatch.batching.allRows out =
      governedStream engine p raw.schema draws sel (raw.execute engine draws) := by
  obtain ⟨policies, ⟨happlies, -⟩, hspec⟩ := scan_spec engine draws hserde hdouble
  obtain ⟨raw, hraw, -, hw⟩ := (hspec inner sel (PlanView.ofPlan engine draws plan)).mp (by
    rw [hplan]
    rfl)
  refine ⟨raw, hraw, ?_⟩
  have hstream : plan.execute engine draws = _ := congrArg PlanView.stream hw
  have hyields := @project_yields sel _ _ _ (@governed_yields engine draws serde p policies
    (PlanView.ofPlan engine draws raw) happlies (hschema raw hraw))
  rw [hstream, scanned, limited_stream] at hout
  have hflatten : ∀ rows : List (List Row), (rows.map fun rows => rows.map sel.project).flatten =
      rows.flatten.map sel.project := fun rows => List.map_flatten.symm
  rw [governedStream, Selection.first, ← hflatten]
  cases hlimit : sel.limit with
  | none =>
    rw [hlimit] at hout
    exact hyields.collect hout
  | some n =>
    rw [hlimit] at hout
    exact hyields.limit n hout

/-- **A governed scan with noise equals its meaning**: whatever a scan of a table yields without
error is, in order, the governed rows of the raw rows, under the draws of their batch. -/
theorem scan_noised (hserde : serde.fromSlice (serde.toVec p.toBundleValue) = some p.toBundleValue)
    (hdouble : p.Doubles) {inner : TableProvider} {sel : Selection} {raw plan : ExecutionPlan}
    (hraw : inner.scan = .ok raw)
    (hschema : ∀ batch, .ok batch ∈ raw.execute engine draws → batch.schema = raw.schema)
    (hplan : (ContractTableProvider.new serde inner p).scan serde sel.projection sel.limit = .ok plan)
    {out : List RecordBatch} (hout : collect (plan.execute engine draws) = .ok out) :
    RecordBatch.batching.allRows out =
      governedStream engine p raw.schema draws sel (raw.execute engine draws) := by
  have honly : ∀ raw', inner.scan = .ok raw' → raw' = raw := fun raw' hraw' =>
    Except.ok.inj (hraw'.symm.trans hraw)
  obtain ⟨raw', hraw', hrows⟩ := scan_drains hserde hdouble
    (fun raw' hraw' => honly raw' hraw' ▸ hschema) hplan hout
  rw [honly raw' hraw'] at hrows
  exact hrows

/-- The items of the governed stream of a memory table fail alike. -/
theorem governed_uniform (htypes : TypeOnly engine) {policies : Dict String MaskPolicy}
    (hreads : p.ReadsMasks policies) {schema : Schema} {batches : List RecordBatch}
    (hbatches : ∀ batch ∈ batches, batch.schema = schema) {v : PlanView} (hv : v.schema = schema)
    (hstream : v.stream = batches.map .ok) :
    Uniform (p.Fits engine schema)
      ((enforceView engine serde p p.rowFilter policies v).laplaceNoise engine draws
        (p.noiseExec serde)).stream := by
  have hfits : p.Fits engine schema ↔ Enforceable engine p schema policies ∧
      (p.hasDp = true → schema ≠ [] ∧ p.Noisable schema) := by
    constructor
    · exact fun h => ⟨⟨h.filter, fun hempty => h.masks (hreads.masks.mp hempty)⟩, h.noise⟩
    · exact fun h => ⟨h.1.filter, fun hmasks => h.1.masks (hreads.masks.mpr hmasks), h.2⟩
  rw [hfits]
  have henforced : (enforceView engine serde p p.rowFilter policies v).stream =
      batches.map (enforceBatch engine p schema (p.toBundleHandle serde) policies) := by
    simp only [enforceView, PlanView.masking, PlanView.rowFilter, hstream, hv, andThen_map]
    rfl
  have hbatch : ∀ batch ∈ batches, (∃ out, enforceBatch engine p schema (p.toBundleHandle serde)
      policies batch = .ok out) ↔ Enforceable engine p schema policies := fun batch hmem => by
    rw [← @governBatch_ok_iff engine p schema htypes (p.toBundleHandle serde) policies hreads.applies
      none batch (hbatches batch hmem)]
    simp only [governBatch, bind_eq_ok, Option.elim_none, Except.ok.injEq, exists_eq_right]
  have huniform : Uniform (Enforceable engine p schema policies)
      (enforceView engine serde p p.rowFilter policies v).stream := by
    rw [henforced]
    refine ⟨fun hp item hitem => ?_, fun hp item rest hcons => ?_⟩
    · obtain ⟨batch, hmem, rfl⟩ := List.mem_map.mp hitem
      exact (hbatch batch hmem).mpr hp
    · obtain ⟨batch, batches', rfl, rfl, -⟩ := List.map_eq_cons_iff.mp hcons
      cases hout : enforceBatch engine p schema (p.toBundleHandle serde) policies batch with
      | error e => exact ⟨e, rfl⟩
      | ok out => exact absurd ((hbatch batch (List.mem_cons_self ..)).mp ⟨out, hout⟩) hp
  have hempty := @noiseExec_isEmpty serde p
  cases hdp : p.hasDp with
  | false =>
    rw [hdp, Bool.not_false] at hempty
    rw [PlanView.laplaceNoise, if_pos hempty]
    simpa using huniform
  | true =>
    rw [hdp, Bool.not_true] at hempty
    have hmasked : ∀ batch, .ok batch ∈ (enforceView engine serde p p.rowFilter policies v).stream →
        batch.schema = p.maskedSchema schema := fun out hout => by
      rw [henforced] at hout
      obtain ⟨batch, hmem, hbatch⟩ := List.mem_map.mp hout
      obtain ⟨filtered, hfiltered, hout⟩ := bind_eq_ok.mp hbatch
      have hschema := (rowFilter_rowWise _ batch (hbatches batch hmem) filtered hfiltered).1
      exact (masking_schema hschema hout).trans (maskedOutputSchema_eq hreads.applies _)
    have hnoised := @noiseStream_uniform (p.noiseExec serde) engine.rounding _ _ draws _ huniform hmasked 0
      ⟨.new, .fin 0⟩ rfl
    have hnil : p.maskedSchema schema ≠ [] ↔ schema ≠ [] := not_congr List.map_eq_nil_iff
    rw [noiseExec_noisable, hnil] at hnoised
    rw [PlanView.laplaceNoise, if_neg (by simp [hempty])]
    simp only [forall_const]
    exact hnoised

theorem noiseStream_eq_nil {op : LaplaceNoiseExec} {n : Nat} {spending : Spending}
    {stream : BatchStream DataFusionError RecordBatch} :
    op.noiseStream r draws n spending stream = [] ↔ stream = [] := by
  cases stream with
  | nil => exact iff_of_true rfl rfl
  | cons item stream => cases item <;> exact iff_of_false (List.cons_ne_nil _ _) (List.cons_ne_nil _ _)

variable (draws) in
/-- **When a scan with noise succeeds**: the policy can be planned, the columns asked for are
there, and the policy can be enforced on the schema unless there is no batch to enforce it on. -/
theorem scan_noised_ok_iff (htypes : TypeOnly engine)
    (hserde : serde.fromSlice (serde.toVec p.toBundleValue) = some p.toBundleValue)
    (hdouble : p.Doubles) (schema : Schema) (sel : Selection) {batches : List RecordBatch}
    (hbatches : ∀ batch ∈ batches, batch.schema = schema) :
    (∃ rows, runScan engine draws serde p schema sel batches = .ok rows) ↔
      (p.Plannable ∧ sel.InRange schema) ∧ (batches ≠ [] → p.Fits engine schema) := by
  obtain ⟨policies, hreads, hspec⟩ := scan_spec engine draws hserde hdouble
  let raw : ExecutionPlan := .dataSource schema (batches.map .ok)
  let governed := ((enforceView engine serde p p.rowFilter policies
    (PlanView.ofPlan engine draws raw)).laplaceNoise engine draws (p.noiseExec serde)).project sel
  have hdrains := (@project_uniform sel _ _ (@governed_uniform engine draws serde p htypes
    policies hreads schema batches hbatches (PlanView.ofPlan engine draws raw) rfl rfl)).drains_iff
      RecordBatch.batching sel.limit
  have hnil : governed.stream = [] ↔ batches = [] := by
    rw [project_stream_eq_nil, PlanView.laplaceNoise]
    have hmap : (enforceView engine serde p p.rowFilter policies
        (PlanView.ofPlan engine draws raw)).stream = [] ↔ batches = [] := by
      simp [enforceView, PlanView.masking, PlanView.rowFilter, andThen, PlanView.ofPlan, raw,
        ExecutionPlan.execute]
    split
    · exact hmap
    · rw [noiseStream_eq_nil, hmap]
  rw [Ne, hnil] at hdrains
  rw [← hdrains]
  constructor
  · rintro ⟨rows, hrun⟩
    obtain ⟨plan, hplan, hrun⟩ := bind_eq_ok.mp hrun
    obtain ⟨out, hout, -⟩ := bind_eq_ok.mp hrun
    obtain ⟨raw', hraw, hp, hw⟩ := (hspec _ sel (PlanView.ofPlan engine draws plan)).mp (by
      rw [hplan]
      rfl)
    obtain rfl : raw = raw' := Except.ok.inj hraw
    have hstream : plan.execute engine draws = _ := congrArg PlanView.stream hw
    rw [hstream, scanned, limited_stream] at hout
    exact ⟨hp, out, hout⟩
  · rintro ⟨hp, out, hout⟩
    have hscan := (hspec (.memory schema batches) sel _).mpr ⟨raw, rfl, hp, rfl⟩
    cases hplan : (ContractTableProvider.new serde (.memory schema batches) p).scan serde
        sel.projection sel.limit with
    | error e =>
      rw [hplan] at hscan
      cases hscan
    | ok plan =>
      rw [hplan] at hscan
      have hstream : plan.execute engine draws = _ := congrArg PlanView.stream (Except.ok.inj hscan)
      rw [← limited_stream, ← show plan.execute engine draws = (sel.limit.elim governed
        (governed.globalLimit ·)).stream from hstream] at hout
      exact ⟨_, bind_eq_ok.mpr ⟨plan, hplan, bind_eq_ok.mpr ⟨out, hout, rfl⟩⟩⟩

end Scans

/-! ### A payroll -/

/-- A scan of the employees under a policy that can be enforced, however it travels. -/
theorem employees_drains {engine : Engine} (htypes : TypeOnly engine) {serde : SerdeJson}
    {p : ResolvedPolicy} (hdp : p.hasDp = false) (hid : p.contractId ≠ "")
    (henforceable : ∀ policies, Enforceable engine p employeeSchema policies)
    (hserde : serde.fromSlice (serde.toVec p.toBundleValue) = some p.toBundleValue) {sel : Selection}
    (hin : sel.InRange employeeSchema) : ∃ plan out,
      (ContractTableProvider.new serde (.memory employeeSchema [employees]) p).scan serde
          sel.projection sel.limit = .ok plan ∧
        collect (plan.execute engine fun _ _ _ => (.fin 0, .fin 0)) = .ok out := by
  have hbatches : ∀ batch ∈ [employees], batch.schema = employeeSchema := by simp [employees]
  obtain ⟨policies, -, hok⟩ := runScan_ok_iff (fun _ _ _ => (.fin 0, .fin 0)) employeeSchema sel
    htypes hdp hserde
  obtain ⟨rows, hrun⟩ := (hok [employees] hbatches).mpr ⟨⟨hid, hin⟩, fun _ => henforceable policies⟩
  obtain ⟨plan, hplan, hrun⟩ := bind_eq_ok.mp hrun
  obtain ⟨out, hout, -⟩ := bind_eq_ok.mp hrun
  exact ⟨plan, out, hplan, hout⟩

def payrollSchema : Schema := [⟨"name", .utf8, true⟩, ⟨"salary", .int64, true⟩]

def payroll : RecordBatch :=
  ⟨payrollSchema, [⟨.utf8, [.utf8 "ana", .null], by decide⟩,
    ⟨.int64, [.int64 5000, .null], by decide⟩], 2, by decide⟩

/-- Names are redacted and salaries get noise; or salaries are hashed as well. -/
def payrollPolicy (masks : List (String × MaskAction)) : ResolvedPolicy :=
  ⟨"payroll_v1", "1.0.0", "acme", .allow, .ofList (("name", .redact) :: masks), none,
    .ofList [("salary", ⟨.fin 100, .fin 1⟩)]⟩

/-- A text that no other document is printed as. -/
def payrollText : String := "payroll_v1"

theorem payrollText_ne : payrollText ≠ "" := by decide

def payrollSerde (p : ResolvedPolicy) : SerdeJson := .just payrollText p.toBundleValue payrollText_ne

theorem payrollSerde_reads (p : ResolvedPolicy) :
    (payrollSerde p).fromSlice ((payrollSerde p).toVec p.toBundleValue) = some p.toBundleValue :=
  SerdeJson.just_roundTrip payrollText p.toBundleValue payrollText_ne

theorem payroll_dp {masks : List (String × MaskAction)} {column : String} {d : DpParam}
    (h : (payrollPolicy masks).dpColumns.lookup column = some d) : d = ⟨.fin 100, .fin 1⟩ := by
  have hmem := Dict.mem_of_lookup_ofList h
  rw [List.mem_singleton] at hmem
  exact (Prod.mk.inj hmem).2

theorem payroll_doubles (masks : List (String × MaskAction)) : (payrollPolicy masks).Doubles := by
  intro column d hd
  rw [payroll_dp hd]
  constructor <;>
  · intro q hq
    rw [← F64.fin.inj hq]
    decide +kernel

theorem payroll_plannable (masks : List (String × MaskAction)) :
    (payrollPolicy masks).Plannable where
  id := by simp [payrollPolicy]
  finite := fun column d hd => by
    rw [payroll_dp hd]
    exact ⟨rfl, rfl⟩
  positive := fun column d hd => by
    rw [payroll_dp hd]
    exact ⟨by decide +kernel, by decide +kernel⟩

theorem payroll_batches : ∀ batch ∈ [payroll], batch.schema = payrollSchema := by simp [payroll]

theorem payroll_fits : (payrollPolicy []).Fits columnEngine payrollSchema where
  filter := trivial
  masks := fun _ => ⟨by decide, fun field hfield => by
    simp only [payrollSchema, List.mem_cons, List.not_mem_nil, or_false] at hfield
    rcases hfield with rfl | rfl
    · exact .inr (.inl (.inl rfl))
    · exact .inl rfl⟩
  noise := fun _ => ⟨by decide, fun field hfield hnoise => by
    simp only [ResolvedPolicy.maskedSchema, payrollSchema, List.map_cons, List.map_nil, List.mem_cons,
      List.not_mem_nil, or_false] at hfield
    rcases hfield with rfl | rfl
    · cases hnoise
    · exact .inr rfl⟩

/-- Salaries that get noise are read; salaries that are hashed as well are not. -/
theorem scan_noised_ok_iff_payroll :
    (∃ rows, runScan columnEngine (fun _ _ _ => (.fin 3, .fin 1)) (payrollSerde (payrollPolicy []))
      (payrollPolicy []) payrollSchema ⟨none, none⟩ [payroll] = .ok rows) ∧
    ¬∃ rows, runScan columnEngine (fun _ _ _ => (.fin 3, .fin 1))
      (payrollSerde (payrollPolicy [("salary", .hashSha256)])) (payrollPolicy [("salary", .hashSha256)])
      payrollSchema ⟨none, none⟩ [payroll] = .ok rows := by
  constructor
  · exact (scan_noised_ok_iff (fun _ _ _ => (.fin 3, .fin 1)) columnEngine_typeOnly
      (payrollSerde_reads _) (payroll_doubles _) payrollSchema ⟨none, none⟩ payroll_batches).mpr
        ⟨⟨payroll_plannable [], by simp [Selection.InRange]⟩, fun _ => payroll_fits⟩
  · intro h
    have hfits := ((scan_noised_ok_iff (fun _ _ _ => (.fin 3, .fin 1)) columnEngine_typeOnly
      (payrollSerde_reads _) (payroll_doubles _) payrollSchema ⟨none, none⟩ payroll_batches).mp h).2
        (by simp)
    obtain hfloat | hint := (hfits.noise (by decide)).2 ⟨"salary", .utf8, true⟩ (by decide) (by decide)
    · cases hfloat
    · cases hint

/-- The salary with noise, and the null as it was. -/
theorem scan_noised_payroll : ∃ plan out,
    (ContractTableProvider.new (payrollSerde (payrollPolicy [])) (.memory payrollSchema [payroll])
      (payrollPolicy [])).scan (payrollSerde (payrollPolicy [])) none none = .ok plan ∧
    collect (plan.execute columnEngine fun _ _ _ => (.fin 3, .fin 1)) = .ok out ∧
    RecordBatch.batching.allRows out = [[.utf8 "***", .int64 5200], [.null, .null]] := by
  have hscan : (match (ContractTableProvider.new (payrollSerde (payrollPolicy []))
      (.memory payrollSchema [payroll]) (payrollPolicy [])).scan (payrollSerde (payrollPolicy [])) none
        none with
      | .ok plan => (collect (plan.execute columnEngine fun _ _ _ => (.fin 3, .fin 1))).isOk
      | .error _ => false) = true := by decide +kernel
  split at hscan
  · rename_i plan hplan
    cases hout : collect (plan.execute columnEngine fun _ _ _ => (.fin 3, .fin 1)) with
    | error e =>
      rw [hout] at hscan
      cases hscan
    | ok out =>
      refine ⟨plan, out, hplan, hout, ?_⟩
      have hbatches : ∀ batch, .ok batch ∈ (ExecutionPlan.dataSource payrollSchema
          ([payroll].map .ok)).execute columnEngine (fun _ _ _ => (.fin 3, .fin 1)) →
            batch.schema = payrollSchema := fun batch hbatch =>
        payroll_batches batch (by simpa [ExecutionPlan.execute] using hbatch)
      rw [@scan_noised columnEngine _ _ _ (payrollSerde_reads _) (payroll_doubles _) _ ⟨none, none⟩ _ _
        rfl hbatches hplan _ hout]
      decide +kernel
  · cases hscan

end Griot
