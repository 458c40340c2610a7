import Griot.Governed.Hiding
import Griot.Governed.Noise

/-! Governed scans of tables that look alike.

Batches that look alike to a policy are the same batch, or the same error, once they are
filtered and masked (`enforceBatch_alike`). So scans of tables that look alike batch by
batch are seen as one and the same, in their schemas, their batches and their errors,
with noise and under any projection and limit (`scan_alike`). -/
namespace Griot

open Lib Physical
open Logical (MaskPolicy)

/-! ### Views and tables that look alike -/

section Alike
variable (engine : Engine) (p : ResolvedPolicy)

/-- The same error, or two batches of the schema that look alike. -/
inductive ItemsAlike (schema : Schema) :
    Except DataFusionError RecordBatch → Except DataFusionError RecordBatch → Prop
  | error (e : DataFusionError) : ItemsAlike schema (.error e) (.error e)
  | batch {b b' : RecordBatch} (hb : b.schema = schema) (hb' : b'.schema = schema)
      (hrows : LookAlike engine p schema b.rows b'.rows) : ItemsAlike schema (.ok b) (.ok b')

structure ViewsAlike (v v' : PlanView) : Prop where
  schema : v.schema = v'.schema
  propertiesSchema : v.propertiesSchema = v'.propertiesSchema
  stream : List.Forall₂ (ItemsAlike engine p v.schema) v.stream v'.stream

inductive ScansAlike : Except DataFusionError ExecutionPlan → Except DataFusionError ExecutionPlan → Prop
  | error (e : DataFusionError) : ScansAlike (.error e) (.error e)
  | plan {raw raw' : ExecutionPlan} (h : ∀ draws, ViewsAlike engine p
      (PlanView.ofPlan engine draws raw) (PlanView.ofPlan engine draws raw')) :
      ScansAlike (.ok raw) (.ok raw')

structure TablesAlike (inner inner' : TableProvider) : Prop where
  schema : inner.schema = inner'.schema
  scan : ScansAlike engine p inner.scan inner'.scan

end Alike

/-! ### Batches with the same rows -/

theorem ArrayRef.eq_of_cells {a a' : ArrayRef} (htype : a.dataType = a'.dataType)
    (hcells : a.cells = a'.cells) : a = a' := by
  cases a
  cases a'
  cases htype
  cases hcells
  rfl

section Batches
variable {engine : Engine} {p : ResolvedPolicy} {schema : Schema}

theorem RecordBatch.numRows_eq_of_rows {b b' : RecordBatch} {R : Row → Row → Prop}
    (h : List.Forall₂ R b.rows b'.rows) : b.numRows = b'.numRows := by
  have hlength := h.length_eq
  rwa [RecordBatch.rows, RecordBatch.rows, rowsOf, rowsOf, List.length_map, List.length_map,
    List.length_range, List.length_range] at hlength

/-- Cells of columns whose rows are related. -/
theorem RecordBatch.cells_of_rows {b b' : RecordBatch} {R : Value → Value → Prop} {i : Nat}
    (hi : i < b.columns.length) (hi' : i < b'.columns.length)
    (h : List.Forall₂ (fun row row' => R (cell row i) (cell row' i)) b.rows b'.rows) :
    List.Forall₂ R b.columns[i].cells b'.columns[i].cells := by
  have hnum := RecordBatch.numRows_eq_of_rows h
  have hlength := b.length_column (List.getElem_mem hi)
  have hlength' := b'.length_column (List.getElem_mem hi')
  rw [List.forall₂_iff_get]
  refine ⟨by omega, fun j hj hj' => ?_⟩
  have hrow := (List.forall₂_iff_get.mp h).2 j (by simp [RecordBatch.rows, rowsOf]; omega)
    (by simp [RecordBatch.rows, rowsOf]; omega)
  simpa [RecordBatch.rows, rowsOf, Lib.row, cell, hi, hi', hj, hj'] using hrow

/-! ### Columns that look alike -/

variable (engine p) in
/-- Columns of one field whose cells look alike. -/
structure ColumnsAgree (field : Field) (col col' : ArrayRef) : Prop where
  type : col.dataType = field.dataType
  type' : col'.dataType = field.dataType
  cells : List.Forall₂ (CellsAgree engine field.dataType (p.actionFor field.name)) col.cells col'.cells

/-- The error of a column that is refused: by the cast, or for want of a value of its type. -/
def refusal (engine : Engine) (dataType : DataType) (colName : String) (policy : MaskPolicy) :
    PhysicalError :=
  match engine.castFails dataType [] with
  | some e =>
    if MaskingExec.isStringProducing policy then
      .maskTypeUnsupported colName (dataType.debug ++ " with policy " ++
        MaskingExec.debugPolicy policy ++ " (not castable to Utf8 for masking: " ++ e ++ ")")
    else MaskingExec.unsupported colName dataType policy
  | none => MaskingExec.unsupported colName dataType policy

theorem applyMaskToColumn_error (htypes : TypeOnly engine) {col : ArrayRef} {colName : String}
    {policy : MaskPolicy} {e : PhysicalError}
    (h : MaskingExec.applyMaskToColumn engine col colName policy = .error e) :
    e = refusal engine col.dataType colName policy := by
  have hcast : engine.castFails col.dataType [] = engine.castFails col.dataType col.cells :=
    htypes.cast ..
  rw [MaskingExec.applyMaskToColumn] at h
  rw [refusal, hcast]
  split at h
  · cases h
  split at h
  · cases h
  split at h
  · rename_i hproducing
    rw [MaskingExec.maskViaUtf8Cast] at h
    cases hfails : engine.castFails col.dataType col.cells with
    | none => simp [hfails] at h
    | some message =>
      simp only [hfails] at h
      obtain rfl := Except.error.inj h
      exact (if_pos hproducing).symm
  · rename_i hproducing
    split at h
    · cases h
    · obtain rfl := Except.error.inj h
      split
      · rw [if_neg hproducing]
      · rfl

/-- **One column**: columns that look alike are masked alike, or refused alike. -/
theorem applyMaskToColumn_agree (htypes : TypeOnly engine) {field : Field} {col col' : ArrayRef}
    (h : ColumnsAgree engine p field col col') :
    MaskingExec.applyMaskToColumn engine col field.name (p.actionFor field.name).toPolicy =
      MaskingExec.applyMaskToColumn engine col' field.name (p.actionFor field.name).toPolicy := by
  have htype : col.dataType = col'.dataType := h.type.trans h.type'.symm
  have hiff := @applyMaskToColumn_ok_iff engine htypes col field.name (p.actionFor field.name).toPolicy
  rw [htype, ← @applyMaskToColumn_ok_iff engine htypes col' field.name] at hiff
  cases hout : MaskingExec.applyMaskToColumn engine col field.name (p.actionFor field.name).toPolicy with
  | ok out =>
    obtain ⟨out', hout'⟩ := hiff.mp ⟨out, hout⟩
    rw [hout']
    congr 1
    refine ArrayRef.eq_of_cells ?_ ?_
    · rw [(applyMaskToColumn_spec htypes hout).1, (applyMaskToColumn_spec htypes hout').1, htype]
    · rw [applyMaskToColumn_cells hout, applyMaskToColumn_cells hout', h.type, h.type']
      have hcells := h.cells
      generalize col.cells = cells at hcells
      generalize col'.cells = cells' at hcells
      induction hcells with
      | nil => rfl
      | cons hcell _ ih => rw [List.map_cons, List.map_cons, maskedCell_eq hcell, ih]
  | error e =>
    cases hout' : MaskingExec.applyMaskToColumn engine col' field.name
        (p.actionFor field.name).toPolicy with
    | ok out' =>
      obtain ⟨out, hok⟩ := hiff.mpr ⟨out', hout'⟩
      cases hout.symm.trans hok
    | error e' =>
      rw [applyMaskToColumn_error htypes hout, applyMaskToColumn_error htypes hout', htype]

theorem maskColumns_agree (htypes : TypeOnly engine) {policies : Dict String MaskPolicy}
    (happlies : Applies p policies) {fields : List Field} {cols cols' : List ArrayRef}
    (hlength : cols.length = fields.length) (hlength' : cols'.length = fields.length)
    (h : ∀ (i : Nat) (field : Field) (col col' : ArrayRef), fields[i]? = some field →
      cols[i]? = some col → cols'[i]? = some col' → ColumnsAgree engine p field col col') :
    MaskingExec.maskColumns engine policies fields cols =
      MaskingExec.maskColumns engine policies fields cols' := by
  induction fields generalizing cols cols' with
  | nil =>
    obtain rfl := List.length_eq_zero_iff.mp hlength
    obtain rfl := List.length_eq_zero_iff.mp hlength'
    rfl
  | cons field fields ih =>
    obtain ⟨col, cols, rfl⟩ := List.exists_cons_of_length_pos (l := cols) (by simp [hlength])
    obtain ⟨col', cols', rfl⟩ := List.exists_cons_of_length_pos (l := cols') (by simp [hlength'])
    have hhead := applyMaskToColumn_agree htypes (h 0 field col col' rfl rfl rfl)
    have htail := ih (Nat.succ.inj hlength) (Nat.succ.inj hlength')
      fun i field col col' hf hc hc' => h (i + 1) field col col' hf hc hc'
    rw [MaskingExec.maskColumns, MaskingExec.maskColumns, maskField_eq happlies,
      maskField_eq happlies, hhead, htail]

/-! ### Batches that look alike -/

theorem columnsAgree {b b' : RecordBatch} (hb : b.schema = schema) (hb' : b'.schema = schema)
    (hrows : List.Forall₂ (RowsAgree engine p schema) b.rows b'.rows) {i : Nat} {field : Field}
    {col col' : ArrayRef} (hfield : schema[i]? = some field) (hcol : b.columns[i]? = some col)
    (hcol' : b'.columns[i]? = some col') : ColumnsAgree engine p field col col' := by
  obtain ⟨hi, rfl⟩ := List.getElem?_eq_some_iff.mp hcol
  obtain ⟨hi', rfl⟩ := List.getElem?_eq_some_iff.mp hcol'
  have htype : ∀ {b : RecordBatch} (hi : i < b.columns.length), b.schema = schema →
      b.columns[i].dataType = field.dataType := fun {b} hi hb => by
    have hs : i < b.schema.length := b.fits.length_eq ▸ hi
    have hget : b.schema[i] = field := by
      subst hb
      exact (List.getElem?_eq_some_iff.mp hfield).2
    rw [← hget]
    exact (b.fits.get hs hi).type_eq
  exact ⟨htype hi hb, htype hi' hb', RecordBatch.cells_of_rows hi hi' (hrows.imp fun row row' h =>
    h i field hfield)⟩

/-- Batches of one schema with the same cells are the same. -/
theorem RecordBatch.eq_of_cells {b b' : RecordBatch} (hschema : b.schema = b'.schema)
    (hnum : b.numRows = b'.numRows) (hcells : ∀ (i : Nat) (hi : i < b.columns.length)
      (hi' : i < b'.columns.length), b.columns[i].cells = b'.columns[i].cells) : b = b' := by
  have hcolumns : b.columns = b'.columns := by
    have hlength : b.columns.length = b'.columns.length := by
      rw [← b.fits.length_eq, ← b'.fits.length_eq, hschema]
    refine List.ext_getElem hlength fun i hi hi' => ArrayRef.eq_of_cells ?_ (hcells i hi hi')
    have hs : i < b.schema.length := b.fits.length_eq ▸ hi
    have hs' : i < b'.schema.length := b'.fits.length_eq ▸ hi'
    have htype : b.columns[i].dataType = b.schema[i].dataType := (b.fits.get hs hi).type_eq
    have htype' : b'.columns[i].dataType = b'.schema[i].dataType := (b'.fits.get hs' hi').type_eq
    rw [htype, htype', List.getElem_of_eq hschema hs]
  cases b
  cases b'
  cases hschema
  cases hnum
  cases hcolumns
  rfl

/-- **Masking**: batches whose rows agree are masked to the same batch, or refused alike. -/
theorem masking_agree (htypes : TypeOnly engine) {policies : Dict String MaskPolicy}
    (happlies : Applies p policies) (bundle : ContractBundleHandle) {b b' : RecordBatch}
    (hb : b.schema = schema) (hb' : b'.schema = schema)
    (hrows : List.Forall₂ (RowsAgree engine p schema) b.rows b'.rows) :
    MaskingExec.onBatch engine ⟨bundle, policies,
        MaskingExec.maskedOutputSchema schema policies⟩ b =
      MaskingExec.onBatch engine ⟨bundle, policies,
        MaskingExec.maskedOutputSchema schema policies⟩ b' := by
  rw [MaskingExec.onBatch, MaskingExec.onBatch]
  split
  · -- Nothing is masked, so rows that agree are the same.
    rename_i hempty
    have hnoop : ∀ column, p.actionFor column = .noop := fun column => by
      have haction := happlies column
      rw [Dict.isEmpty_iff.mp hempty] at haction
      cases hcase : p.actionFor column <;> rw [hcase] at haction <;> first | rfl | cases haction
    have hsame : b = b' := by
      refine RecordBatch.eq_of_cells (hb.trans hb'.symm) (RecordBatch.numRows_eq_of_rows hrows)
        fun i hi hi' => ?_
      have hs : i < schema.length := hb ▸ b.fits.length_eq ▸ hi
      have hcells := (columnsAgree hb hb' hrows (List.getElem?_eq_getElem hs)
        (List.getElem?_eq_getElem hi) (List.getElem?_eq_getElem hi')).cells
      rw [hnoop] at hcells
      exact List.forall₂_eq_eq_eq ▸ hcells
    rw [hsame]
  · rw [MaskingExec.applyMaskingToBatch, MaskingExec.applyMaskingToBatch, hb, hb',
      maskColumns_agree htypes happlies (by rw [← b.fits.length_eq, hb]) (by rw [← b'.fits.length_eq, hb'])
        fun i field col col' hfield hcol hcol' => columnsAgree hb hb' hrows hfield hcol hcol']

/-- **Filtering**: of batches that look alike the rows that are kept agree, or the filter fails
alike. -/
theorem rowFilter_alike (htypes : TypeOnly engine) (bundle : ContractBundleHandle)
    {b b' : RecordBatch} (hb : b.schema = schema) (hb' : b'.schema = schema)
    (h : LookAlike engine p schema b.rows b'.rows) :
    (∃ e, RowFilterExec.onBatch engine ⟨bundle, p.rowFilter⟩ b = .error e ∧
      RowFilterExec.onBatch engine ⟨bundle, p.rowFilter⟩ b' = .error e) ∨
    ∃ kept kept', RowFilterExec.onBatch engine ⟨bundle, p.rowFilter⟩ b = .ok kept ∧
      RowFilterExec.onBatch engine ⟨bundle, p.rowFilter⟩ b' = .ok kept' ∧
      kept.schema = schema ∧ kept'.schema = schema ∧
      List.Forall₂ (RowsAgree engine p schema) kept.rows kept'.rows := by
  have hkept : ∀ kept kept', RowFilterExec.onBatch engine ⟨bundle, p.rowFilter⟩ b = .ok kept →
      RowFilterExec.onBatch engine ⟨bundle, p.rowFilter⟩ b' = .ok kept' →
      kept.schema = schema ∧ kept'.schema = schema ∧
        List.Forall₂ (RowsAgree engine p schema) kept.rows kept'.rows := by
    intro kept kept' hk hk'
    obtain ⟨hschema, hrows⟩ := rowFilter_rowWise bundle b hb kept hk
    obtain ⟨hschema', hrows'⟩ := rowFilter_rowWise bundle b' hb' kept' hk'
    rw [List.filterMap_eq_filter] at hrows hrows'
    have heq : kept.rows = b.rows.filter (keeps engine p schema) := hrows
    have heq' : kept'.rows = b'.rows.filter (keeps engine p schema) := hrows'
    exact ⟨hschema, hschema', by rw [heq, heq']; exact h⟩
  have hfails : (∃ e, RowFilterExec.onBatch engine ⟨bundle, p.rowFilter⟩ b = .error e ∧
        RowFilterExec.onBatch engine ⟨bundle, p.rowFilter⟩ b' = .error e) ∨
      ∃ kept kept', RowFilterExec.onBatch engine ⟨bundle, p.rowFilter⟩ b = .ok kept ∧
        RowFilterExec.onBatch engine ⟨bundle, p.rowFilter⟩ b' = .ok kept' := by
    simp only [RowFilterExec.onBatch]
    cases p.rowFilter with
    | none => exact .inr ⟨b, b', rfl, rfl⟩
    | some filter =>
      dsimp only
      by_cases hblank : filter = ""
      · simp only [if_pos hblank]
        exact .inr ⟨b, b', rfl, rfl⟩
      simp only [if_neg hblank, RowFilterExec.applyFilterToBatch, hb, hb']
      cases hcompile : RowFilterExec.compileFilter engine schema filter with
      | error e => exact .inl ⟨_, rfl, rfl⟩
      | ok predicate =>
        have hsame : predicate.fails b.rows = predicate.fails b'.rows := by
          obtain ⟨-, -, hcompile⟩ := bind_eq_ok.mp hcompile
          obtain ⟨expr, -, hcompile⟩ := bind_eq_ok.mp hcompile
          exact htypes.predicate expr schema predicate (mapError_ok.mp hcompile) ..
        show (∃ e, (RowFilterExec.evaluate predicate b).mapError _ = .error e ∧
            (RowFilterExec.evaluate predicate b').mapError _ = .error e) ∨
          ∃ kept kept', (RowFilterExec.evaluate predicate b).mapError _ = .ok kept ∧
            (RowFilterExec.evaluate predicate b').mapError _ = .ok kept'
        rw [RowFilterExec.evaluate, RowFilterExec.evaluate, hsame]
        cases predicate.fails b'.rows with
        | some e => exact .inl ⟨_, rfl, rfl⟩
        | none =>
          by_cases hboolean : predicate.dataType ≠ .boolean
          · simp only [if_pos hboolean]
            exact .inl ⟨_, rfl, rfl⟩
          · simp only [if_neg hboolean]
            exact .inr ⟨_, _, rfl, rfl⟩
  obtain hfails | ⟨kept, kept', hk, hk'⟩ := hfails
  · exact .inl hfails
  · exact .inr ⟨kept, kept', hk, hk', hkept kept kept' hk hk'⟩

/-- **One batch**: batches that look alike are the same once they are filtered and masked. -/
theorem enforceBatch_alike (htypes : TypeOnly engine) {policies : Dict String MaskPolicy}
    (happlies : Applies p policies) (bundle : ContractBundleHandle) {b b' : RecordBatch}
    (hb : b.schema = schema) (hb' : b'.schema = schema)
    (h : LookAlike engine p schema b.rows b'.rows) :
    enforceBatch engine p schema bundle policies b =
      enforceBatch engine p schema bundle policies b' := by
  rw [enforceBatch, enforceBatch]
  obtain ⟨e, he, he'⟩ | ⟨kept, kept', hk, hk', hschema, hschema', hrows⟩ :=
    rowFilter_alike htypes bundle hb hb' h
  · rw [he, he']
  · rw [hk, hk']
    exact masking_agree htypes happlies bundle hschema hschema' hrows

end Batches

/-! ### Views and scans that look alike -/

section Scans
variable {engine : Engine} {serde : SerdeJson} {p : ResolvedPolicy}
  {draws : Nat → Nat → Nat → LaplaceNoiseExec.Draw}

theorem enforceView_alike (htypes : TypeOnly engine) {policies : Dict String MaskPolicy}
    (happlies : Applies p policies) {v v' : PlanView} (h : ViewsAlike engine p v v') :
    enforceView engine serde p p.rowFilter policies v =
      enforceView engine serde p p.rowFilter policies v' := by
  have hstream : andThen (andThen v.stream
        (RowFilterExec.onBatch engine ⟨p.toBundleHandle serde, p.rowFilter⟩))
        (MaskingExec.onBatch engine ⟨p.toBundleHandle serde, policies,
          MaskingExec.maskedOutputSchema v.schema policies⟩) =
      andThen (andThen v'.stream
        (RowFilterExec.onBatch engine ⟨p.toBundleHandle serde, p.rowFilter⟩))
        (MaskingExec.onBatch engine ⟨p.toBundleHandle serde, policies,
          MaskingExec.maskedOutputSchema v.schema policies⟩) := by
    have hitems := h.stream
    generalize v.stream = stream at hitems
    generalize v'.stream = stream' at hitems
    induction hitems with
    | nil => rfl
    | cons hitem _ ih =>
      refine congrArg₂ List.cons ?_ ih
      cases hitem with
      | error e => rfl
      | batch hb hb' hrows => exact enforceBatch_alike htypes happlies (p.toBundleHandle serde) hb hb' hrows
  obtain ⟨schema, propertiesSchema, stream⟩ := v
  obtain ⟨schema', propertiesSchema', stream'⟩ := v'
  obtain ⟨rfl, rfl, -⟩ := h
  simp only [enforceView, PlanView.masking, PlanView.rowFilter] at hstream ⊢
  rw [hstream]

/-- **Views that look alike** are governed to the same view, or refused alike. -/
theorem governView_alike (htypes : TypeOnly engine)
    (hserde : serde.fromSlice (serde.toVec p.toBundleValue) = some p.toBundleValue) {v v' : PlanView}
    (h : ViewsAlike engine p v v') :
    governView engine draws serde p v = governView engine draws serde p v' := by
  obtain ⟨policies, hmasks, happlies⟩ := ResolvedPolicy.parseMaskingBundle_eq hserde
  rw [governView, governView, ResolvedPolicy.parseRowFilter_eq hserde, hmasks]
  show (if p.contractId = "" then _ else
      if p.hasDp then (LaplaceNoiseExec.ofBundle serde (p.toBundleHandle serde) p.tenantId .new).mapError
        DataFusionError.physical >>= fun op => pure ((enforceView engine serde p p.rowFilter policies
          v).laplaceNoise engine draws op)
      else pure (enforceView engine serde p p.rowFilter policies v)) = _
  rw [enforceView_alike htypes happlies h]
  rfl

/-- **Scans of tables that look alike** are seen as one. -/
theorem scan_alike (htypes : TypeOnly engine)
    (hserde : serde.fromSlice (serde.toVec p.toBundleValue) = some p.toBundleValue)
    {inner inner' : TableProvider} (h : TablesAlike engine p inner inner') (sel : Selection) :
    ((ContractTableProvider.new serde inner p).scan serde sel.projection sel.limit).map
        (PlanView.ofPlan engine draws) =
      ((ContractTableProvider.new serde inner' p).scan serde sel.projection sel.limit).map
        (PlanView.ofPlan engine draws) := by
  rw [scan_view, scan_view]
  have hscan := h.scan
  generalize inner.scan = scan at hscan
  generalize inner'.scan = scan' at hscan
  cases hscan with
  | error e => rfl
  | plan hviews =>
    show governView engine draws serde p _ >>= _ = governView engine draws serde p _ >>= _
    rw [governView_alike htypes hserde (hviews draws)]

/-- The table itself declares the same schema. -/
theorem governedSchema_alike {inner inner' : TableProvider} (h : TablesAlike engine p inner inner') :
    (ContractTableProvider.new serde inner p).governedSchema =
      (ContractTableProvider.new serde inner' p).governedSchema := by
  simp only [ContractTableProvider.new, h.schema]

/-- Tables in memory look alike if their batches do. -/
theorem tablesAlike_memory {schema : Schema} {batches batches' : List RecordBatch}
    (h : List.Forall₂ (fun b b' => b.schema = schema ∧ b'.schema = schema ∧
      LookAlike engine p schema b.rows b'.rows) batches batches') :
    TablesAlike engine p (.memory schema batches) (.memory schema batches') := by
  have hstream : List.Forall₂ (ItemsAlike engine p schema) (batches.map .ok) (batches'.map .ok) := by
    rw [List.forall₂_map_left_iff, List.forall₂_map_right_iff]
    exact h.imp fun b b' hbatch => .batch hbatch.1 hbatch.2.1 hbatch.2.2
  exact ⟨rfl, .plan fun draws => ⟨rfl, rfl, hstream⟩⟩

end Scans
end Griot
