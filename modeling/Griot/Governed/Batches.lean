import Griot.Governed.Meaning

/-! The enforcement operators on one batch.

The stack of operators keeps, masks and projects the rows of a batch one by one,
as the policy says (`governBatch_rowWise`). -/
namespace Griot

open Lib Physical
open Logical (MaskPolicy)

section Batches
variable (engine : Engine) (p : ResolvedPolicy) (schema : Schema)

/-- The masking operator does to every column what the policy says. -/
def Applies (policies : Dict String MaskPolicy) : Prop :=
  ∀ column, (policies.lookup column).getD .noop = (p.actionFor column).toPolicy

/-- What the enforcement operators do to one batch. -/
def enforceBatch (bundle : ContractBundleHandle) (policies : Dict String MaskPolicy)
    (batch : RecordBatch) : Except DataFusionError RecordBatch :=
  RowFilterExec.onBatch engine ⟨bundle, p.rowFilter⟩ batch >>=
    MaskingExec.onBatch engine ⟨bundle, policies, MaskingExec.maskedOutputSchema schema policies⟩

/-- What the whole stack does to one batch. -/
def governBatch (bundle : ContractBundleHandle) (policies : Dict String MaskPolicy)
    (projection : Option (List Nat)) (batch : RecordBatch) : Except DataFusionError RecordBatch :=
  enforceBatch engine p schema bundle policies batch >>= fun masked =>
    .ok (projection.elim masked (masked.project ·))

variable {engine p schema}

theorem maskField_eq {policies : Dict String MaskPolicy} (happlies : Applies p policies)
    (field : Field) (col : ArrayRef) :
    MaskingExec.maskField engine policies field col =
      MaskingExec.applyMaskToColumn engine col field.name (p.actionFor field.name).toPolicy := by
  rw [← happlies, MaskingExec.maskField]
  cases policies.lookup field.name with
  | none => rfl
  | some policy =>
    by_cases hnoop : policy = .noop
    · subst hnoop
      rfl
    · simp [hnoop]

/-- **The columns of a batch**, masked one by one. -/
theorem maskColumns_cells {policies : Dict String MaskPolicy} (happlies : Applies p policies)
    {n : Nat} {fields : List Field} {cols cols' : List ArrayRef}
    (hfits : List.Forall₂ (Admits n) fields cols)
    (h : MaskingExec.maskColumns engine policies fields cols = .ok cols') :
    cols'.map ArrayRef.cells = List.zipWith (fun field cells =>
      cells.map (maskedCell engine field.dataType (p.actionFor field.name))) fields
        (cols.map ArrayRef.cells) := by
  induction hfits generalizing cols' with
  | nil =>
    obtain rfl := Except.ok.inj h
    rfl
  | @cons field col fields cols hfit _ ih =>
    obtain ⟨col', hcol', h⟩ := bind_eq_ok.mp h
    obtain ⟨rest, hrest, h⟩ := bind_eq_ok.mp h
    obtain rfl := Except.ok.inj h
    rw [maskField_eq happlies] at hcol'
    rw [List.map_cons, List.map_cons, List.zipWith_cons_cons, ih hrest,
      applyMaskToColumn_cells hcol', hfit.type_eq]

theorem row_length {batch : RecordBatch} {row : Row} (h : row ∈ batch.rows) :
    row.length = batch.schema.length := by
  obtain ⟨i, -, rfl⟩ := List.mem_map.mp h
  rw [Lib.row, List.length_map, List.length_map, batch.fits.length_eq]

/-- A row that nothing masks. -/
theorem maskedRow_noop (h : ∀ column, p.actionFor column = .noop) {row : Row}
    (hlength : row.length = schema.length) : maskedRow engine p schema row = row := by
  apply List.ext_getElem
  · simp [maskedRow, hlength]
  · intro i hi hi'
    simp only [maskedRow, List.getElem_zipWith, h]
    cases row[i] <;> rfl

theorem masking_rowWise (bundle : ContractBundleHandle) {policies : Dict String MaskPolicy}
    (happlies : Applies p policies) (outputSchema : Schema) :
    RowWise RecordBatch.batching (fun batch => batch.schema = schema)
      (MaskingExec.onBatch engine ⟨bundle, policies, outputSchema⟩) (fun _ => True)
      fun row => some (maskedRow engine p schema row) := by
  intro batch hschema masked hmasked
  refine ⟨trivial, ?_⟩
  rw [List.filterMap_eq_map']
  rw [MaskingExec.onBatch] at hmasked
  split at hmasked
  · -- No column is masked.
    rename_i hempty
    obtain rfl := Except.ok.inj hmasked
    have hnoop : ∀ column, p.actionFor column = .noop := fun column => by
      have := happlies column
      rw [Dict.isEmpty_iff.mp hempty] at this
      cases haction : p.actionFor column <;> simp_all [MaskAction.toPolicy]
    have hrows : ∀ row ∈ batch.rows, maskedRow engine p schema row = id row := fun row hrow =>
      maskedRow_noop hnoop (by rw [row_length hrow, hschema])
    show batch.rows = batch.rows.map (maskedRow engine p schema)
    rw [List.map_congr_left hrows, List.map_id]
  · cases happly : MaskingExec.applyMaskingToBatch engine batch policies outputSchema with
    | error e => exact absurd hmasked (by simp [happly, Except.mapError])
    | ok out =>
      obtain rfl : out = masked := by simpa [happly, Except.mapError] using hmasked
      obtain ⟨cols, hcols, hnew⟩ := bind_eq_ok.mp happly
      cases htry : RecordBatch.tryNew outputSchema cols with
      | error e => exact absurd hnew (by simp [htry, Except.mapError])
      | ok built =>
        obtain rfl : built = out := by simpa [htry, Except.mapError] using hnew
        obtain ⟨-, rfl⟩ := RecordBatch.tryNew_ok htry
        rw [hschema] at hcols
        have hcells := maskColumns_cells happlies (hschema ▸ batch.fits) hcols
        have hlength : ∀ cells ∈ batch.columns.map ArrayRef.cells, cells.length = batch.numRows := by
          intro cells hmem
          obtain ⟨col, hcol, rfl⟩ := List.mem_map.mp hmem
          exact batch.length_column hcol
        -- There is a column, and it is as long as it was.
        have hnum : built.numRows = batch.numRows := by
          obtain ⟨col, hcol⟩ := RecordBatch.tryNew_columns htry
          rw [← built.length_column hcol]
          exact length_of_mem_zipWith hlength (hcells ▸ List.mem_map_of_mem hcol)
        show built.rows = batch.rows.map (maskedRow engine p schema)
        rw [RecordBatch.rows, hcells, hnum, RecordBatch.rows, rows_zipWith _ _ _ _ hlength]
        rfl

theorem rowFilter_rowWise (bundle : ContractBundleHandle) :
    RowWise RecordBatch.batching (fun batch => batch.schema = schema)
      (RowFilterExec.onBatch engine ⟨bundle, p.rowFilter⟩) (fun batch => batch.schema = schema)
      (Option.guard (keeps engine p schema)) := by
  intro batch hschema filtered hfiltered
  rw [List.filterMap_eq_filter]
  have hall : (∀ row, keeps engine p schema row = true) →
      batch.rows = batch.rows.filter (keeps engine p schema) := fun hkeeps =>
    (List.filter_eq_self.mpr fun row _ => hkeeps row).symm
  cases hfilter : p.rowFilter with
  | none =>
    rw [hfilter] at hfiltered
    obtain rfl := Except.ok.inj hfiltered
    exact ⟨hschema, hall fun row => by rw [keeps, hfilter]⟩
  | some filter =>
    rw [hfilter, RowFilterExec.onBatch] at hfiltered
    dsimp only at hfiltered
    split at hfiltered
    · rename_i hblank
      obtain rfl := Except.ok.inj hfiltered
      exact ⟨hschema, hall fun row => by simp [keeps, hfilter, hblank]⟩
    · rename_i hblank
      cases happly : RowFilterExec.applyFilterToBatch engine batch filter with
      | error e => exact absurd hfiltered (by simp [happly, Except.mapError])
      | ok out =>
        obtain rfl : out = filtered := by simpa [happly, Except.mapError] using hfiltered
        obtain ⟨predicate, hcompile, heval⟩ := bind_eq_ok.mp happly
        rw [hschema] at hcompile
        rw [RowFilterExec.evaluate] at heval
        split at heval
        · exact absurd heval (by simp)
        · split at heval
          · exact absurd heval (by simp)
          · obtain rfl := Except.ok.inj heval
            have hkeeps : keeps engine p schema = predicate.holds := funext fun row => by
              simp [keeps, hfilter, hblank, hcompile]
            rw [hkeeps]
            exact ⟨hschema, batch.rows_filterRows predicate.holds⟩

theorem project_rowWise (projection : Option (List Nat)) :
    RowWise RecordBatch.batching (fun _ => True)
      (fun batch : RecordBatch =>
        (.ok (projection.elim batch (batch.project ·)) : Except DataFusionError RecordBatch))
      (fun _ => True) (fun row => some (projection.elim row (select · row))) := by
  intro batch _ projected hprojected
  obtain rfl := Except.ok.inj hprojected
  refine ⟨trivial, ?_⟩
  rw [List.filterMap_eq_map']
  cases projection with
  | none => exact (List.map_id _).symm
  | some indices => exact batch.rows_project indices

/-- **One batch**: the stack keeps, masks and projects its rows one by one. -/
theorem governBatch_rowWise {bundle : ContractBundleHandle} {policies : Dict String MaskPolicy}
    (happlies : Applies p policies) (projection : Option (List Nat)) :
    RowWise RecordBatch.batching (fun batch => batch.schema = schema)
      (governBatch engine p schema bundle policies projection) (fun _ => True)
      fun row => (Option.guard (keeps engine p schema) row >>= fun row =>
        some (maskedRow engine p schema row)) >>= fun row =>
          some (projection.elim row (select · row)) := by
  exact ((rowFilter_rowWise bundle).comp (masking_rowWise bundle happlies
    (MaskingExec.maskedOutputSchema schema policies))).comp (project_rowWise projection)

end Batches

end Griot
