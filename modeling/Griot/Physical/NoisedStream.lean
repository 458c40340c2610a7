import Griot.Lib.Yields
import Griot.Physical.NoisedRows

/-! A whole stream under noise.

A batch that is put out holds the rows of its input, each cell under the draw of its
batch, its column and its row (`applyDpToBatch_rows`), and so does a stream
(`Yields.noiseStream`). Without a budget to enforce, whether a batch is put out is a
matter of its schema (`applyDpToBatch_ok_iff`). -/
namespace Griot.Physical

open Lib Budget

namespace LaplaceNoiseExec
variable {op : LaplaceNoiseExec} {r : F64.Rounding} {draws : Nat → Nat → Draw}
  {s s' : Spending}

/-- The rows of a batch, row `j` with column `k` under draw `k j`. -/
def noisedRows (op : LaplaceNoiseExec) (r : F64.Rounding) (draws : Nat → Nat → Draw)
    (schema : Schema) (rows : List Row) : List Row :=
  rows.mapIdx fun j row => op.noisedRow r (fun k => draws k j) schema row

/-! ### One batch -/

theorem noiseFields_cells {fields : List (Field × ArrayRef)} {n : Nat} {columns : List ArrayRef}
    (htypes : ∀ p ∈ fields, p.2.dataType = p.1.dataType)
    (h : op.noiseFields r draws n fields s = (.ok columns, s')) :
    (∀ p ∈ fields, op.tagged p.1.name = true → p.1.dataType = .float64 ∨ p.1.dataType = .int64) ∧
      columns.map ArrayRef.cells = fields.mapIdx fun k p =>
        p.2.cells.mapIdx fun j v => op.noisedCell r (draws (n + k) j) p.1 v := by
  induction fields generalizing n s columns with
  | nil =>
    obtain rfl := Except.ok.inj (Prod.mk.inj h).1
    exact ⟨fun p hp => absurd hp (by simp), rfl⟩
  | cons p fields ih =>
    obtain ⟨field, col⟩ := p
    rw [List.forall_mem_cons] at htypes
    rcases hfield : op.noiseField r (draws n) field col s with ⟨e | noised, s₁⟩
    · rw [noiseFields_cons_error hfield] at h
      cases (Prod.mk.inj h).1
    · obtain ⟨columns', rfl, hrest⟩ := noiseFields_cons_of_ok hfield h
      obtain ⟨hnoisable, hcells⟩ := noiseField_cells htypes.1 hfield
      obtain ⟨hnoisable', hcells'⟩ := ih htypes.2 hrest
      refine ⟨List.forall_mem_cons.mpr ⟨hnoisable, hnoisable'⟩, ?_⟩
      rw [List.map_cons, List.mapIdx_cons, hcells, hcells']
      simp only [Nat.add_assoc, Nat.add_comm 1]
      rfl

/-- Row `j` of noised columns is row `j` noised. -/
theorem noisedRow_row {schema : Schema} {columns columns' : List ArrayRef} {j : Nat}
    (h : columns'.map ArrayRef.cells = (schema.zip columns).mapIdx fun k p =>
      p.2.cells.mapIdx fun j v => op.noisedCell r (draws k j) p.1 v)
    (hlength : ∀ p ∈ schema.zip columns, j < p.2.cells.length) :
    row (columns'.map ArrayRef.cells) j =
      op.noisedRow r (fun k => draws k j) schema (row (columns.map ArrayRef.cells) j) := by
  rw [row, h, noisedRow, zip_row]
  refine List.ext_getElem (by simp) fun k hk hk' => ?_
  have hzip : k < (schema.zip columns).length := by simpa using hk
  have hmem : (schema.zip columns)[k] ∈ schema.zip columns := List.getElem_mem hzip
  simp only [List.getElem_map, List.getElem_mapIdx]
  exact cell_mapIdx (hlength _ hmem) _

theorem exists_zip_of_mem (batch : RecordBatch) {field : Field} (h : field ∈ batch.schema) :
    ∃ col, (field, col) ∈ batch.schema.zip batch.columns := by
  obtain ⟨col, -, hcol⟩ := exists_of_forall₂ (List.forall₂_iff_zip.mpr
    ⟨batch.fits.length_eq, fun {field col} hmem => hmem⟩ :
      List.Forall₂ (fun field col => (field, col) ∈ batch.schema.zip batch.columns) _ _) h
  exact ⟨col, hcol⟩

/-- **One batch**: its rows, every cell under a draw of its own. -/
theorem applyDpToBatch_rows {batch batch' : RecordBatch}
    (h : op.applyDpToBatch r draws batch s = (.ok batch', s')) :
    batch'.schema = batch.schema ∧ op.NoisableSchema batch.schema ∧ batch.schema ≠ [] ∧
      batch'.rows = op.noisedRows r draws batch.schema batch.rows := by
  have hfits := ((RecordBatch.forall₂_iff _ _ _).mp batch.fits).2
  have hfields := applyDpToBatch_ok h
  obtain ⟨hnoisable, hcells⟩ := noiseFields_cells (fun p hp => (hfits p hp).type_eq) hfields
  simp only [Nat.zero_add] at hcells
  have hlength : ∀ p ∈ batch.schema.zip batch.columns, p.2.cells.length = batch.numRows :=
    fun p hp => (hfits p hp).length_eq
  have htry : RecordBatch.tryNew batch.schema batch'.columns = .ok batch' := by
    rw [applyDpToBatch, hfields] at h
    have hrebuild : rebuild batch batch'.columns = .ok batch' := (Prod.mk.inj h).1
    rw [rebuild] at hrebuild
    cases hnew : RecordBatch.tryNew batch.schema batch'.columns with
    | error e => exact absurd hrebuild (by simp [hnew, Except.mapError])
    | ok built => simpa [hnew, Except.mapError] using hrebuild
  obtain ⟨col, hcol⟩ := RecordBatch.tryNew_columns htry
  obtain ⟨p, hp, hcolumn⟩ : ∃ p ∈ batch.schema.zip batch.columns,
      col.cells.length = p.2.cells.length := by
    have hcell := List.mem_map_of_mem (f := ArrayRef.cells) hcol
    rw [hcells] at hcell
    obtain ⟨k, hk, hcell⟩ := List.mem_mapIdx.mp hcell
    exact ⟨_, List.getElem_mem hk, by rw [← hcell, List.length_mapIdx]⟩
  have hnum : batch'.numRows = batch.numRows := by
    rw [← batch'.length_column hcol, hcolumn, hlength p hp]
  refine ⟨(RecordBatch.tryNew_ok htry).1, fun field hfield htagged => ?_,
    List.ne_nil_of_mem (List.of_mem_zip hp).1, ?_⟩
  · obtain ⟨col, hmem⟩ := exists_zip_of_mem batch hfield
    exact hnoisable _ hmem htagged
  · rw [RecordBatch.rows, RecordBatch.rows, hnum, noisedRows, rowsOf, rowsOf]
    refine List.ext_getElem (by simp) fun j hj hj' => ?_
    simp only [List.length_map, List.length_range] at hj
    simp only [List.getElem_map, List.getElem_range, List.getElem_mapIdx]
    exact noisedRow_row hcells fun p hp => by rw [hlength p hp]; exact hj

/-- **When a batch is put out** without a budget to enforce: it has a column, and the tagged ones
are numbers. -/
theorem applyDpToBatch_ok_iff {batch : RecordBatch} (hbudget : s.budget.enabled = false) :
    (∃ batch', (op.applyDpToBatch r draws batch s).1 = .ok batch') ↔
      batch.schema ≠ [] ∧ op.NoisableSchema batch.schema := by
  constructor
  · intro ⟨batch', h⟩
    obtain ⟨-, hnoisable, hne, -⟩ := applyDpToBatch_rows (Prod.ext h rfl)
    exact ⟨hne, hnoisable⟩
  · intro ⟨hne, hnoisable⟩
    cases h : (op.applyDpToBatch r draws batch s).1 with
    | ok batch' => exact ⟨batch', rfl⟩
    | error e =>
      exfalso
      obtain ⟨hnil, -⟩ | ⟨e', herror⟩ := applyDpToBatch_error (Prod.ext h rfl)
      · obtain ⟨field, hfield⟩ := List.exists_mem_of_ne_nil _ hne
        obtain ⟨col, hmem⟩ := exists_zip_of_mem batch hfield
        rw [hnil] at hmem
        cases hmem
      · obtain ⟨before, field, col, after, budget, hsplit, -, htagged, hcharge, -, hfails⟩ :=
          noiseFields_error herror
        have hmem : (field, col) ∈ batch.schema.zip batch.columns := by simp [hsplit]
        obtain ⟨hrefuses, -⟩ | ⟨-, hcol, -⟩ := hfails
        · have henabled := PrivacyBudgetTracker.chargeAll_enabled r op.tenantId op.price
            (op.charged before) s.budget
          rw [hcharge, hbudget] at henabled
          exact absurd (hrefuses.1.symm.trans henabled) (by simp)
        · refine hcol ?_
          rw [Noisable, (((RecordBatch.forall₂_iff _ _ _).mp batch.fits).2 _ hmem).type_eq]
          exact hnoisable field (List.of_mem_zip hmem).1 htagged

/-- A budget that is not enforced stays so, whatever becomes of the batch. -/
theorem applyDpToBatch_enabled (hbudget : s.budget.enabled = false) (batch : RecordBatch) :
    (op.applyDpToBatch r draws batch s).2.budget.enabled = false := by
  have hcharged : ∀ fields, (PrivacyBudgetTracker.chargeAll r op.tenantId op.price
      (op.charged fields) s.budget).1.enabled = false :=
    fun fields => (PrivacyBudgetTracker.chargeAll_enabled ..).trans hbudget
  rw [applyDpToBatch]
  rcases hfields : op.noiseFields r draws 0 (batch.schema.zip batch.columns) s with ⟨e | columns, s₁⟩
  · obtain ⟨before, field, col, after, budget, -, -, -, hcharge, -, hfails⟩ := noiseFields_error hfields
    have henabled := hcharged before
    rw [hcharge] at henabled
    obtain ⟨-, hsame⟩ | ⟨-, -, hconsume⟩ := hfails
    · exact (congrArg PrivacyBudgetTracker.enabled hsame).trans henabled
    · have hsame : budget.consume r op.tenantId field.name (op.price field.name) = (.ok (), budget) := by
        have henabled' : budget.enabled = false := henabled
        simp [PrivacyBudgetTracker.consume, henabled']
      exact (congrArg (fun result => result.2.enabled) (hconsume.symm.trans hsame)).trans henabled
  · have henabled := hcharged (batch.schema.zip batch.columns)
    rw [(noiseFields_ok hfields).2.1] at henabled
    exact henabled

/-! ### A stream -/

variable {schema : Schema} {stream : BatchStream DataFusionError RecordBatch}
  {expected : List (List Row)} {streamDraws : Nat → Nat → Nat → Draw}

theorem noiseStream_ok (n : Nat) (spending : Spending) (batch : RecordBatch) :
    op.noiseStream r streamDraws n spending (.ok batch :: stream) =
      (op.applyDpToBatch r (streamDraws n) batch spending).1.mapError (.operator "LaplaceNoiseExec") ::
        op.noiseStream r streamDraws (n + 1) (op.applyDpToBatch r (streamDraws n) batch spending).2
          stream := rfl

/-- **A stream**: what is expected of it, noised. -/
theorem noiseStream_yields
    (h : Yields RecordBatch.batching (fun batch => batch.schema = schema) stream expected) (n : Nat)
    (spending : Spending) :
    Yields RecordBatch.batching (fun batch => batch.schema = schema)
      (op.noiseStream r streamDraws n spending stream)
      (expected.mapIdx fun i rows => op.noisedRows r (streamDraws (n + i)) schema rows) := by
  induction h generalizing n spending with
  | nil => exact .nil
  | @cons item rows stream expected hitem _ ih =>
    have hnext : ∀ spending, Yields RecordBatch.batching (fun batch => batch.schema = schema)
        (op.noiseStream r streamDraws (n + 1) spending stream)
        (expected.mapIdx fun i rows => op.noisedRows r (streamDraws (n + (i + 1))) schema rows) :=
      fun spending => by
        have htail := ih (n + 1) spending
        simp only [Nat.add_assoc, Nat.add_comm 1] at htail
        exact htail
    rw [List.mapIdx_cons]
    cases item with
    | error e => exact .cons (fun batch hbatch => absurd hbatch (by simp)) (hnext spending)
    | ok batch =>
      rw [noiseStream_ok]
      refine .cons (fun batch' hbatch' => ?_) (hnext _)
      obtain ⟨hschema, hrows⟩ := hitem batch rfl
      cases hnoised : (op.applyDpToBatch r (streamDraws n) batch spending).1 with
      | error e =>
        rw [hnoised] at hbatch'
        cases hbatch'
      | ok noised =>
        rw [hnoised] at hbatch'
        obtain rfl : noised = batch' := Except.ok.inj hbatch'
        obtain ⟨hsame, -, -, hnoisedRows⟩ := applyDpToBatch_rows (Prod.ext hnoised rfl)
        have hrows' : batch.rows = rows := hrows
        exact ⟨hsame.trans hschema, by rw [← hrows', ← hschema]; exact hnoisedRows⟩

theorem noisedRows_untagged (h : op.dpColumns.isEmpty = true) (draws : Nat → Nat → Draw)
    (batch : RecordBatch) : op.noisedRows r draws batch.schema batch.rows = batch.rows := by
  refine List.ext_getElem (by simp [noisedRows]) fun j hj hj' => ?_
  simp only [noisedRows, List.getElem_mapIdx]
  refine noisedRow_untagged h _ ?_
  obtain ⟨i, -, hrow⟩ := List.mem_map.mp (List.getElem_mem hj')
  rw [← hrow]
  simp [row, batch.fits.length_eq]

/-- Where nothing is tagged, noise changes nothing that is expected. -/
theorem yields_untagged (hempty : op.dpColumns.isEmpty = true)
    (h : Yields RecordBatch.batching (fun batch => batch.schema = schema) stream expected) (n : Nat) :
    Yields RecordBatch.batching (fun batch => batch.schema = schema) stream
      (expected.mapIdx fun i rows => op.noisedRows r (streamDraws (n + i)) schema rows) := by
  induction h generalizing n with
  | nil => exact .nil
  | @cons item rows stream expected hitem _ ih =>
    rw [List.mapIdx_cons]
    refine .cons (fun batch hbatch => ?_) ?_
    · obtain ⟨hschema, hrows⟩ := hitem batch hbatch
      have hrows' : batch.rows = rows := hrows
      exact ⟨hschema, by rw [← hrows', ← hschema]; exact (noisedRows_untagged hempty _ batch).symm⟩
    · have htail := ih (n + 1)
      simp only [Nat.add_assoc, Nat.add_comm 1] at htail
      exact htail

/-- Without a budget to enforce the items of a stream fail alike. -/
theorem noiseStream_uniform {P : Prop} (hs : Uniform P stream)
    (hschema : ∀ batch, .ok batch ∈ stream → batch.schema = schema) (n : Nat) {spending : Spending}
    (hbudget : spending.budget.enabled = false) :
    Uniform (P ∧ schema ≠ [] ∧ op.NoisableSchema schema)
      (op.noiseStream r streamDraws n spending stream) := by
  constructor
  · intro ⟨hp, hnoisable⟩
    have hok := hs.1 hp
    clear hs hp
    induction stream generalizing n spending with
    | nil => exact fun item hitem => absurd hitem (by simp [noiseStream])
    | cons item stream ih =>
      rw [List.forall_mem_cons] at hok
      obtain ⟨⟨batch, rfl⟩, hrest⟩ := hok
      have hbatch : batch.schema = schema := hschema batch (List.mem_cons_self ..)
      obtain ⟨noised, hnoised⟩ := (@applyDpToBatch_ok_iff op r (streamDraws n) spending batch
        hbudget).mpr (hbatch.symm ▸ hnoisable)
      rw [noiseStream_ok, List.forall_mem_cons]
      refine ⟨⟨noised, by rw [hnoised]; rfl⟩, ih (fun batch hmem =>
        hschema batch (List.mem_cons_of_mem _ hmem)) (n + 1) (applyDpToBatch_enabled hbudget batch) hrest⟩
  · intro hnot item rest hcons
    cases stream with
    | nil => cases hcons
    | cons first stream =>
      cases first with
      | error e => exact ⟨e, (List.cons.inj hcons).1.symm⟩
      | ok batch =>
        rw [noiseStream_ok] at hcons
        obtain ⟨hitem, -⟩ := List.cons.inj hcons
        have hbatch : batch.schema = schema := hschema batch (List.mem_cons_self ..)
        cases hnoised : (op.applyDpToBatch r (streamDraws n) batch spending).1 with
        | error e => exact ⟨_, hitem.symm.trans (by rw [hnoised]; rfl)⟩
        | ok noised =>
          exfalso
          have hnoisable := (applyDpToBatch_ok_iff hbudget).mp ⟨noised, hnoised⟩
          rw [hbatch] at hnoisable
          refine hnot ⟨?_, hnoisable⟩
          by_contra hp
          obtain ⟨e, he⟩ := hs.2 hp _ _ rfl
          cases he

end LaplaceNoiseExec
end Griot.Physical
