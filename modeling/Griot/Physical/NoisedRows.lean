import Griot.Physical.BatchCharge
import Griot.Physical.Properties

/-! What noise makes of rows.

A row becomes noised column by column, each tagged cell under a draw of its own.
Over every run the rows that a stream emits are noised rows of its input, in order,
those of failed batches left out (`System.run_relays`); and what samples can make of
rows that come one by one, a run without a budget to enforce does emit
(`System.run_deals`). -/
namespace Griot.Physical

open Lib Budget LaplaceNoiseExec

namespace LaplaceNoiseExec
variable (op : LaplaceNoiseExec) (rounding : F64.Rounding)

/-- A cell under one draw. -/
def noisedCell (draw : Draw) (field : Field) (v : Value) : Value :=
  match op.dpColumns.lookup field.name with
  | none => v
  | some (epsilon, sensitivity) => match field.dataType with
    | .float64 => noiseFloat rounding (rounding.div sensitivity epsilon) draw v
    | .int64 => noiseInt rounding (rounding.div sensitivity epsilon) draw v
    | _ => v

/-- A row, column `k` under draw `k`. -/
def noisedRow (draws : Nat → Draw) (schema : Schema) (row : Row) : Row :=
  (schema.zip row).mapIdx fun k x => op.noisedCell rounding (draws k) x.1 x.2

/-- What a row may become by draws that the distribution has. -/
def Noises (sampled : Draw → Prop) (schema : Schema) (r r' : Row) : Prop :=
  ∃ draws : Nat → Draw, (∀ k, sampled (draws k)) ∧ r' = op.noisedRow rounding draws schema r

/-- The types of the tagged columns are those the noise is for. -/
def NoisableSchema (schema : Schema) : Prop :=
  ∀ field ∈ schema, op.tagged field.name = true →
    field.dataType = .float64 ∨ field.dataType = .int64

/-- What becomes of a column, every cell under a draw of its own. -/
structure NoisedColumn (sampled : Draw → Prop) (p : Field × ArrayRef) (col : ArrayRef) : Prop where
  cells : ∃ draws : Nat → Draw, (∀ j, sampled (draws j)) ∧
    col.cells = p.2.cells.mapIdx fun j v => op.noisedCell rounding (draws j) p.1 v
  noisable : op.tagged p.1.name = true → p.1.dataType = .float64 ∨ p.1.dataType = .int64

structure NoisedBatch (sampled : Draw → Prop) (batch batch' : RecordBatch) : Prop where
  schema_eq : batch'.schema = batch.schema
  noisable : op.NoisableSchema batch.schema
  rows : List.Forall₂ (op.Noises rounding sampled batch.schema) batch.rows batch'.rows

variable {op rounding} {sampled : Draw → Prop}

theorem noisedCell_untagged {field : Field} (h : op.tagged field.name = false) (draw : Draw)
    (v : Value) : op.noisedCell rounding draw field v = v := by
  have hnone : op.dpColumns.lookup field.name = none := by simpa [tagged] using h
  rw [noisedCell, hnone]

/-! ### A column -/

theorem noiseField_cells {draws : Nat → Draw} {field : Field} {col col' : ArrayRef}
    {s s' : Spending} (htype : col.dataType = field.dataType)
    (h : op.noiseField rounding draws field col s = (.ok col', s')) :
    (op.tagged field.name = true → field.dataType = .float64 ∨ field.dataType = .int64) ∧
      col'.cells = col.cells.mapIdx fun j v => op.noisedCell rounding (draws j) field v := by
  cases hlookup : op.dpColumns.lookup field.name with
  | none =>
    rw [noiseField, hlookup] at h
    obtain rfl := Except.ok.inj (Prod.mk.inj h).1
    refine ⟨fun htagged => absurd htagged (by simp [tagged, hlookup]), ?_⟩
    exact List.ext_getElem (by simp) fun j hj hj' => by simp [noisedCell, hlookup]
  | some params =>
    obtain ⟨epsilon, sensitivity⟩ := params
    simp only [noiseField, hlookup] at h
    split at h
    · exact absurd (Prod.mk.inj h).1 (by simp)
    · split at h
      · exact absurd (Prod.mk.inj h).1 (by simp)
      · rename_i noised hnoised
        obtain rfl := Except.ok.inj (Prod.mk.inj h).1
        simp only [noisedCell, hlookup]
        rw [applyLaplaceNoiseToColumn] at hnoised
        split at hnoised
        · rename_i hfloat
          obtain rfl := Except.ok.inj hnoised
          rw [htype] at hfloat
          exact ⟨fun _ => .inl hfloat, by simp [ArrayRef.mapIdx, hfloat]⟩
        · rename_i hint
          obtain rfl := Except.ok.inj hnoised
          rw [htype] at hint
          exact ⟨fun _ => .inr hint, by simp [ArrayRef.mapIdx, hint]⟩
        · exact absurd hnoised (by simp)

theorem noiseField_noised {draws : Nat → Draw} {field : Field} {col col' : ArrayRef}
    {s s' : Spending} (hdraws : ∀ j, sampled (draws j)) (htype : col.dataType = field.dataType)
    (h : op.noiseField rounding draws field col s = (.ok col', s')) :
    op.NoisedColumn rounding sampled (field, col) col' where
  cells := ⟨draws, hdraws, (noiseField_cells htype h).2⟩
  noisable := (noiseField_cells htype h).1

/-! ### Rows -/

theorem draws_of_forall₂ {α β : Type} {f : Draw → α → β} (hsampled : ∃ draw, sampled draw)
    {l : List α} {l' : List β}
    (h : List.Forall₂ (fun a b => ∃ draw, sampled draw ∧ b = f draw a) l l') :
    ∃ draws : Nat → Draw, (∀ k, sampled (draws k)) ∧ l' = l.mapIdx fun k a => f (draws k) a := by
  induction h with
  | nil =>
    obtain ⟨draw, hdraw⟩ := hsampled
    exact ⟨fun _ => draw, fun _ => hdraw, rfl⟩
  | cons hhead _ ih =>
    obtain ⟨draw, hdraw, rfl⟩ := hhead
    obtain ⟨draws, hdraws, rfl⟩ := ih
    refine ⟨fun k => k.casesOn draw draws, fun k => ?_, ?_⟩
    · cases k with
      | zero => exact hdraw
      | succ k => exact hdraws k
    · rw [List.mapIdx_cons]
      rfl

theorem cell_mapIdx {cells : List Value} {i : Nat} (hi : i < cells.length)
    (f : Nat → Value → Value) : cell (cells.mapIdx f) i = f i (cell cells i) := by
  simp [cell, hi]

theorem zip_row (schema : Schema) (columns : List ArrayRef) (i : Nat) :
    schema.zip (row (columns.map ArrayRef.cells) i) =
      (schema.zip columns).map fun p => (p.1, cell p.2.cells i) := by
  rw [row, List.map_map, List.zip_map_right]
  rfl

/-- **One row**: noised columns hold noised rows. -/
theorem noises_row (hsampled : ∃ draw, sampled draw) {schema : Schema}
    {columns columns' : List ArrayRef} {i : Nat}
    (h : List.Forall₂ (op.NoisedColumn rounding sampled) (schema.zip columns) columns')
    (hlength : ∀ p ∈ schema.zip columns, i < p.2.cells.length) :
    op.Noises rounding sampled schema (row (columns.map ArrayRef.cells) i)
      (row (columns'.map ArrayRef.cells) i) := by
  have hcells : List.Forall₂ (fun x v' => ∃ draw, sampled draw ∧ v' = op.noisedCell rounding draw x.1 x.2)
      ((schema.zip columns).map fun p => (p.1, cell p.2.cells i))
      (columns'.map fun col => cell col.cells i) := by
    rw [List.forall₂_map_left_iff, List.forall₂_map_right_iff]
    have hboth := (List.forall₂_and_left (p := fun p => i < p.2.cells.length) _ _).mpr
      ⟨hlength, h⟩
    refine hboth.imp fun p col hp => ?_
    obtain ⟨hi, ⟨draws, hdraws, hcol⟩, -⟩ := hp
    exact ⟨draws i, hdraws i, by rw [hcol, cell_mapIdx hi]⟩
  obtain ⟨draws, hdraws, hrow⟩ := draws_of_forall₂
    (f := fun draw (x : Field × Value) => op.noisedCell rounding draw x.1 x.2) hsampled hcells
  refine ⟨draws, hdraws, ?_⟩
  rw [noisedRow, zip_row, ← hrow, row, List.map_map]
  rfl

/-- A batch put together of noised columns. -/
theorem noisedBatch_of_rebuild (hsampled : ∃ draw, sampled draw) {batch batch' : RecordBatch}
    {columns : List ArrayRef} (h : rebuild batch columns = .ok batch')
    (hcolumns : List.Forall₂ (op.NoisedColumn rounding sampled) (batch.schema.zip batch.columns) columns) :
    op.NoisedBatch rounding sampled batch batch' := by
  rw [rebuild] at h
  obtain ⟨built, hbuilt, rfl⟩ : ∃ built, RecordBatch.tryNew batch.schema columns = .ok built ∧
      built = batch' := by
    cases htry : RecordBatch.tryNew batch.schema columns with
    | error e => exact absurd h (by simp [htry, Except.mapError])
    | ok built => exact ⟨built, rfl, by simpa [htry, Except.mapError] using h⟩
  obtain ⟨hschema, rfl⟩ := RecordBatch.tryNew_ok hbuilt
  have hlength : ∀ p ∈ batch.schema.zip batch.columns, p.2.cells.length = batch.numRows :=
    fun p hp => batch.length_column (List.of_mem_zip hp).2
  refine ⟨hschema, fun field hfield htagged => ?_, ?_⟩
  · obtain ⟨i, hi, rfl⟩ := List.getElem_of_mem hfield
    have hi' : i < batch.columns.length := batch.fits.length_eq ▸ hi
    have hmem : (batch.schema[i], batch.columns[i]) ∈ batch.schema.zip batch.columns :=
      List.mem_iff_getElem.mpr ⟨i, by simp [hi, hi'], List.getElem_zip⟩
    obtain ⟨col, -, hcol⟩ := exists_of_forall₂ hcolumns hmem
    exact hcol.noisable htagged
  · -- There is a column, and it is as long as it was.
    have hrows : built.numRows = batch.numRows := by
      obtain ⟨col, hcol⟩ := RecordBatch.tryNew_columns hbuilt
      obtain ⟨p, hp, hcol'⟩ := exists_of_forall₂ hcolumns.flip hcol
      obtain ⟨draws, -, hcells⟩ := hcol'.cells
      rw [← built.length_column hcol, hcells, List.length_mapIdx, hlength p hp]
    rw [RecordBatch.rows, RecordBatch.rows, hrows, rowsOf, rowsOf, List.forall₂_map_left_iff,
      List.forall₂_map_right_iff, List.forall₂_same]
    intro i hi
    exact noises_row hsampled hcolumns fun p hp => by
      rw [hlength p hp]
      exact List.mem_range.mp hi

/-- Where nothing is tagged, a row stays. -/
theorem noisedRow_untagged (h : op.dpColumns.isEmpty = true) (draws : Nat → Draw) {schema : Schema}
    {row : Row} (hlength : row.length = schema.length) : op.noisedRow rounding draws schema row = row := by
  have huntagged : ∀ c, op.tagged c = false := fun c => by
    rw [tagged, Dict.isEmpty_iff.mp h]
    rfl
  refine List.ext_getElem ?_ fun k hk hk' => ?_
  · simp [noisedRow, hlength]
  · simp [noisedRow, noisedCell_untagged (huntagged _)]

theorem NoisedBatch.refl (hsampled : ∃ draw, sampled draw) (h : op.dpColumns.isEmpty = true)
    (batch : RecordBatch) : op.NoisedBatch rounding sampled batch batch := by
  obtain ⟨draw, hdraw⟩ := hsampled
  refine ⟨rfl, fun field _ htagged => ?_, List.forall₂_same.mpr fun r hr => ?_⟩
  · rw [tagged, Dict.isEmpty_iff.mp h] at htagged
    exact absurd htagged (by simp)
  · refine ⟨fun _ => draw, fun _ => hdraw, (noisedRow_untagged h _ ?_).symm⟩
    obtain ⟨i, -, rfl⟩ := List.mem_map.mp hr
    simp [row, batch.fits.length_eq]

end LaplaceNoiseExec

/-! ### Streams -/

/-- What became of an item of the input: an error, or its batch noised. -/
def LaplaceNoiseExec.Outcome (op : LaplaceNoiseExec) (rounding : F64.Rounding)
    (sampled : Draw → Prop) (item out : Except DataFusionError RecordBatch) : Prop :=
  ∀ batch', out = .ok batch' → ∃ batch, item = .ok batch ∧ op.NoisedBatch rounding sampled batch batch'

/-- The items that were taken from the input became those that were put out, but for the
batch in the making. -/
structure Relayed (op : LaplaceNoiseExec) (rounding : F64.Rounding) (sampled : Draw → Prop)
    (input taken : BatchStream DataFusionError RecordBatch) (st : NoiseStream) : Prop where
  input_eq : input = taken ++ (st.work.toList.map fun w => .ok w.batch) ++ st.input
  emitted : List.Forall₂ (op.Outcome rounding sampled) taken st.output
  working : ∀ w, st.work = some w → ∃ front,
    w.batch.schema.zip w.batch.columns = front ++ w.todo ∧
      List.Forall₂ (op.NoisedColumn rounding sampled) front w.done

def Relays (op : LaplaceNoiseExec) (rounding : F64.Rounding) (sampled : Draw → Prop)
    (input : BatchStream DataFusionError RecordBatch) (st : NoiseStream) : Prop :=
  ∃ taken, Relayed op rounding sampled input taken st

section Relays
variable {op : LaplaceNoiseExec} {rounding : F64.Rounding} {sampled : Draw → Prop}
  {st : NoiseStream} {input : BatchStream DataFusionError RecordBatch}

theorem Relays.start : Relays op rounding sampled input (.start input) :=
  ⟨[], rfl, .nil, fun w hw => absurd hw (by simp [NoiseStream.start])⟩

theorem outcome_error (item : Except DataFusionError RecordBatch) (e : DataFusionError) :
    op.Outcome rounding sampled item (.error e) :=
  fun batch' h => absurd h (by simp)

/-- The batch in the making is put out, or fails. -/
theorem Relays.emit (h : Relays op rounding sampled input st) {w : Work} (hwork : st.work = some w)
    {out : Except DataFusionError RecordBatch} (hout : op.Outcome rounding sampled (.ok w.batch) out) :
    Relays op rounding sampled input (st.emit out) := by
  obtain ⟨taken, hinput, hemitted, -⟩ := h
  refine ⟨taken ++ [.ok w.batch], ?_, List.rel_append hemitted (.cons hout .nil),
    fun w hw => absurd hw (by simp [NoiseStream.emit])⟩
  simpa [hwork, NoiseStream.emit] using hinput

theorem Relays.poll (hsampled : ∃ draw, sampled draw) (h : Relays op rounding sampled input st)
    (hwork : st.work = none) : Relays op rounding sampled input (st.poll op) := by
  obtain ⟨taken, hinput, hemitted, -⟩ := h
  have hout : ∀ {item out rest}, st.input = item :: rest → op.Outcome rounding sampled item out →
      Relays op rounding sampled input {st.emit out with input := rest} := fun {item out rest} hst hitem =>
    ⟨taken ++ [item], by simpa [hwork, hst, NoiseStream.emit] using hinput,
      List.rel_append hemitted (.cons hitem .nil),
      fun w hw => absurd hw (by simp [NoiseStream.emit])⟩
  rw [NoiseStream.poll]
  split
  · exact ⟨taken, hinput, hemitted, fun w hw => absurd (hwork.symm.trans hw) (by simp)⟩
  · rename_i e rest hst
    exact hout hst (outcome_error _ _)
  · rename_i batch rest hst
    split
    · rename_i hempty
      refine hout hst fun batch' hbatch' => ?_
      obtain rfl := Except.ok.inj hbatch'
      exact ⟨batch, rfl, .refl hsampled hempty batch⟩
    · refine ⟨taken, by simpa [hwork, hst] using hinput, hemitted, fun w hw => ?_⟩
      obtain rfl := Option.some.inj hw
      exact ⟨[], rfl, .nil⟩

/-- One column of the batch in the making. -/
theorem Relays.advance (h : Relays op rounding sampled input st) {batch : RecordBatch} {field : Field}
    {col : ArrayRef} {todo : List (Field × ArrayRef)} {done : List ArrayRef}
    (hwork : st.work = some ⟨batch, (field, col) :: todo, done⟩) {draws : Nat → Draw}
    (hdraws : ∀ j, sampled (draws j)) {s s' : Spending} {result : Except PhysicalError ArrayRef}
    (hnoise : op.noiseField rounding draws field col s = (result, s')) (totalEpsilon : F64) :
    Relays op rounding sampled input (st.advance ⟨batch, todo, done⟩ result totalEpsilon) := by
  cases result with
  | error e =>
    obtain ⟨taken, hinput, hemitted, hworking⟩ := h.emit hwork (outcome_error _
      (.operator "LaplaceNoiseExec" e))
    exact ⟨taken, hinput, hemitted, hworking⟩
  | ok noised =>
    obtain ⟨taken, hinput, hemitted, hworking⟩ := h
    obtain ⟨front, hfront, hdone⟩ := hworking _ hwork
    refine ⟨taken, by simpa [hwork, NoiseStream.advance] using hinput, hemitted, fun w hw => ?_⟩
    obtain rfl := Option.some.inj hw
    have hzip : batch.schema.zip batch.columns = front ++ (field, col) :: todo := hfront
    have htype : col.dataType = field.dataType := by
      have hmem : (field, col) ∈ batch.schema.zip batch.columns := by
        rw [hzip]
        simp
      exact (((RecordBatch.forall₂_iff _ _ _).mp batch.fits).2 _ hmem).type_eq
    exact ⟨front ++ [(field, col)], by rw [hzip, List.append_assoc]; rfl,
      List.rel_append hdone (.cons (noiseField_noised hdraws htype hnoise) .nil)⟩

/-- All columns are done. -/
theorem Relays.finish (hsampled : ∃ draw, sampled draw) (h : Relays op rounding sampled input st)
    {batch : RecordBatch} {done : List ArrayRef} (hwork : st.work = some ⟨batch, [], done⟩) :
    Relays op rounding sampled input
      (st.emit ((rebuild batch done).mapError (.operator "LaplaceNoiseExec"))) := by
  refine h.emit hwork fun batch' hbatch' => ?_
  obtain ⟨taken, -, -, hworking⟩ := h
  obtain ⟨front, hfront, hdone⟩ := hworking _ hwork
  have hzip : batch.schema.zip batch.columns = front := by simpa using hfront
  cases hrebuild : rebuild batch done with
  | error e => exact absurd hbatch' (by simp [hrebuild, Except.mapError])
  | ok rebuilt =>
    obtain rfl : rebuilt = batch' := by simpa [hrebuild, Except.mapError] using hbatch'
    exact ⟨batch, rfl, noisedBatch_of_rebuild hsampled hrebuild (hzip ▸ hdone)⟩

namespace System
variable {ι : Type} [DecidableEq ι] {ops : ι → LaplaceNoiseExec} {s : System ι} {i : ι}

/-- **One turn**, of this stream or of another. -/
theorem step_relays (hsampled : ∃ draw, sampled draw) (hop : ops i = op)
    (h : Relays op rounding sampled input (s.streams i)) (j : ι) {draws : Nat → Draw}
    (hdraws : ∀ k, sampled (draws k)) :
    Relays op rounding sampled input ((s.step rounding ops j draws).streams i) := by
  by_cases hj : i = j
  · subst hj
    rw [step, hop]
    cases hwork : (s.streams i).work with
    | none =>
      simp only [put, Function.update_self]
      exact h.poll hsampled hwork
    | some w =>
      obtain ⟨batch, todo, done⟩ := w
      cases todo with
      | nil =>
        simp only [put, Function.update_self]
        exact h.finish hsampled hwork
      | cons column todo =>
        simp only [Function.update_self]
        exact h.advance hwork hdraws rfl _
  · rw [step]
    cases (s.streams j).work with
    | none => simpa [put, hj] using h
    | some w =>
      obtain ⟨batch, todo, done⟩ := w
      cases todo with
      | nil => simpa [put, hj] using h
      | cons column todo => simpa [hj] using h

/-- **A run**: what a stream has put out is what noise made of what it took. -/
theorem run_relays (hsampled : ∃ draw, sampled draw) (hop : ops i = op)
    {schedule : List (ι × (Nat → Draw))} (hdraws : ∀ turn ∈ schedule, ∀ k, sampled (turn.2 k))
    (h : Relays op rounding sampled input (s.streams i)) :
    Relays op rounding sampled input ((s.run rounding ops schedule).streams i) := by
  induction schedule generalizing s with
  | nil => exact h
  | cons turn schedule ih =>
    rw [List.forall_mem_cons] at hdraws
    exact ih hdraws.2 (step_relays hsampled hop h turn.1 hdraws.1)

end System

/-- The rows that a stream puts out are noised rows of its input, in order. -/
theorem Relays.rows (h : Relays op rounding sampled input st) {schema : Schema}
    (hschema : ∀ batch, .ok batch ∈ input → batch.schema = schema) :
    List.SublistForall₂ (fun r' r => op.Noises rounding sampled schema r r') (emittedRows st.output)
      (emittedRows input) := by
  obtain ⟨taken, hinput, hemitted, -⟩ := h
  rw [List.append_assoc] at hinput
  have hkept : ∃ kept, List.Forall₂ (op.Noises rounding sampled schema) kept (emittedRows st.output) ∧
      kept.Sublist (emittedRows taken) := by
    have htaken : ∀ batch, .ok batch ∈ taken → batch.schema = schema := fun batch hbatch =>
      hschema batch (by rw [hinput]; exact List.mem_append_left _ hbatch)
    clear hinput
    generalize st.output = output at hemitted
    induction hemitted with
    | nil => exact ⟨[], .nil, .slnil⟩
    | @cons item out taken output hitem _ ih =>
      obtain ⟨kept, hrows, hsub⟩ := ih fun batch hbatch =>
        htaken batch (List.mem_cons_of_mem _ hbatch)
      cases out with
      | error e =>
        refine ⟨kept, hrows, hsub.trans ?_⟩
        cases item with
        | error e' => exact .refl _
        | ok batch => exact List.sublist_append_right ..
      | ok batch' =>
        obtain ⟨batch, rfl, hbatch⟩ := hitem batch' rfl
        have hnoised := hbatch.rows
        rw [htaken batch (List.mem_cons_self ..)] at hnoised
        exact ⟨batch.rows ++ kept, List.rel_append hnoised hrows,
          List.Sublist.append (.refl _) hsub⟩
  obtain ⟨kept, hrows, hsub⟩ := hkept
  refine List.sublistForall₂_iff.mpr ⟨kept, hrows.flip, hsub.trans ?_⟩
  rw [hinput, emittedRows_append]
  exact List.sublist_append_left ..

/-- A batch that is put out has the schema of the input, and the noise is for its types. -/
theorem Relays.batch (h : Relays op rounding sampled input st) {schema : Schema}
    (hschema : ∀ batch, .ok batch ∈ input → batch.schema = schema) {batch' : RecordBatch}
    (hbatch' : .ok batch' ∈ st.output) : batch'.schema = schema ∧ op.NoisableSchema schema := by
  obtain ⟨taken, hinput, hemitted, -⟩ := h
  obtain ⟨item, hitem, hout⟩ := exists_of_forall₂ hemitted.flip hbatch'
  obtain ⟨batch, rfl, hbatch⟩ := hout batch' rfl
  have heq : batch.schema = schema := hschema batch (by
    rw [hinput, List.append_assoc]
    exact List.mem_append_left _ hitem)
  exact ⟨hbatch.schema_eq.trans heq, heq ▸ hbatch.noisable⟩

end Relays
/-! ### Runs without a budget to enforce -/

namespace LaplaceNoiseExec
variable {op : LaplaceNoiseExec} (rounding : F64.Rounding) (draws : Nat → Draw)

theorem noiseField_permissive (draw : Draw) {field : Field} {col : ArrayRef} {s : Spending}
    (hbudget : s.budget.enabled = false) (htype : col.dataType = field.dataType)
    (hnoisable : op.tagged field.name = true → field.dataType = .float64 ∨ field.dataType = .int64) :
    ∃ col' s', op.noiseField rounding (fun _ => draw) field col s = (.ok col', s') ∧
      s'.budget.enabled = false ∧ col'.cells = col.cells.map (op.noisedCell rounding draw field) := by
  have hok : ∃ col' s', op.noiseField rounding (fun _ => draw) field col s = (.ok col', s') ∧
      s'.budget.enabled = false := by
    cases htagged : op.tagged field.name with
    | false => exact ⟨col, s, noiseField_untagged htagged, hbudget⟩
    | true =>
      obtain ⟨sensitivity, hlookup⟩ := lookup_of_tagged htagged
      have hconsume : s.budget.consume rounding op.tenantId field.name (op.price field.name) =
          (.ok (), s.budget) := by
        simp [PrivacyBudgetTracker.consume, hbudget]
      have hcol : Noisable col := by
        rw [Noisable, htype]
        exact hnoisable htagged
      obtain ⟨noised, hnoised, -⟩ := applyLaplaceNoiseToColumn_noisable rounding hcol (fun _ => draw)
        field.name (rounding.div sensitivity (op.price field.name))
      refine ⟨noised, ⟨s.budget, rounding.add s.totalEpsilon (op.price field.name)⟩, ?_, hbudget⟩
      rw [noiseField, hlookup]
      simp only [hconsume, hnoised]
  obtain ⟨col', s', hfield, hbudget'⟩ := hok
  refine ⟨col', s', hfield, hbudget', ?_⟩
  rw [(noiseField_cells htype hfield).2]
  exact List.ext_getElem (by simp) fun j hj hj' => by simp

theorem noiseFields_permissive {fields : List (Field × ArrayRef)} (n : Nat) {s : Spending}
    (hbudget : s.budget.enabled = false) (htypes : ∀ p ∈ fields, p.2.dataType = p.1.dataType)
    (hnoisable : ∀ p ∈ fields, op.tagged p.1.name = true →
      p.1.dataType = .float64 ∨ p.1.dataType = .int64) :
    ∃ columns s', op.noiseFields rounding (fun k _ => draws k) n fields s = (.ok columns, s') ∧
      s'.budget.enabled = false ∧ columns.map ArrayRef.cells =
        fields.mapIdx fun k p => p.2.cells.map (op.noisedCell rounding (draws (n + k)) p.1) := by
  induction fields generalizing n s with
  | nil => exact ⟨[], s, rfl, hbudget, rfl⟩
  | cons p fields ih =>
    obtain ⟨field, col⟩ := p
    rw [List.forall_mem_cons] at htypes hnoisable
    obtain ⟨col', s₁, hfield, hbudget₁, hcells⟩ :=
      noiseField_permissive rounding (draws n) hbudget htypes.1 hnoisable.1
    obtain ⟨columns, s₂, hfields, hbudget₂, hrest⟩ :=
      ih (n + 1) hbudget₁ htypes.2 hnoisable.2
    refine ⟨col' :: columns, s₂, ?_, hbudget₂, ?_⟩
    · rw [@noiseFields_cons_ok op rounding (fun k _ => draws k) s n field col col' s₁ hfield, hfields]
      rfl
    · rw [List.map_cons, List.mapIdx_cons, hrest, hcells]
      simp only [Nat.add_assoc, Nat.add_comm 1]
      rfl

/-- **A batch without a budget to enforce**: it is noised by the draws at hand, the same for
every row. -/
theorem applyDpToBatch_permissive {batch : RecordBatch} {s : Spending}
    (hbudget : s.budget.enabled = false) (hne : batch.schema ≠ [])
    (hnoisable : op.NoisableSchema batch.schema) :
    ∃ batch' s', op.applyDpToBatch rounding (fun k _ => draws k) batch s = (.ok batch', s') ∧
      s'.budget.enabled = false ∧ batch'.schema = batch.schema ∧
      batch'.rows = batch.rows.map (op.noisedRow rounding draws batch.schema) := by
  have hfits := ((RecordBatch.forall₂_iff _ _ _).mp batch.fits).2
  obtain ⟨columns, s', hfields, hbudget', hcells⟩ := noiseFields_permissive rounding draws 0 hbudget
    (fun p hp => (hfits p hp).type_eq) fun p hp => hnoisable p.1 (List.of_mem_zip hp).1
  have hzip : batch.schema.zip batch.columns ≠ [] := by
    intro hnil
    have hlength := congrArg List.length hnil
    rw [List.length_zip, ← batch.fits.length_eq, Nat.min_self, List.length_nil] at hlength
    exact hne (List.length_eq_zero_iff.mp hlength)
  obtain ⟨batch', hrebuild, hcolumns⟩ := rebuild_ok (noiseFields_ok hfields).1 hzip
  refine ⟨batch', s', by simp only [applyDpToBatch, hfields, hrebuild], hbudget',
    rebuild_schema hrebuild, ?_⟩
  rw [← hcolumns] at hcells
  simp only [Nat.zero_add] at hcells
  have hnum : batch'.numRows = batch.numRows := by
    obtain ⟨p, hp⟩ := List.exists_mem_of_ne_nil _ hzip
    obtain ⟨k, hk, rfl⟩ := List.getElem_of_mem hp
    have hk' : k < batch'.columns.length := by
      have hlength := congrArg List.length hcells
      rw [List.length_map, List.length_mapIdx] at hlength
      exact hlength ▸ hk
    have hcolumn : batch'.columns[k].cells = _ :=
      (List.getElem_map ArrayRef.cells (h := by simpa using hk')).symm.trans
        (List.getElem_of_eq hcells _)
    rw [← batch'.length_column (List.getElem_mem hk'), hcolumn, List.getElem_mapIdx,
      List.length_map]
    exact (hfits _ (List.getElem_mem hk)).length_eq
  rw [RecordBatch.rows, RecordBatch.rows, hnum, rowsOf, rowsOf, List.map_map]
  refine List.map_congr_left fun i hi => ?_
  rw [row, hcells, Function.comp_apply, noisedRow, zip_row]
  refine List.ext_getElem (by simp) fun k hk hk' => ?_
  simp only [List.length_map, List.length_mapIdx] at hk
  have hcell := (hfits _ (List.getElem_mem hk)).length_eq
  simp only [List.getElem_zip] at hcell
  simp [cell, hcell, List.mem_range.mp hi]

end LaplaceNoiseExec

/-- **Rows dealt one by one**: whatever noise the draws can make of them is put out by some run. -/
theorem System.run_deals {op : LaplaceNoiseExec} (rounding : F64.Rounding)
    {sampled : Draw → Prop} {schema : Schema} (htagged : op.dpColumns.isEmpty = false) (hne : schema ≠ [])
    (hnoisable : op.NoisableSchema schema) {deals : List (Nat × RecordBatch)}
    {deals' : List (Nat × Row)}
    (h : Declaration.Redealt (fun batch r' => batch.schema = schema ∧
      ∃ r, batch.rows = [r] ∧ op.Noises rounding sampled schema r r') deals deals') {s : System Nat}
    (hbudget : s.budget.enabled = false) (hidle : ∀ p, (s.streams p).work = none)
    (hinput : ∀ p, (s.streams p).input = (Declaration.deal deals p).map .ok) :
    ∃ schedule, (∀ turn ∈ schedule, ∀ k, sampled (turn.2 k)) ∧ ∀ p,
      emittedRows ((s.run rounding (fun _ => op) schedule).streams p).output =
        emittedRows (s.streams p).output ++ Declaration.deal deals' p := by
  induction h generalizing s with
  | nil => exact ⟨[], fun turn hturn => absurd hturn (by simp), fun p => by simp [run, Declaration.deal]⟩
  | @cons d d' deals deals' hd _ ih =>
    obtain ⟨p, batch⟩ := d
    obtain ⟨p', r'⟩ := d'
    obtain ⟨rfl, rfl, r, hrow, draws, hdraws, rfl⟩ : p' = p ∧ batch.schema = schema ∧
      ∃ r, batch.rows = [r] ∧ ∃ draws : Nat → Draw, (∀ k, sampled (draws k)) ∧
        r' = op.noisedRow rounding draws schema r := hd
    obtain ⟨batch', s', hbatch, hbudget', -, hrows⟩ := applyDpToBatch_permissive
      (s := ⟨s.budget, (s.streams p').totalEpsilon⟩) rounding draws hbudget hne hnoisable
    obtain ⟨first, -, hdrawn, hfirst, hstreams⟩ := run_batch rounding (fun _ => op) p'
      (fun k _ => draws k) s (hidle p')
      (by rw [hinput, Declaration.deal_cons, if_pos rfl, List.map_cons]) htagged
    simp only [hbatch] at hfirst hstreams
    have hother : ∀ {q}, q ≠ p' → ((s.run rounding (fun _ => op) first).streams q) = s.streams q :=
      fun hq => by rw [hstreams, Function.update_of_ne hq]
    obtain ⟨second, hdrawn', hsecond⟩ := ih (s := s.run rounding (fun _ => op) first)
      (by rw [hfirst]; exact hbudget')
      (fun q => by
        by_cases hq : q = p'
        · rw [hq, hstreams, Function.update_self]
        · rw [hother hq, hidle])
      (fun q => by
        by_cases hq : q = p'
        · rw [hq, hstreams, Function.update_self]
        · rw [hother hq, hinput, Declaration.deal_cons, if_neg (Ne.symm hq)])
    refine ⟨first ++ second, fun turn hturn k => ?_, fun q => ?_⟩
    · obtain hmem | hmem := List.mem_append.mp hturn
      · obtain ⟨j, hj⟩ := hdrawn turn hmem
        rw [hj]
        exact hdraws j
      · exact hdrawn' turn hmem k
    · rw [run_append, hsecond, Declaration.deal_cons]
      by_cases hq : p' = q
      · subst hq
        rw [hstreams, Function.update_self, if_pos rfl]
        simp [Except.mapError, hrows, hrow]
      · rw [hother (Ne.symm hq), if_neg hq]

end Griot.Physical
