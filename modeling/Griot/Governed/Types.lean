import Griot.Governed.Batches

/-! Whether a policy can be enforced is a matter of types.

If evaluation and casts fail because of types alone, then the operators enforce a
policy on every batch of a schema or on none of them (`governBatch_ok_iff`). -/
namespace Griot

open Lib Physical
open Logical (MaskPolicy)

/-- Evaluation and casts fail because of types, not of values. -/
structure TypeOnly (engine : Engine) : Prop where
  predicate : ∀ expr schema pe, engine.createPhysicalExpr expr schema = .ok pe →
    ∀ rows rows', pe.fails rows = pe.fails rows'
  cast : ∀ dataType cells cells', engine.castFails dataType cells = engine.castFails dataType cells'
  render : ∀ dataType v, v.hasType dataType = true → v ≠ .null →
    engine.castFails dataType [] = none → (engine.render dataType v).isSome

section Types
variable {engine : Engine} {p : ResolvedPolicy} {schema : Schema}

/-! ### Masked columns fit the masked schema -/

theorem maskText_ne_null {policy : MaskPolicy} {text : Option String} (h : text.isSome) :
    MaskingExec.maskText engine policy text ≠ .null := by
  obtain ⟨s, rfl⟩ := Option.isSome_iff_exists.mp h
  simp [MaskingExec.maskText]

theorem substitute_ne_null {dataType : DataType} {v : {v : Value // v.hasType dataType = true}}
    (h : MaskingExec.substitute dataType = some v) : (v : Value) ≠ .null := by
  cases dataType with
  | int64 | float64 | boolean =>
    obtain rfl := Option.some.inj h
    simp
  | utf8 | largeUtf8 | other => exact absurd h (by simp [MaskingExec.substitute])

/-- A masked column has the masked type, and a null only where there was one. -/
theorem applyMaskToColumn_spec (htypes : TypeOnly engine) {col col' : ArrayRef} {colName : String}
    {policy : MaskPolicy} (h : MaskingExec.applyMaskToColumn engine col colName policy = .ok col') :
    col'.dataType = MaskingExec.maskedFieldType col.dataType policy ∧
      col'.cells.length = col.cells.length ∧ (.null ∈ col'.cells → .null ∈ col.cells) := by
  rw [MaskingExec.applyMaskToColumn] at h
  split at h
  · rename_i hnoop
    obtain rfl := Except.ok.inj h
    exact ⟨by rw [hnoop, MaskingExec.maskedFieldType_noop], rfl, id⟩
  rename_i hnoop
  split at h
  · rename_i hstring
    obtain rfl := Except.ok.inj h
    refine ⟨(MaskingExec.maskedFieldType_string hstring hnoop).symm, List.length_map ..,
      fun hnull => ?_⟩
    obtain ⟨v, hv, htext⟩ := List.mem_map.mp hnull
    rcases textOf_of_typed hstring (col.typed v hv) with rfl | ⟨s, rfl⟩
    · exact hv
    · exact absurd htext (maskText_ne_null rfl)
  rename_i hstring
  have htype := MaskingExec.maskedFieldType_other hstring hnoop
  split at h
  · rename_i hproducing
    rw [if_pos hproducing] at htype
    rw [MaskingExec.maskViaUtf8Cast] at h
    split at h
    · exact absurd h (by simp)
    · rename_i hcast
      obtain rfl := Except.ok.inj h
      refine ⟨htype.symm, List.length_map .., fun hnull => ?_⟩
      obtain ⟨v, hv, htext⟩ := List.mem_map.mp hnull
      by_cases hvnull : v = .null
      · exact hvnull ▸ hv
      · have hsome : (MaskingExec.castText engine col.dataType v).isSome := by
          rw [MaskingExec.castText, if_neg (by simpa using hvnull)]
          exact htypes.render _ v (col.typed v hv) hvnull ((htypes.cast ..).trans hcast)
        exact absurd htext (maskText_ne_null hsome)
  · rename_i hproducing
    rw [if_neg hproducing] at htype
    split at h
    · rename_i w hw
      obtain rfl := Except.ok.inj h
      refine ⟨htype.symm, List.length_map .., fun hnull => ?_⟩
      obtain ⟨v, hv, hcell⟩ := List.mem_map.mp hnull
      split at hcell
      · rename_i hvnull
        rw [Value.isNull_iff] at hvnull
        exact hvnull ▸ hv
      · exact absurd hcell (substitute_ne_null hw)
    · exact absurd h (by simp)

/-! ### Types that can be masked and filtered -/

variable (engine p schema)

/-- A policy has a value for the type. -/
def Maskable (dataType : DataType) (policy : MaskPolicy) : Prop :=
  policy = .noop ∨ (dataType = .utf8 ∨ dataType = .largeUtf8) ∨
    if MaskingExec.isStringProducing policy then engine.castFails dataType [] = none
    else (MaskingExec.substitute dataType).isSome

/-- The filter of the policy is a predicate over the rows of the schema. -/
def Filterable : Prop :=
  match p.rowFilter with
  | none => True
  | some filter => filter = "" ∨ ∃ predicate, RowFilterExec.compileFilter engine schema filter =
      .ok predicate ∧ predicate.fails [] = none ∧ predicate.dataType = .boolean

/-- The policy can be enforced on batches of the schema. -/
structure Enforceable (policies : Dict String MaskPolicy) : Prop where
  filter : Filterable engine p schema
  masks : policies.isEmpty = false → schema ≠ [] ∧
    ∀ field ∈ schema, Maskable engine field.dataType (p.actionFor field.name).toPolicy

variable {engine p schema}

/-- Whether a column can be masked is a matter of its type. -/
theorem applyMaskToColumn_ok_iff (htypes : TypeOnly engine) {col : ArrayRef} {colName : String}
    {policy : MaskPolicy} :
    (∃ col', MaskingExec.applyMaskToColumn engine col colName policy = .ok col') ↔
      Maskable engine col.dataType policy := by
  rw [MaskingExec.applyMaskToColumn, Maskable]
  by_cases hnoop : policy = .noop
  · simp [hnoop]
  by_cases hstring : col.dataType = .utf8 ∨ col.dataType = .largeUtf8
  · simp [hnoop, hstring]
  simp only [hnoop, hstring, if_false, false_or]
  by_cases hproducing : MaskingExec.isStringProducing policy = true
  · simp only [hproducing, if_true, MaskingExec.maskViaUtf8Cast,
      htypes.cast col.dataType [] col.cells]
    constructor
    · intro h
      obtain ⟨col', h⟩ := h
      split at h
      · exact absurd h (by simp)
      · assumption
    · intro h
      split
      · rename_i hfails
        exact absurd (hfails.symm.trans h) (by simp)
      · exact ⟨_, rfl⟩
  · simp only [hproducing]
    cases hw : MaskingExec.substitute col.dataType with
    | none => simp
    | some w => simp

/-- Filtering a batch. -/
theorem rowFilter_ok_iff (htypes : TypeOnly engine) (bundle : ContractBundleHandle)
    {batch : RecordBatch} (hschema : batch.schema = schema) :
    (∃ out, RowFilterExec.onBatch engine ⟨bundle, p.rowFilter⟩ batch = .ok out) ↔
      Filterable engine p schema := by
  rw [RowFilterExec.onBatch, Filterable]
  cases p.rowFilter with
  | none => simp
  | some filter =>
    by_cases hblank : filter = ""
    · simp [hblank]
    simp only [hblank, if_false, false_or, mapError_ok, RowFilterExec.applyFilterToBatch,
      bind_eq_ok, hschema]
    have hevaluate : ∀ predicate, RowFilterExec.compileFilter engine schema filter = .ok predicate →
        ((∃ out, RowFilterExec.evaluate predicate batch = .ok out) ↔
          predicate.fails [] = none ∧ predicate.dataType = .boolean) := by
      intro predicate hcompile
      obtain ⟨-, -, hcompile⟩ := bind_eq_ok.mp hcompile
      obtain ⟨expr, -, hcompile⟩ := bind_eq_ok.mp hcompile
      rw [RowFilterExec.evaluate,
        htypes.predicate expr schema predicate (mapError_ok.mp hcompile) batch.rows []]
      cases hfails : predicate.fails [] with
      | some e => simp
      | none => by_cases hboolean : predicate.dataType = .boolean <;> simp [hboolean]
    constructor
    · intro h
      obtain ⟨out, predicate, hcompile, heval⟩ := h
      exact ⟨predicate, hcompile, (hevaluate predicate hcompile).mp ⟨out, heval⟩⟩
    · intro h
      obtain ⟨predicate, hcompile, htyped⟩ := h
      obtain ⟨out, heval⟩ := (hevaluate predicate hcompile).mpr htyped
      exact ⟨out, predicate, hcompile, heval⟩

/-! ### Masked batches -/

/-- A masked column fits the masked field. -/
theorem applyMaskToColumn_admits (htypes : TypeOnly engine) {policies : Dict String MaskPolicy}
    (happlies : Applies p policies) {n : Nat} {field : Field} {col col' : ArrayRef}
    (hfit : Admits n field col) (h : MaskingExec.maskField engine policies field col = .ok col') :
    Admits n (MaskingExec.maskedField policies field) col' := by
  rw [maskField_eq happlies] at h
  obtain ⟨htype, hlength, hnull⟩ := applyMaskToColumn_spec htypes h
  have hnullable : (MaskingExec.maskedField policies field).nullable = field.nullable := by
    rw [MaskingExec.maskedField]
    cases policies.lookup field.name <;> rfl
  have hdataType : (MaskingExec.maskedField policies field).dataType =
      MaskingExec.maskedFieldType field.dataType (p.actionFor field.name).toPolicy := by
    rw [← happlies, MaskingExec.maskedField]
    cases policies.lookup field.name <;> rfl
  refine ⟨hlength.trans hfit.length_eq, fun hfalse hmem => ?_, ?_⟩
  · exact hfit.no_nulls (hnullable.symm.trans hfalse) (hnull hmem)
  · rw [htype, hdataType, hfit.type_eq]

/-- The columns of a batch can be masked when every type can. -/
theorem maskColumns_ok_iff (htypes : TypeOnly engine) {policies : Dict String MaskPolicy}
    (happlies : Applies p policies) {n : Nat} {fields : List Field} {cols : List ArrayRef}
    (hfits : List.Forall₂ (Admits n) fields cols) :
    (∃ out, MaskingExec.maskColumns engine policies fields cols = .ok out) ↔
      ∀ field ∈ fields, Maskable engine field.dataType (p.actionFor field.name).toPolicy := by
  induction hfits with
  | nil => simp [MaskingExec.maskColumns]
  | @cons field col fields cols hfit _ ih =>
    have hfield : (∃ col', MaskingExec.maskField engine policies field col = .ok col') ↔
        Maskable engine field.dataType (p.actionFor field.name).toPolicy := by
      rw [maskField_eq happlies, applyMaskToColumn_ok_iff htypes, hfit.type_eq]
    rw [List.forall_mem_cons, ← ih, ← hfield]
    constructor
    · intro h
      obtain ⟨out, h⟩ := h
      obtain ⟨masked, hmasked, h⟩ := bind_eq_ok.mp h
      obtain ⟨rest, hrest, -⟩ := bind_eq_ok.mp h
      exact ⟨⟨masked, hmasked⟩, rest, hrest⟩
    · intro h
      obtain ⟨⟨masked, hmasked⟩, rest, hrest⟩ := h
      refine ⟨masked :: rest, ?_⟩
      rw [MaskingExec.maskColumns, hmasked, hrest]
      rfl

/-- Masked columns fit the masked schema. -/
theorem maskColumns_fits (htypes : TypeOnly engine) {policies : Dict String MaskPolicy}
    (happlies : Applies p policies) {n : Nat} {fields : List Field} {cols out : List ArrayRef}
    (hfits : List.Forall₂ (Admits n) fields cols)
    (h : MaskingExec.maskColumns engine policies fields cols = .ok out) :
    List.Forall₂ (Admits n) (MaskingExec.maskedOutputSchema fields policies) out := by
  induction hfits generalizing out with
  | nil =>
    obtain rfl := Except.ok.inj h
    exact .nil
  | cons hfit _ ih =>
    obtain ⟨masked, hmasked, h⟩ := bind_eq_ok.mp h
    obtain ⟨rest, hrest, h⟩ := bind_eq_ok.mp h
    obtain rfl := Except.ok.inj h
    exact .cons (applyMaskToColumn_admits htypes happlies hfit hmasked) (ih hrest)

/-- Columns that fit a schema make a batch when the schema has a field. -/
theorem tryNew_ok_iff {schema : Schema} {columns : List ArrayRef} {n : Nat}
    (hfits : List.Forall₂ (Admits n) schema columns) :
    (∃ b, RecordBatch.tryNew schema columns = .ok b) ↔ schema ≠ [] := by
  cases hfits with
  | nil => simp [RecordBatch.tryNew]
  | @cons field first fields rest hfit hrest =>
    have hn : first.cells.length = n := hfit.length_eq
    have hall : List.Forall₂ (Admits first.cells.length) (field :: fields) (first :: rest) := by
      rw [hn]
      exact .cons hfit hrest
    exact ⟨fun _ => List.cons_ne_nil _ _, fun _ => ⟨_, dif_pos hall⟩⟩

/-- Masking a batch. -/
theorem masking_ok_iff (htypes : TypeOnly engine) (bundle : ContractBundleHandle)
    {policies : Dict String MaskPolicy} (happlies : Applies p policies) {batch : RecordBatch}
    (hschema : batch.schema = schema) :
    (∃ out, MaskingExec.onBatch engine ⟨bundle, policies,
      MaskingExec.maskedOutputSchema schema policies⟩ batch = .ok out) ↔
    (policies.isEmpty = false → schema ≠ [] ∧
      ∀ field ∈ schema, Maskable engine field.dataType (p.actionFor field.name).toPolicy) := by
  rw [MaskingExec.onBatch]
  cases hempty : policies.isEmpty with
  | true => simp
  | false =>
    have hfits : List.Forall₂ (Admits batch.numRows) schema batch.columns := hschema ▸ batch.fits
    have hne : MaskingExec.maskedOutputSchema schema policies ≠ [] ↔ schema ≠ [] := by
      rw [MaskingExec.maskedOutputSchema, Ne, List.map_eq_nil_iff]
    simp only [Bool.false_eq_true, if_false, mapError_ok, MaskingExec.applyMaskingToBatch,
      bind_eq_ok, hschema, forall_const]
    rw [← maskColumns_ok_iff htypes happlies hfits, ← hne]
    constructor
    · intro h
      obtain ⟨out, cols, hcols, hout⟩ := h
      have hfits' := maskColumns_fits htypes happlies hfits hcols
      exact ⟨(tryNew_ok_iff hfits').mp ⟨out, hout⟩, cols, hcols⟩
    · intro h
      obtain ⟨hne, cols, hcols⟩ := h
      have hfits' := maskColumns_fits htypes happlies hfits hcols
      obtain ⟨out, hout⟩ := (tryNew_ok_iff hfits').mpr hne
      exact ⟨out, cols, hcols, hout⟩

/-- **Enforcement is a matter of types**: a batch goes through the stack exactly when the
policy can be enforced on its schema. -/
theorem governBatch_ok_iff (htypes : TypeOnly engine) {bundle : ContractBundleHandle}
    {policies : Dict String MaskPolicy} (happlies : Applies p policies)
    (projection : Option (List Nat)) {batch : RecordBatch} (hschema : batch.schema = schema) :
    (∃ out, governBatch engine p schema bundle policies projection batch = .ok out) ↔
      Enforceable engine p schema policies := by
  simp only [governBatch, enforceBatch, bind_eq_ok]
  constructor
  · intro h
    obtain ⟨_, masked, ⟨filtered, hfiltered, hmasked⟩, -⟩ := h
    have hfilter := (rowFilter_rowWise bundle batch hschema filtered hfiltered).1
    exact ⟨(rowFilter_ok_iff htypes bundle hschema).mp ⟨filtered, hfiltered⟩,
      (masking_ok_iff htypes bundle happlies hfilter).mp ⟨masked, hmasked⟩⟩
  · intro h
    obtain ⟨hfilter, hmasks⟩ := h
    obtain ⟨filtered, hfiltered⟩ := (rowFilter_ok_iff htypes bundle hschema).mpr hfilter
    have hfiltered' := (rowFilter_rowWise bundle batch hschema filtered hfiltered).1
    obtain ⟨masked, hmasked⟩ := (masking_ok_iff htypes bundle happlies hfiltered').mpr
      hmasks
    exact ⟨_, masked, ⟨filtered, hfiltered, hmasked⟩, rfl⟩

end Types
end Griot
