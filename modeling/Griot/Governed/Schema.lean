import Griot.Governed.Types

/-! The declared and the emitted schema.

The table declares its schema before anything is scanned, the plan of a scan declares its
own, and the masking operator emits batches. All three come from the type that a
policy makes of a column (`MaskingExec.maskedFieldType`), and agree
(`declared_emitted`). -/
namespace Griot

open Lib Physical
open Logical (MaskPolicy)

/-! ### What masking makes of a column -/

section Columns
variable {engine : Engine}

/-- A column is masked to the declared type, or refused for its type. -/
theorem applyMaskToColumn_type (col : ArrayRef) (colName : String) (policy : MaskPolicy) :
    (∃ col', MaskingExec.applyMaskToColumn engine col colName policy = .ok col' ∧
      col'.dataType = MaskingExec.maskedFieldType col.dataType policy) ∨
    ∃ typeName, MaskingExec.applyMaskToColumn engine col colName policy =
      .error (.maskTypeUnsupported colName typeName) := by
  rw [MaskingExec.applyMaskToColumn]
  by_cases hnoop : policy = .noop
  · rw [if_pos hnoop, hnoop]
    exact .inl ⟨col, rfl, rfl⟩
  rw [if_neg hnoop]
  by_cases hstring : col.dataType = .utf8 ∨ col.dataType = .largeUtf8
  · rw [if_pos hstring, MaskingExec.maskedFieldType_string hstring hnoop]
    exact .inl ⟨_, rfl, rfl⟩
  rw [if_neg hstring, MaskingExec.maskedFieldType_other hstring hnoop]
  by_cases hproducing : MaskingExec.isStringProducing policy = true
  · rw [if_pos hproducing, if_pos hproducing, MaskingExec.maskViaUtf8Cast]
    split
    · exact .inr ⟨_, rfl⟩
    · exact .inl ⟨_, rfl, rfl⟩
  · rw [if_neg hproducing, if_neg hproducing]
    split
    · exact .inl ⟨_, rfl, rfl⟩
    · exact .inr ⟨_, rfl⟩

end Columns

theorem RecordBatch.types_eq (b : RecordBatch) :
    b.columns.map ArrayRef.dataType = b.schema.map Field.dataType := by
  have hfits := b.fits
  generalize b.columns = columns at hfits
  generalize b.schema = schema at hfits
  induction hfits with
  | nil => rfl
  | cons hfit _ ih => rw [List.map_cons, List.map_cons, hfit.type_eq, ih]

theorem maskedOutputSchema_of_isEmpty {policies : Dict String MaskPolicy}
    (h : policies.isEmpty = true) (schema : Schema) :
    MaskingExec.maskedOutputSchema schema policies = schema := by
  have hfield : ∀ field, MaskingExec.maskedField policies field = field := by
    intro field
    rw [MaskingExec.maskedField, Dict.isEmpty_iff.mp h]
  rw [MaskingExec.maskedOutputSchema, List.map_congr_left fun field _ => hfield field,
    List.map_id']

/-- A masking operator that was built emits batches of its declared schema. -/
theorem masking_emits {serde : SerdeJson} {bundle : ContractBundleHandle} {inner : ExecutionPlan}
    {plan : ExecutionPlan} (hbuild : ExecutionPlan.newMasking serde bundle inner = .ok plan)
    (engine : Engine) (draws : Nat → Nat → Nat → LaplaceNoiseExec.Draw)
    (hinner : ∀ batch, .ok batch ∈ inner.execute engine draws → batch.schema = inner.schema)
    {out : RecordBatch} (hout : .ok out ∈ plan.execute engine draws) :
    out.schema = plan.schema ∧
      out.columns.map ArrayRef.dataType = plan.schema.map Field.dataType := by
  suffices hschema : out.schema = plan.schema from ⟨hschema, hschema ▸ out.types_eq⟩
  rw [ExecutionPlan.newMasking] at hbuild
  obtain ⟨-, -, hbuild⟩ := bind_eq_ok.mp hbuild
  obtain ⟨policies, -, hbuild⟩ := bind_eq_ok.mp hbuild
  obtain rfl := Except.ok.inj hbuild
  rw [ExecutionPlan.execute] at hout
  obtain ⟨item, hitem, hitem'⟩ := List.mem_map.mp hout
  obtain ⟨batch, rfl, hmask⟩ := bind_eq_ok.mp hitem'
  clear hitem'
  have hbatch := hinner batch hitem
  unfold MaskingExec.onBatch at hmask
  split at hmask
  · rename_i hempty
    obtain rfl := Except.ok.inj hmask
    rw [hbatch]
    exact (maskedOutputSchema_of_isEmpty hempty _).symm
  · rw [mapError_ok, MaskingExec.applyMaskingToBatch] at hmask
    obtain ⟨cols, -, hmask⟩ := bind_eq_ok.mp hmask
    exact (RecordBatch.tryNew_ok (mapError_ok.mp hmask)).1

/-! ### The plan of a scan -/

section Scan
variable {serde : SerdeJson} {p : ResolvedPolicy}

/-- The schema the table declares is the masked one: a policy can always be read back. -/
theorem governedSchema_eq
    (hserde : serde.fromSlice (serde.toVec p.toBundleValue) = some p.toBundleValue)
    (inner : TableProvider) : ∃ policies,
    MaskingExec.parseMaskingBundle serde (p.toBundleHandle serde) = .ok policies ∧
      (ContractTableProvider.new serde inner p).governedSchema =
        MaskingExec.maskedOutputSchema inner.schema policies := by
  obtain ⟨policies, hparse, -⟩ := ResolvedPolicy.parseMaskingBundle_exact hserde
  refine ⟨policies, hparse, ?_⟩
  simp only [ContractTableProvider.new, MaskingExec.maskedSchemaForBundle, hparse, Except.map]

/-- The enforcement operators on a raw scan. -/
theorem govern_ok {inner : TableProvider} {governed : ExecutionPlan}
    (h : (ContractTableProvider.new serde inner p).govern serde = .ok governed) :
    ∃ raw filter policies, inner.scan = .ok raw ∧
      MaskingExec.parseMaskingBundle serde (p.toBundleHandle serde) = .ok policies ∧
      ∃ masked, masked = ExecutionPlan.masking ⟨p.toBundleHandle serde, policies,
          MaskingExec.maskedOutputSchema raw.schema policies⟩
          (.rowFilter filter (.contractApproved (p.toBundleHandle serde) raw)) ∧
        (governed = masked ∨ ∃ op, governed = .laplaceNoise op masked) := by
  obtain ⟨raw, hscan, h⟩ := bind_eq_ok.mp h
  obtain ⟨approved, happroved, h⟩ := bind_eq_ok.mp h
  obtain ⟨filtered, hfiltered, h⟩ := bind_eq_ok.mp h
  obtain ⟨masked, hmasked, h⟩ := bind_eq_ok.mp h
  have hnew := mapError_ok.mp happroved
  rw [ExecutionPlan.newContractApproved] at hnew
  split at hnew
  · cases hnew
  obtain rfl := Except.ok.inj hnew
  obtain ⟨-, -, hnew⟩ := bind_eq_ok.mp (mapError_ok.mp hfiltered)
  obtain ⟨filter, -, hnew⟩ := bind_eq_ok.mp hnew
  obtain rfl := Except.ok.inj hnew
  obtain ⟨-, -, hnew⟩ := bind_eq_ok.mp (mapError_ok.mp hmasked)
  obtain ⟨policies, hparse, hnew⟩ := bind_eq_ok.mp hnew
  obtain rfl := Except.ok.inj hnew
  refine ⟨raw, ⟨p.toBundleHandle serde, filter⟩, policies, hscan, hparse, _, rfl, ?_⟩
  split at h
  · obtain ⟨-, -, hnew⟩ := bind_eq_ok.mp (mapError_ok.mp h)
    obtain ⟨op, -, hnew⟩ := bind_eq_ok.mp hnew
    exact .inr ⟨op, (Except.ok.inj hnew).symm⟩
  · exact .inl (Except.ok.inj h).symm

/-- They have the declared schema, with noise or without. -/
theorem govern_schema
    (hserde : serde.fromSlice (serde.toVec p.toBundleValue) = some p.toBundleValue)
    {inner : TableProvider} (hinner : ∀ plan, inner.scan = .ok plan → plan.schema = inner.schema)
    {governed : ExecutionPlan}
    (h : (ContractTableProvider.new serde inner p).govern serde = .ok governed) :
    governed.schema = (ContractTableProvider.new serde inner p).governedSchema := by
  obtain ⟨policies, hparse, hschema⟩ := governedSchema_eq hserde inner
  obtain ⟨raw, filter, policies', hscan, hparse', masked, hmasked, hgoverned⟩ := govern_ok h
  obtain rfl := Except.ok.inj (hparse.symm.trans hparse')
  have hdeclared : masked.schema = (ContractTableProvider.new serde inner p).governedSchema := by
    rw [hmasked, hschema, ← hinner raw hscan]
    rfl
  obtain rfl | ⟨op, rfl⟩ := hgoverned
  · exact hdeclared
  · exact hdeclared

/-- No mask shows in their plan properties. -/
theorem govern_propertiesSchema {inner : TableProvider}
    (hinner : ∀ plan, inner.scan = .ok plan → plan.propertiesSchema = inner.schema)
    {governed : ExecutionPlan}
    (h : (ContractTableProvider.new serde inner p).govern serde = .ok governed) :
    governed.propertiesSchema = inner.schema := by
  obtain ⟨raw, filter, policies, hscan, -, masked, rfl, hgoverned⟩ := govern_ok h
  obtain rfl | ⟨op, rfl⟩ := hgoverned
  · exact hinner raw hscan
  · exact hinner raw hscan

theorem narrow_schema {indices : List Nat} {limit : Option Nat} {governed plan : ExecutionPlan}
    (h : ContractTableProvider.narrow (some indices) limit governed = .ok plan) :
    plan.schema = select indices governed.schema := by
  obtain ⟨projected, hprojected, h⟩ := bind_eq_ok.mp h
  obtain rfl := Except.ok.inj h
  have hprojection : projected = .projection indices governed := by
    change ContractTableProvider.applyProjection governed indices = .ok projected at hprojected
    rw [ContractTableProvider.applyProjection] at hprojected
    split at hprojected
    · exact (Except.ok.inj hprojected).symm
    · cases hprojected
  rw [hprojection]
  cases limit <;> rfl

/-- **The declared and the emitted schema agree.** The table never falls back to the raw
schema; a scan, with any projection, has the projection of the declared schema, whether or not
it is noised or limited; a column is masked to the declared type or refused for its type; and
the masking operator emits batches of its declared schema. -/
theorem declared_emitted
    (hserde : serde.fromSlice (serde.toVec p.toBundleValue) = some p.toBundleValue)
    (inner : TableProvider) (hinner : ∀ plan, inner.scan = .ok plan → plan.schema = inner.schema) :
    MaskingExec.maskedSchemaForBundle serde inner.schema (p.toBundleHandle serde) =
      .ok (ContractTableProvider.new serde inner p).governedSchema ∧
    (∀ indices limit plan,
      (ContractTableProvider.new serde inner p).scan serde (some indices) limit = .ok plan →
      plan.schema = select indices (ContractTableProvider.new serde inner p).governedSchema) ∧
    (∀ plan, (ContractTableProvider.new serde inner p).scan serde none none = .ok plan →
      plan.schema = (ContractTableProvider.new serde inner p).governedSchema) ∧
    (∀ engine col colName policy,
      (∃ col', MaskingExec.applyMaskToColumn engine col colName policy = .ok col' ∧
        col'.dataType = MaskingExec.maskedFieldType col.dataType policy) ∨
      ∃ typeName, MaskingExec.applyMaskToColumn engine col colName policy =
        .error (.maskTypeUnsupported colName typeName)) ∧
    (∀ bundle input plan engine draws, ExecutionPlan.newMasking serde bundle input = .ok plan →
      (∀ batch, .ok batch ∈ input.execute engine draws → batch.schema = input.schema) →
      ∀ out, .ok out ∈ plan.execute engine draws →
        out.schema = plan.schema ∧
          out.columns.map ArrayRef.dataType = plan.schema.map Field.dataType) := by
  refine ⟨?_, ?_, ?_, ?_, ?_⟩
  · obtain ⟨policies, hparse, hschema⟩ := governedSchema_eq hserde inner
    rw [MaskingExec.maskedSchemaForBundle, hparse, hschema]
    rfl
  · intro indices limit plan h
    obtain ⟨governed, hgoverned, h⟩ := bind_eq_ok.mp h
    rw [narrow_schema h, govern_schema hserde hinner hgoverned]
  · intro plan h
    obtain ⟨governed, hgoverned, h⟩ := bind_eq_ok.mp h
    obtain ⟨projected, hprojected, h⟩ := bind_eq_ok.mp h
    obtain rfl := Except.ok.inj h
    obtain rfl := Except.ok.inj hprojected
    exact govern_schema hserde hinner hgoverned
  · intro engine col colName policy
    exact applyMaskToColumn_type col colName policy
  · intro bundle input plan engine draws hbuild hinput out hout
    exact masking_emits hbuild engine draws hinput hout

/-- A limit alone is put on the enforcement operators, and takes its schema from their plan
properties: such a scan declares the schema of the table below, whatever is masked in the
batches it passes on. -/
theorem limited_schema {inner : TableProvider}
    (hinner : ∀ plan, inner.scan = .ok plan → plan.propertiesSchema = inner.schema) {fetch : Nat}
    {plan : ExecutionPlan}
    (h : (ContractTableProvider.new serde inner p).scan serde none (some fetch) = .ok plan) :
    plan.schema = inner.schema := by
  obtain ⟨governed, hgoverned, h⟩ := bind_eq_ok.mp h
  obtain ⟨projected, hprojected, h⟩ := bind_eq_ok.mp h
  obtain rfl := Except.ok.inj h
  obtain rfl := Except.ok.inj hprojected
  exact govern_propertiesSchema hinner hgoverned

end Scan

/-- A numeric column masked by a policy that makes strings. -/
def badgePolicy : ResolvedPolicy where
  contractId := "c"
  contractVersion := "1"
  tenantId := "acme"
  decision := .allow
  columnMasks := .ofList [("badge", .hashSha256)]
  rowFilter := none
  dpColumns := .empty

def badgeText : String :=
  "\x7b\"column_masking\":\x7b\"badge\":\"hash_sha256\"\x7d,\"contract_id\":\"c\"," ++
  "\"contract_version\":\"1\",\"dp_columns\":\x7b\x7d,\"row_filter\":null\x7d"

theorem badgeText_ne : badgeText ≠ "" := by decide +kernel

def badgeSerde : SerdeJson := .just badgeText badgePolicy.toBundleValue badgeText_ne

def badges : TableProvider := .memory [⟨"badge", .int64, true⟩] []

theorem declared_emitted_badges :
    MaskingExec.maskedSchemaForBundle badgeSerde badges.schema
        (badgePolicy.toBundleHandle badgeSerde) =
      .ok (ContractTableProvider.new badgeSerde badges badgePolicy).governedSchema ∧
    ∀ plan, (ContractTableProvider.new badgeSerde badges badgePolicy).scan badgeSerde (some [0])
        (some 5) = .ok plan →
      plan.schema =
        select [0] (ContractTableProvider.new badgeSerde badges badgePolicy).governedSchema := by
  have hserde := SerdeJson.just_roundTrip badgeText badgePolicy.toBundleValue badgeText_ne
  have hinner : ∀ plan, badges.scan = .ok plan → plan.schema = badges.schema := by
    intro plan h
    obtain rfl := Except.ok.inj h
    rfl
  have h := @declared_emitted badgeSerde badgePolicy hserde badges hinner
  exact ⟨h.1, h.2.1 [0] (some 5)⟩

end Griot
