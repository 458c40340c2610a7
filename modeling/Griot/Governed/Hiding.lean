import Griot.Governed.Scan

/-! What a governed scan hides.

Two cells look alike under an action when nothing the action discloses tells them
apart (`CellsAgree`), and two raw tables look alike to a policy when the rows its
filter keeps agree cell by cell (`RowsAgree`). Scans of tables that look alike
yield the same rows or both fail, provided both tables have a batch or neither has
(`scan_hides`): an operator first looks at its types when a batch reaches it, so a
table without batches is never refused (`emptyTable_accepted`). -/
namespace Griot

open Lib Physical
open Logical (MaskPolicy)

/-! ### Tables that look alike -/

section Agreement
variable (engine : Engine) (p : ResolvedPolicy) (schema : Schema)

/-- What an action discloses of a value that is not null. -/
def disclosure (dataType : DataType) (action : MaskAction) (v : Value) : Option String :=
  match action with
  | .hashSha256 | .tokenize => (rendering engine dataType v).map fun s => engine.sha256Hex (utf8 s)
  | .partialMask => (rendering engine dataType v).map lastFour
  | _ => none

/-- An unmasked cell shows its value, a masked one whether it is null and what its action
discloses. -/
def CellsAgree (dataType : DataType) (action : MaskAction) (v v' : Value) : Prop :=
  match action with
  | .noop => v = v'
  | action => v.isNull = v'.isNull ∧ (v.isNull = false →
      disclosure engine dataType action v = disclosure engine dataType action v')

def RowsAgree (row row' : Row) : Prop :=
  ∀ (i : Nat) (field : Field), schema[i]? = some field →
    CellsAgree engine field.dataType (p.actionFor field.name) (cell row i) (cell row' i)

/-- The rows the filter keeps are as many and agree one by one. -/
def LookAlike (rows rows' : List Row) : Prop :=
  List.Forall₂ (RowsAgree engine p schema) (rows.filter (keeps engine p schema))
    (rows'.filter (keeps engine p schema))

variable {engine p schema}

/-- **One cell**: cells that agree are masked alike. -/
theorem maskedCell_eq {dataType : DataType} {action : MaskAction} {v v' : Value}
    (h : CellsAgree engine dataType action v v') :
    maskedCell engine dataType action v = maskedCell engine dataType action v' := by
  by_cases hnoop : action = .noop
  · subst hnoop
    obtain rfl : v = v' := h
    rfl
  obtain ⟨hnull, hdisclosure⟩ : v.isNull = v'.isNull ∧ (v.isNull = false →
      disclosure engine dataType action v = disclosure engine dataType action v') := by
    cases action <;> first | exact h | exact absurd rfl hnoop
  rw [maskedCell, maskedCell, ← hnull]
  cases hv : v.isNull with
  | true => rfl
  | false =>
    have hsame := hdisclosure hv
    cases action with
    | noop => exact absurd rfl hnoop
    | redact | null => rfl
    | hashSha256 | tokenize | partialMask =>
      -- The masked text is made of what is disclosed.
      cases hr : rendering engine dataType v <;> cases hr' : rendering engine dataType v' <;>
        simp_all [disclosure, maskedValue, maskedText]

theorem maskedRow_eq {row row' : Row} (hlength : row.length = schema.length)
    (hlength' : row'.length = schema.length) (h : RowsAgree engine p schema row row') :
    maskedRow engine p schema row = maskedRow engine p schema row' := by
  apply List.ext_getElem
  · simp [maskedRow, hlength, hlength']
  · intro i hi hi'
    have hlt : i < schema.length := by
      simp only [maskedRow, List.length_zipWith] at hi
      omega
    have hagree := h i schema[i] (List.getElem?_eq_getElem hlt)
    have hcell : cell row i = row[i] := by simp [cell, hlength, hlt]
    have hcell' : cell row' i = row'[i] := by simp [cell, hlength', hlt]
    rw [hcell, hcell'] at hagree
    simp only [maskedRow, List.getElem_zipWith]
    exact maskedCell_eq hagree

/-- **Tables that look alike** have the same governed rows. -/
theorem governedRows_lookAlike (sel : Selection) {rows rows' : List Row}
    (hlength : ∀ row ∈ rows, row.length = schema.length)
    (hlength' : ∀ row ∈ rows', row.length = schema.length)
    (h : LookAlike engine p schema rows rows') :
    governedRows engine p schema sel rows = governedRows engine p schema sel rows' := by
  have hmasked : ∀ {kept kept' : List Row}, (∀ row ∈ kept, row.length = schema.length) →
      (∀ row ∈ kept', row.length = schema.length) →
      List.Forall₂ (RowsAgree engine p schema) kept kept' →
      kept.map (maskedRow engine p schema) = kept'.map (maskedRow engine p schema) := by
    intro kept kept' hkept hkept' hagree
    induction hagree with
    | nil => rfl
    | cons hrow _ ih =>
      rw [List.forall_mem_cons] at hkept hkept'
      rw [List.map_cons, List.map_cons, maskedRow_eq hkept.1 hkept'.1 hrow, ih hkept.2 hkept'.2]
  rw [governedRows, governedRows, hmasked (fun row hrow => hlength row (List.mem_of_mem_filter hrow))
    (fun row hrow => hlength' row (List.mem_of_mem_filter hrow)) h]

end Agreement

/-! ### Scans of tables that look alike -/

section Scans
variable {engine : Engine} {serde : SerdeJson} {p : ResolvedPolicy} {schema : Schema}
  (draws : Nat → Nat → Nat → LaplaceNoiseExec.Draw) (sel : Selection)

theorem length_of_mem_allRows {batches : List RecordBatch}
    (hbatches : ∀ batch ∈ batches, batch.schema = schema) {row : Row}
    (h : row ∈ RecordBatch.batching.allRows batches) : row.length = schema.length := by
  obtain ⟨batch, hbatch, hrow⟩ := List.mem_flatMap.mp h
  rw [row_length hrow, hbatches batch hbatch]

/-- **A governed scan hides what it should**: of two raw tables that look alike to the policy,
successful scans yield the same rows; and if both tables have a batch or neither has, both
scans succeed or both fail. -/
theorem scan_hides (htypes : TypeOnly engine) (hdp : p.hasDp = false)
    (hserde : serde.fromSlice (serde.toVec p.toBundleValue) = some p.toBundleValue)
    {batches batches' : List RecordBatch} (hbatches : ∀ batch ∈ batches, batch.schema = schema)
    (hbatches' : ∀ batch ∈ batches', batch.schema = schema)
    (hagree : LookAlike engine p schema (RecordBatch.batching.allRows batches)
      (RecordBatch.batching.allRows batches')) :
    (∀ rows rows', runScan engine draws serde p schema sel batches = .ok rows →
      runScan engine draws serde p schema sel batches' = .ok rows' → rows = rows') ∧
    ((batches = [] ↔ batches' = []) →
      ((∃ rows, runScan engine draws serde p schema sel batches = .ok rows) ↔
        ∃ rows, runScan engine draws serde p schema sel batches' = .ok rows)) := by
  constructor
  · intro rows rows' hrun hrun'
    rw [runScan_eq hdp hserde hbatches hrun, runScan_eq hdp hserde hbatches' hrun']
    exact governedRows_lookAlike sel (fun row hrow => length_of_mem_allRows hbatches hrow)
      (fun row hrow => length_of_mem_allRows hbatches' hrow) hagree
  · intro hsame
    obtain ⟨policies, -, hok⟩ := runScan_ok_iff draws schema sel htypes hdp hserde
    rw [hok batches hbatches, hok batches' hbatches', Ne, Ne, hsame]

end Scans

/-! ### Employees that look alike -/

/-- Others, of whom one is active: as old as the active one before, with an address that ends
alike. -/
def otherEmployees : List RecordBatch :=
  [⟨employeeSchema,
    [⟨.utf8, [.utf8 "eve@evil.example"], by decide⟩, ⟨.boolean, [.boolean false], by decide⟩,
      ⟨.int64, [.int64 29], by decide⟩], 1, by decide⟩,
   ⟨employeeSchema,
    [⟨.utf8, [.utf8 "dan@other.example"], by decide⟩, ⟨.boolean, [.boolean true], by decide⟩,
      ⟨.int64, [.int64 41], by decide⟩], 1, by decide⟩]

theorem employees_lookAlike : LookAlike columnEngine employeePolicy employeeSchema
    (RecordBatch.batching.allRows [employees]) (RecordBatch.batching.allRows otherEmployees) := by
  show List.Forall₂ (RowsAgree columnEngine employeePolicy employeeSchema)
    [[.utf8 "ana@acme.example", .boolean true, .int64 41]]
    [[.utf8 "dan@other.example", .boolean true, .int64 41]]
  refine .cons ?_ .nil
  rintro (_ | _ | _ | i) field ⟨⟩
  · exact ⟨rfl, fun _ => rfl⟩
  · rfl
  · rfl

/-- The two tables give one answer. -/
theorem scan_hides_employees :
    ∃ rows, runScan columnEngine (fun _ _ _ => (.fin 0, .fin 0)) employeeSerde employeePolicy
        employeeSchema ⟨none, none⟩ [employees] = .ok rows ∧
      runScan columnEngine (fun _ _ _ => (.fin 0, .fin 0)) employeeSerde employeePolicy
        employeeSchema ⟨none, none⟩ otherEmployees = .ok rows := by
  have hbatches : ∀ batch ∈ [employees], batch.schema = employeeSchema := by simp [employees]
  have hbatches' : ∀ batch ∈ otherEmployees, batch.schema = employeeSchema := by
    simp [otherEmployees]
  obtain ⟨policies, -, hok⟩ := runScan_ok_iff (fun _ _ _ => (.fin 0, .fin 0)) employeeSchema
    ⟨none, none⟩ columnEngine_typeOnly (by decide : employeePolicy.hasDp = false)
    employeeSerde_reads
  obtain ⟨rows, hrun⟩ := (hok [employees] hbatches).mpr
    ⟨⟨by decide, by simp [Selection.InRange]⟩, fun _ => employees_enforceable policies⟩
  obtain ⟨hsame, hboth⟩ := scan_hides (fun _ _ _ => (.fin 0, .fin 0)) ⟨none, none⟩
    columnEngine_typeOnly (by decide) employeeSerde_reads hbatches hbatches' employees_lookAlike
  obtain ⟨rows', hrun'⟩ := (hboth (by simp [otherEmployees])).mp ⟨rows, hrun⟩
  exact ⟨rows, hrun, hsame rows rows' hrun hrun' ▸ hrun'⟩

/-! ### A table without batches -/

def birthdaySchema : Schema := [⟨"birthday", .other "Date32", true⟩]

/-- Birthdays are redacted, which dates cannot be; and no row is kept. -/
def birthdayPolicy : ResolvedPolicy :=
  ⟨"birthdays_v1", "1.0.0", "acme", .allow, .ofList [("birthday", .redact)], some "false", .empty⟩

def birthdayText : String :=
  "\x7b\"column_masking\":\x7b\"birthday\":\"redact\"\x7d,\"contract_id\":\"birthdays_v1\"," ++
  "\"contract_version\":\"1.0.0\",\"dp_columns\":\x7b\x7d,\"row_filter\":\"false\"\x7d"

theorem birthdayText_ne : birthdayText ≠ "" := by decide +kernel

def birthdaySerde : SerdeJson := .just birthdayText birthdayPolicy.toBundleValue birthdayText_ne

def birthdays : RecordBatch :=
  ⟨birthdaySchema, [⟨.other "Date32", [.other [0, 0, 0, 0]], by decide⟩], 1, by decide⟩

/-- **A table without batches is never refused**: it looks like a table all of whose rows are
dropped, and only the latter is refused for the type of its column. -/
theorem emptyTable_accepted :
    TypeOnly columnEngine ∧ birthdayPolicy.hasDp = false ∧
    birthdaySerde.fromSlice (birthdaySerde.toVec birthdayPolicy.toBundleValue) =
      some birthdayPolicy.toBundleValue ∧
    LookAlike columnEngine birthdayPolicy birthdaySchema (RecordBatch.batching.allRows [])
      (RecordBatch.batching.allRows [birthdays]) ∧
    (∃ rows, runScan columnEngine (fun _ _ _ => (.fin 0, .fin 0)) birthdaySerde birthdayPolicy
      birthdaySchema ⟨none, none⟩ [] = .ok rows) ∧
    ¬∃ rows, runScan columnEngine (fun _ _ _ => (.fin 0, .fin 0)) birthdaySerde birthdayPolicy
      birthdaySchema ⟨none, none⟩ [birthdays] = .ok rows := by
  have hdp : birthdayPolicy.hasDp = false := by decide
  have hserde : birthdaySerde.fromSlice (birthdaySerde.toVec birthdayPolicy.toBundleValue) =
      some birthdayPolicy.toBundleValue :=
    SerdeJson.just_roundTrip birthdayText birthdayPolicy.toBundleValue birthdayText_ne
  obtain ⟨policies, happlies, hok⟩ := runScan_ok_iff (fun _ _ _ => (.fin 0, .fin 0)) birthdaySchema
    ⟨none, none⟩ columnEngine_typeOnly hdp hserde
  have hplans : birthdayPolicy.contractId ≠ "" ∧ Selection.InRange ⟨none, none⟩ birthdaySchema :=
    ⟨by decide, by simp [Selection.InRange]⟩
  refine ⟨columnEngine_typeOnly, hdp, hserde, .nil, ?_, fun haccepted => ?_⟩
  · exact (hok [] (by simp)).mpr ⟨hplans, fun hne => absurd rfl hne⟩
  · have hbatches : ∀ batch ∈ [birthdays], batch.schema = birthdaySchema := by simp [birthdays]
    obtain ⟨-, henforceable⟩ := (hok [birthdays] hbatches).mp haccepted
    have hmasked : policies.isEmpty = false := by
      rw [Bool.eq_false_iff]
      intro hempty
      have hnoop := happlies "birthday"
      rw [Dict.isEmpty_iff.mp hempty] at hnoop
      exact absurd hnoop (by decide)
    have hmaskable := ((henforceable (by simp)).masks hmasked).2 _ (List.mem_cons_self ..)
    rcases hmaskable with hnoop | (⟨⟨⟩⟩ | ⟨⟨⟩⟩) | hsome
    · exact absurd hnoop (by decide)
    · exact absurd hsome (by decide)

end Griot
