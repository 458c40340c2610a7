import Griot.Governed.Noise
import Griot.Lib.Joins
import Griot.Lib.Latin

/-! What pseudonyms link.

A column that is hashed or tokenized shows the digest of a text and nothing else, the same one
for the same text under whatever policy, in whatever table. So governed tables join on such
columns in the same rows as the tables themselves (`scans_join`), those of different contracts
too. -/
namespace Griot

open Lib Physical LaplaceNoiseExec

/-- The text that is shown at a place of a row. -/
def shownText (i : Nat) (row : Row) : Option String := (row[i]?).bind MaskingExec.textOf

section Texts
variable (engine : Engine)

/-- The text of a cell; a null has none. -/
def cellText (dataType : DataType) (v : Value) : Option String :=
  if v.isNull then none else rendering engine dataType v

/-- The text of a column in a row of the table. -/
def rawText (schema : Schema) (c : Nat) (row : Row) : Option String :=
  (schema[c]?).bind fun field => (row[c]?).bind (cellText engine field.dataType)

def digest (s : String) : String := engine.sha256Hex (utf8 s)

variable {engine}

theorem textOf_pseudonym {dataType : DataType} {action : MaskAction}
    (h : action = .hashSha256 ∨ action = .tokenize) (v : Value) :
    MaskingExec.textOf (maskedCell engine dataType action v) =
      (cellText engine dataType v).map (digest engine) := by
  rw [maskedCell, cellText]
  split
  · rfl
  · obtain rfl | rfl := h <;> simp only [maskedValue] <;> cases rendering engine dataType v <;> rfl

theorem shownText_maskedRow {p : ResolvedPolicy} {schema : Schema} {c : Nat} {field : Field}
    (hfield : schema[c]? = some field)
    (h : p.actionFor field.name = .hashSha256 ∨ p.actionFor field.name = .tokenize) (row : Row) :
    shownText c (maskedRow engine p schema row) =
      (rawText engine schema c row).map (digest engine) := by
  rw [shownText, maskedRow, List.getElem?_zipWith, rawText, hfield]
  cases row[c]? with
  | none => rfl
  | some v => exact textOf_pseudonym h v

end Texts

/-- The column that a place of the result shows. -/
def Selection.source (sel : Selection) (i : Nat) : Option Nat :=
  match sel.projection with
  | none => some i
  | some indices => indices[i]?

theorem getElem?_select {γ : Type} {indices : List Nat} {row : List γ}
    (h : ∀ k ∈ indices, k < row.length) (i : Nat) :
    (select indices row)[i]? = (indices[i]?).bind fun k => row[k]? := by
  induction indices generalizing i with
  | nil => rfl
  | cons k indices ih =>
    obtain ⟨hk, hrest⟩ := List.forall_mem_cons.mp h
    have hcell : row[k]? = some row[k] := List.getElem?_eq_getElem hk
    rw [select, List.filterMap_cons_some hcell]
    cases i with
    | zero => simp [hcell]
    | succ i => exact ih hrest i

theorem shownText_project {sel : Selection} {schema : Schema} (hin : sel.InRange schema) {row : Row}
    (hlength : row.length = schema.length) {i c : Nat} (hsource : sel.source i = some c) :
    shownText i (sel.project row) = shownText c row := by
  rw [Selection.source] at hsource
  rw [shownText, shownText, Selection.project]
  cases hprojection : sel.projection with
  | none =>
    rw [hprojection] at hsource
    obtain rfl := Option.some.inj hsource
    rfl
  | some indices =>
    rw [hprojection] at hsource
    have hrange : ∀ k ∈ indices, k < row.length := by
      rw [hlength]
      exact hin indices hprojection
    simp only [Option.elim_some, getElem?_select hrange, hsource, Option.bind_some]

/-! ### Governed scans -/

/-- A governed scan without noise or limit, drained. -/
structure Drained (engine : Engine) (p : ResolvedPolicy) (sel : Selection) (raw : ExecutionPlan)
    (rows : List Row) (out : List RecordBatch) : Prop where
  noNoise : p.dpColumns = .empty
  noLimit : sel.limit = none
  scanned : ∃ serde : SerdeJson,
    serde.fromSlice (serde.toVec p.toBundleValue) = some p.toBundleValue ∧
      ∃ inner plan draws, inner.scan = .ok raw ∧
        (ContractTableProvider.new serde inner p).scan serde sel.projection sel.limit = .ok plan ∧
        rows = (raw.execute engine draws).flatMap itemRows ∧
        (∀ batch, .ok batch ∈ raw.execute engine draws → batch.schema = raw.schema) ∧
        collect (plan.execute engine draws) = .ok out

/-- The rows of a table that a policy keeps. -/
def keptRows (engine : Engine) (p : ResolvedPolicy) (schema : Schema) (rows : List Row) : List Row :=
  rows.filter (keeps engine p schema)

/-- What is shown of a row that is kept. -/
def shownRow (engine : Engine) (p : ResolvedPolicy) (schema : Schema) (sel : Selection) (row : Row) : Row :=
  sel.project (maskedRow engine p schema row)

/-- A place of the result shows a column that is hashed or tokenized. -/
structure Pseudonymous (p : ResolvedPolicy) (sel : Selection) (schema : Schema) (i c : Nat) : Prop where
  source : sel.source i = some c
  masked : ∃ field, schema[c]? = some field ∧
    (p.actionFor field.name = .hashSha256 ∨ p.actionFor field.name = .tokenize)

section Linking
variable {engine : Engine} {p : ResolvedPolicy} {sel : Selection} {raw : ExecutionPlan} {rows : List Row}
  {out : List RecordBatch}

theorem ResolvedPolicy.doubles_of_noNoise (h : p.dpColumns = .empty) : p.Doubles := by
  intro column d hd
  rw [h] at hd
  cases hd

theorem Drained.spec (h : Drained engine p sel raw rows out) : sel.InRange raw.schema ∧
    (∀ row ∈ rows, row.length = raw.schema.length) ∧ RecordBatch.batching.allRows out =
      (keptRows engine p raw.schema rows).map (shownRow engine p raw.schema sel) := by
  obtain ⟨hnoise, hlimit, serde, hserde, inner, plan, draws, hraw, hplan, rfl, hbatches, hout⟩ := h
  have hdouble := ResolvedPolicy.doubles_of_noNoise hnoise
  have honly : ∀ raw', inner.scan = .ok raw' → raw' = raw := fun raw' hraw' =>
    Except.ok.inj (hraw'.symm.trans hraw)
  obtain ⟨policies, -, hspec⟩ := scan_spec engine draws hserde hdouble
  obtain ⟨raw', hraw', ⟨-, hin⟩, -⟩ := (hspec inner sel (PlanView.ofPlan engine draws plan)).mp (by
    rw [hplan]
    rfl)
  obtain ⟨raw'', hraw'', hrows⟩ := scan_drains hserde hdouble
    (fun raw' hraw' => honly raw' hraw' ▸ hbatches) hplan hout
  rw [honly raw'' hraw'', governedStream_eq _ _ _ hnoise] at hrows
  refine ⟨honly raw' hraw' ▸ hin, ?_, ?_⟩
  · intro row hrow
    obtain ⟨item, hitem, hrow⟩ := List.mem_flatMap.mp hrow
    cases item with
    | error e => cases hrow
    | ok batch => rw [row_length hrow, hbatches batch hitem]
  · rw [hrows, governedRows, Selection.first, hlimit, List.map_map]
    rfl

/-- The text shown is the digest of the text that is there. -/
theorem Drained.shownText (h : Drained engine p sel raw rows out) {i c : Nat}
    (hmasked : Pseudonymous p sel raw.schema i c) :
    ∀ row ∈ keptRows engine p raw.schema rows, Griot.shownText i (shownRow engine p raw.schema sel row) =
      (rawText engine raw.schema c row).map (digest engine) := by
  intro row hrow
  obtain ⟨hin, hlength, -⟩ := h.spec
  obtain ⟨hsource, field, hfield, haction⟩ := hmasked
  have hmaskedLength : (maskedRow engine p raw.schema row).length = raw.schema.length := by
    rw [maskedRow, List.length_zipWith, hlength row (List.mem_of_mem_filter hrow), Nat.min_self]
  rw [shownRow, shownText_project hin hmaskedLength hsource, shownText_maskedRow hfield haction]

/-- **Governed tables join on pseudonyms** in the rows that the tables join in, in order, as long
as the digests keep the texts there apart. -/
theorem scans_join {p' : ResolvedPolicy} {sel' : Selection} {raw' : ExecutionPlan} {rows' : List Row}
    {out' : List RecordBatch} (h : Drained engine p sel raw rows out)
    (h' : Drained engine p' sel' raw' rows' out') {i i' c c' : Nat}
    (hmasked : Pseudonymous p sel raw.schema i c) (hmasked' : Pseudonymous p' sel' raw'.schema i' c')
    {used : Set String} (hdigest : used.InjOn (digest engine))
    (hused : ∀ row ∈ keptRows engine p raw.schema rows, ∀ s ∈ rawText engine raw.schema c row, s ∈ used)
    (hused' : ∀ row ∈ keptRows engine p' raw'.schema rows',
      ∀ s ∈ rawText engine raw'.schema c' row, s ∈ used) :
    join (shownText i) (shownText i') (RecordBatch.batching.allRows out)
        (RecordBatch.batching.allRows out') =
      (join (rawText engine raw.schema c) (rawText engine raw'.schema c')
        (keptRows engine p raw.schema rows) (keptRows engine p' raw'.schema rows')).map
          (Prod.map (shownRow engine p raw.schema sel) (shownRow engine p' raw'.schema sel')) := by
  obtain ⟨-, -, hrows⟩ := h.spec
  obtain ⟨-, -, hrows'⟩ := h'.spec
  rw [hrows, hrows']
  exact join_map hdigest (fun row hrow => ⟨h.shownText hmasked row hrow, hused row hrow⟩)
    fun row hrow => ⟨h'.shownText hmasked' row hrow, hused' row hrow⟩

end Linking

/-! ### Two contracts over the employees -/

/-- Digests that keep texts apart. -/
def labelEngine : Engine :=
  {columnEngine with sha256Hex := fun bytes => String.ofList (latin1 bytes)}

theorem labelEngine_typeOnly : TypeOnly labelEngine where
  predicate := columnEngine_typeOnly.predicate
  cast := columnEngine_typeOnly.cast
  render := columnEngine_typeOnly.render

theorem labelEngine_digest : Function.Injective (digest labelEngine) := by
  intro s t h
  have hbyte : Function.Injective Char.ofUInt8 := fun b b' hb => by
    rw [← UInt8.toNat_inj, ← toNat_ofUInt8, ← toNat_ofUInt8, hb]
  exact utf8_inj (List.map_injective_iff.mpr hbyte (String.ofList_injective h))

/-- Everyone, under a pseudonym. -/
def pseudonymPolicy (contractId : String) (action : MaskAction) : ResolvedPolicy :=
  ⟨contractId, "1.0.0", "acme", .allow, .ofList [("email", action)], none, .empty⟩

theorem pseudonymPolicy_enforceable (contractId : String) (action : MaskAction)
    (policies : Dict String Logical.MaskPolicy) :
    Enforceable labelEngine (pseudonymPolicy contractId action) employeeSchema policies where
  filter := trivial
  masks := fun _ => ⟨by decide, fun field hfield => by
    simp only [employeeSchema, List.mem_cons, List.not_mem_nil, or_false] at hfield
    obtain rfl | rfl | rfl := hfield
    · exact .inr (.inl (.inl rfl))
    · exact .inl rfl
    · exact .inl rfl⟩

theorem pseudonymPolicy_drained {contractId : String} (hid : contractId ≠ "") (action : MaskAction)
    {sel : Selection} (hlimit : sel.limit = none) (hin : sel.InRange employeeSchema) :
    ∃ out, Drained labelEngine (pseudonymPolicy contractId action) sel
      (.dataSource employeeSchema [.ok employees]) employees.rows out := by
  let p := pseudonymPolicy contractId action
  have hserde := payrollSerde_reads p
  obtain ⟨plan, out, hplan, hout⟩ := employees_drains labelEngine_typeOnly rfl hid
    (pseudonymPolicy_enforceable contractId action) hserde hin
  refine ⟨out, rfl, hlimit, payrollSerde p, hserde, _, plan, _, rfl, hplan, ?_, ?_, hout⟩
  · exact (List.append_nil _).symm
  · intro batch hbatch
    obtain rfl := Except.ok.inj (List.mem_singleton.mp hbatch)
    rfl

/-- Hashed under one contract and tokenized under another, and linked. -/
theorem scans_join_employees : ∃ out out',
    Drained labelEngine (pseudonymPolicy "hashed" .hashSha256) ⟨none, none⟩
      (.dataSource employeeSchema [.ok employees]) employees.rows out ∧
    Drained labelEngine (pseudonymPolicy "tokens" .tokenize) ⟨some [2, 0], none⟩
      (.dataSource employeeSchema [.ok employees]) employees.rows out' ∧
    (join (shownText 0) (shownText 1) (RecordBatch.batching.allRows out)
      (RecordBatch.batching.allRows out')).length = 2 := by
  have hnone : Selection.InRange ⟨none, none⟩ employeeSchema := by simp [Selection.InRange]
  have hages : Selection.InRange ⟨some [2, 0], none⟩ employeeSchema := by
    simp [Selection.InRange, employeeSchema]
  obtain ⟨out, h⟩ := pseudonymPolicy_drained (by decide : "hashed" ≠ "") .hashSha256 rfl hnone
  obtain ⟨out', h'⟩ := pseudonymPolicy_drained (by decide : "tokens" ≠ "") .tokenize rfl hages
  have hmasked : Pseudonymous (pseudonymPolicy "hashed" .hashSha256) ⟨none, none⟩ employeeSchema 0 0 :=
    ⟨rfl, ⟨"email", .utf8, true⟩, rfl, .inl rfl⟩
  have hmasked' : Pseudonymous (pseudonymPolicy "tokens" .tokenize) ⟨some [2, 0], none⟩ employeeSchema
      1 0 := ⟨rfl, ⟨"email", .utf8, true⟩, rfl, .inr rfl⟩
  refine ⟨out, out', h, h', ?_⟩
  rw [scans_join h h' hmasked hmasked' labelEngine_digest.injOn (fun _ _ s _ => Set.mem_univ s)
    fun _ _ s _ => Set.mem_univ s, List.length_map]
  decide

end Griot
