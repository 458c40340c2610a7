import Griot.Result.Printer

/-! What the lines of a result say about it.

Every row is one line, whatever it holds. The lines give the rows back, cell by cell, exactly if the
schema has no column whose cells are not printed (dates, times and binary of a fixed size come out
the same for every cell) and none whose name a later column takes over, but for columns that can
hold one cell only (`formatJson_lossless_iff`). -/
namespace Griot.Result

open Lib

/-! ### What cells become -/

/-- What the formatter makes of a cell of the type. -/
def shown (encode64 : Bytes → String) (t : ColumnType) (cell : Cell) : Json :=
  (columnValueAt encode64 cell "" t).toOption.getD .null

/-- Every cell of the type is printed in its own way. -/
def ColumnType.shows : ColumnType → Bool
  | .date32 | .date64 | .timestamp _ _ | .time32 _ | .time64 _ | .duration _ | .interval _
  | .complex _ => false
  | .fixedSizeBinary size => size = 0
  | _ => true

/-- The types that the formatter is for, and those of bytes. -/
def ColumnType.isSupported : ColumnType → Bool
  | .null | .interval _ | .complex _ => false
  | _ => true

/-- The float is finite, if the cell is one. -/
def Cell.Finite (cell : Cell) : Prop := ∀ x, cell = .float x → x.isFinite = true

section Cells
variable {encode64 : Bytes → String} {t : ColumnType} {cell cell' : Cell}

theorem fromF64_scalar {x : F64} (hdouble : x.IsDouble) : Scalar (fromF64 x) := by
  cases x with
  | fin q => exact .number (.number hdouble)
  | negZero => exact .number .negZero
  | inf negative => exact .null
  | nan => exact .null

theorem fromF64_inj {x y : F64} (hx : x.isFinite = true) (hy : y.isFinite = true)
    (h : fromF64 x = fromF64 y) : x = y := by
  cases x <;> cases y <;> simp_all [fromF64, F64.isFinite, F64.toRat?]

theorem fromF64_ne_null {x : F64} (hx : x.isFinite = true) : fromF64 x ≠ .null := by
  cases x <;> simp_all [fromF64, F64.isFinite, F64.toRat?]

/-- A cell of the type of its column is never an error. -/
theorem columnValueAt_ok (h : HasType t cell) (colName : String) :
    columnValueAt encode64 cell colName t = .ok (shown encode64 t cell) := by
  cases h with
  | null => rfl
  | boolean b => rfl
  | integer hbounds => cases t <;> first | rfl | cases hbounds
  | float hfloat => cases t <;> first | rfl | cases hfloat
  | text s htext => cases t <;> first | rfl | cases htext
  | bytes hbinary => cases t <;> first | rfl | cases hbinary
  | raw b hraw => cases t <;> first | rfl | cases hraw

theorem shown_scalar (h : HasType t cell) : Scalar (shown encode64 t cell) := by
  cases h with
  | null => exact .null
  | boolean b => exact .bool b
  | @integer _ _ _ i hbounds =>
    cases t <;> first | exact .number (.integer i) | exact .string _ | cases hbounds
  | float hfloat hdouble => cases t <;> first | exact fromF64_scalar hdouble | cases hfloat
  | text s htext => cases t <;> first | exact .string _ | cases htext
  | bytes hbinary => cases t <;> first | exact .string _ | cases hbinary
  | raw b hraw => cases t <;> first | exact .string _ | exact .null | cases hraw

/-- The value that says what the cell is. -/
def Cell.toJson (encode64 : Bytes → String) : Cell → Json
  | .null | .raw _ => .null
  | .boolean b => .bool b
  | .integer i => .integer i
  | .float x => fromF64 x
  | .text s => .string s
  | .bytes b => .string (encode64 b)

theorem shown_eq (hshows : t.shows = true) (h : HasType t cell) :
    shown encode64 t cell = cell.toJson encode64 := by
  cases h with
  | null => rfl
  | boolean b => rfl
  | integer hbounds => cases t <;> first | rfl | (cases hshows; done) | cases hbounds
  | float hfloat => cases t <;> first | rfl | cases hfloat
  | text s htext => cases t <;> first | rfl | cases htext
  | @bytes _ b hbinary hsize =>
    cases t with
    | binary | largeBinary | binaryView => rfl
    | fixedSizeBinary size =>
      -- Of size zero there are only the bytes that are printed for every size.
      have hzero : size = 0 := by simpa [ColumnType.shows] using hshows
      obtain rfl : b = [] := List.length_eq_zero_iff.mp ((hsize size rfl).trans hzero)
      rfl
    | _ => cases hbinary
  | raw b hraw => cases t <;> first | (cases hshows; done) | cases hraw

theorem HasType.not_text_and_bytes {s : String} {b : Bytes} (h : HasType t (.text s))
    (h' : HasType t (.bytes b)) : False := by
  cases h with
  | text _ htext =>
    cases h' with
    | bytes hbinary => cases t <;> first | (cases htext; done) | cases hbinary

/-- **What is printed gives the cell back**, where the type shows its cells. -/
theorem shown_inj (hencode : encode64.Injective) (hshows : t.shows = true) (h : HasType t cell)
    (h' : HasType t cell') (hfinite : cell.Finite) (hfinite' : cell'.Finite)
    (heq : shown encode64 t cell = shown encode64 t cell') : cell = cell' := by
  rw [shown_eq hshows h, shown_eq hshows h'] at heq
  have hraw {b : Bytes} (hb : HasType t (.raw b)) : False := by
    cases hb with
    | raw _ hraw => cases t <;> first | (cases hshows; done) | cases hraw
  cases cell with
  | raw b => exact (hraw h).elim
  | null =>
    cases cell' with
    | null => rfl
    | float y => exact absurd heq.symm (fromF64_ne_null (hfinite' y rfl))
    | raw b => exact (hraw h').elim
    | _ => cases heq
  | boolean b =>
    cases cell' with
    | boolean b' => exact congrArg _ (Json.bool.inj heq)
    | float y => cases h; cases h'; contradiction
    | _ => cases heq
  | integer i =>
    cases cell' with
    | integer j => exact congrArg _ (Json.integer.inj heq)
    | float y => cases y <;> cases heq
    | _ => cases heq
  | float x =>
    cases cell' with
    | null => exact absurd heq (fromF64_ne_null (hfinite x rfl))
    | float y => exact congrArg _ (fromF64_inj (hfinite x rfl) (hfinite' y rfl) heq)
    | raw b => exact (hraw h').elim
    | _ => cases x <;> cases heq
  | text s =>
    cases cell' with
    | text s' => exact congrArg _ (Json.string.inj heq)
    | float y => cases y <;> cases heq
    | bytes b => exact (h.not_text_and_bytes h').elim
    | _ => cases heq
  | bytes b =>
    cases cell' with
    | text s => exact (h'.not_text_and_bytes h).elim
    | float y => cases y <;> cases heq
    | bytes b' => exact congrArg _ (hencode (Json.string.inj heq))
    | _ => cases heq

end Cells

/-! ### Rows -/

/-- The values of a row under the names of the fields, a repeated name more than once. -/
def entriesOf (encode64 : Bytes → String) (schema : Schema) (row : List Cell) : List (String × Json) :=
  (schema.zip row).map fun column => (column.1.name, shown encode64 column.1.dataType column.2)

def objectOf (encode64 : Bytes → String) (schema : Schema) (row : List Cell) : Dict String Json :=
  .ofList (entriesOf encode64 schema row)

/-- There is one cell that the column can have. -/
def Field.OneCell (field : Field) : Prop :=
  field.nullable = false ∧ field.dataType = .fixedSizeBinary 0

/-- Of every column that can have two cells these are printed differently, and under a name that no
later column has. -/
def Schema.Lossless : Schema → Prop
  | [] => True
  | field :: rest => (field.OneCell ∨
      field.dataType.shows = true ∧ ∀ other ∈ rest, other.name ≠ field.name) ∧ Schema.Lossless rest

section Rows
variable {serde : SerdeJson} {encode64 : Bytes → String} {schema : Schema} {row row' : List Cell}

theorem foldlM_insertCell (h : List.Forall₂ Field.Admits schema row) (obj : Dict String Json) :
    (schema.zip row).foldlM (insertCell encode64) obj =
      .ok ((entriesOf encode64 schema row).foldl (fun d e => d.insert e.1 e.2) obj) := by
  induction h generalizing obj with
  | nil => rfl
  | @cons field cell schema row hcell hrest ih =>
    have hstep : insertCell encode64 obj (field, cell) =
        .ok (obj.insert field.name (shown encode64 field.dataType cell)) := by
      rw [insertCell, columnValueAt_ok hcell.1]
      rfl
    rw [List.zip_cons_cons, List.foldlM_cons, hstep]
    exact ih _

theorem formatRow_ok (h : List.Forall₂ Field.Admits schema row) :
    formatRow serde encode64 schema row =
      .ok (serde.toVec (.object (objectOf encode64 schema row).entries) ++ [10]) := by
  rw [formatRow, foldlM_insertCell h]
  rfl

theorem lookup_objectOf_cons (field : Field) (schema : Schema) (cell : Cell) (row : List Cell)
    (k : String) : (objectOf encode64 (field :: schema) (cell :: row)).lookup k =
      ((objectOf encode64 schema row).lookup k).or
        (if k = field.name then some (shown encode64 field.dataType cell) else none) :=
  Dict.lookup_ofList_append [(field.name, shown encode64 field.dataType cell)]
    (entriesOf encode64 schema row) k

theorem lookup_objectOf_eq_none (h : List.Forall₂ Field.Admits schema row) {k : String} :
    (objectOf encode64 schema row).lookup k = none ↔ ∀ field ∈ schema, field.name ≠ k := by
  rw [objectOf, Dict.lookup_ofList_eq_none]
  induction h with
  | nil => simp [entriesOf]
  | @cons field cell schema row _ _ ih =>
    rw [List.forall_mem_cons, ← ih]
    simp [entriesOf, eq_comm]

theorem objectOf_scalar (h : List.Forall₂ Field.Admits schema row) :
    ∀ m ∈ (objectOf encode64 schema row).entries, Scalar m.2 := by
  intro m hm
  have hmem := Dict.mem_of_lookup_ofList ((Dict.mem_entries _).mp hm)
  obtain ⟨column, hcolumn, heq⟩ := List.mem_map.mp hmem
  have hcell : column.1.Admits column.2 := (List.forall₂_iff_zip.mp h).2 hcolumn
  exact (Prod.mk.inj heq).2 ▸ shown_scalar hcell.1

/-- As many members for each row of the schema. -/
theorem length_objectOf (h : List.Forall₂ Field.Admits schema row)
    (h' : List.Forall₂ Field.Admits schema row') :
    (objectOf encode64 schema row).entries.length = (objectOf encode64 schema row').entries.length := by
  have hkey (d : Dict String Json) (k : String) :
      k ∈ d.entries.map Prod.fst ↔ d.lookup k ≠ none := by
    rw [Option.ne_none_iff_exists', List.mem_map]
    constructor
    · intro hmem
      obtain ⟨m, hm, rfl⟩ := hmem
      exact ⟨m.2, (Dict.mem_entries d).mp hm⟩
    · intro hsome
      obtain ⟨v, hv⟩ := hsome
      exact ⟨(k, v), (Dict.mem_entries d).mpr hv, rfl⟩
  have hperm : ((objectOf encode64 schema row).entries.map Prod.fst).Perm
      ((objectOf encode64 schema row').entries.map Prod.fst) := by
    refine (List.perm_ext_iff_of_nodup (Dict.entries_nodup _) (Dict.entries_nodup _)).mpr fun k => ?_
    rw [hkey, hkey, ne_eq, ne_eq, lookup_objectOf_eq_none h, lookup_objectOf_eq_none h']
  simpa using hperm.length_eq

theorem Field.OneCell.eq {field : Field} (hone : field.OneCell) {cell cell' : Cell}
    (h : field.Admits cell) (h' : field.Admits cell') : cell = cell' := by
  have hempty {cell : Cell} (h : field.Admits cell) : cell = .bytes [] := by
    obtain ⟨htype, hnull⟩ := h
    rw [hone.2] at htype
    cases htype with
    | null => exact absurd rfl (hnull hone.1)
    | integer hbounds => cases hbounds
    | float hfloat => cases hfloat
    | text s htext => cases htext
    | bytes hbinary hsize => exact congrArg _ (List.length_eq_zero_iff.mp (hsize 0 rfl))
    | raw b hraw => cases hraw
  rw [hempty h, hempty h']

/-- **Objects give rows back**, for a schema that loses nothing. -/
theorem row_eq_of_objectOf (hencode : encode64.Injective) (hlossless : schema.Lossless)
    (h : List.Forall₂ Field.Admits schema row) (h' : List.Forall₂ Field.Admits schema row')
    (hfinite : ∀ cell ∈ row, cell.Finite) (hfinite' : ∀ cell ∈ row', cell.Finite)
    (heq : ∀ k, (objectOf encode64 schema row).lookup k = (objectOf encode64 schema row').lookup k) :
    row = row' := by
  induction h generalizing row' with
  | nil =>
    cases h'
    rfl
  | @cons field cell schema row hcell hrest ih =>
    cases h' with
    | @cons _ cell' _ row' hcell' hrest' =>
      obtain ⟨hhead, hlossless⟩ := hlossless
      rw [List.forall_mem_cons] at hfinite hfinite'
      have hcells : cell = cell' := by
        obtain hone | ⟨hshows, hlast⟩ := hhead
        · exact hone.eq hcell hcell'
        · have hname := heq field.name
          rw [lookup_objectOf_cons, lookup_objectOf_cons, (lookup_objectOf_eq_none hrest).mpr hlast,
            (lookup_objectOf_eq_none hrest').mpr hlast, if_pos rfl, if_pos rfl] at hname
          exact shown_inj hencode hshows hcell.1 hcell'.1 hfinite.1 hfinite'.1 (Option.some.inj hname)
      have hrows : row = row' := by
        refine ih hlossless hrest' hfinite.2 hfinite'.2 fun k => ?_
        by_cases hnone : ∀ other ∈ schema, other.name ≠ k
        · rw [(lookup_objectOf_eq_none hrest).mpr hnone, (lookup_objectOf_eq_none hrest').mpr hnone]
        · have hsome {row : List Cell} (h : List.Forall₂ Field.Admits schema row) :
              ∃ v, (objectOf encode64 schema row).lookup k = some v :=
            Option.ne_none_iff_exists'.mp fun hlookup => hnone ((lookup_objectOf_eq_none h).mp hlookup)
          obtain ⟨v, hv⟩ := hsome hrest
          obtain ⟨v', hv'⟩ := hsome hrest'
          have hk := heq k
          rw [lookup_objectOf_cons, lookup_objectOf_cons, hv, hv'] at hk
          rw [hv, hv']
          exact hk
      rw [hcells, hrows]

end Rows

/-! ### Results -/

/-- The rows of the batches, in order. -/
def allRows (batches : List RecordBatch) : List (List Cell) := batches.flatMap RecordBatch.rows

/-- Batches of the schema whose floats are finite. -/
structure IsResult (schema : Schema) (batches : List RecordBatch) : Prop where
  schema_eq : ∀ batch ∈ batches, batch.schema = schema
  finite : ∀ row ∈ allRows batches, ∀ cell ∈ row, cell.Finite

section Results
variable {serde : SerdeJson} {encode64 : Bytes → String} {schema : Schema}

theorem rows_fit (batch : RecordBatch) {row : List Cell} (h : row ∈ batch.rows) :
    List.Forall₂ Field.Admits batch.schema row := by
  obtain ⟨i, hi, rfl⟩ := List.mem_map.mp h
  rw [Lib.row, List.forall₂_map_right_iff]
  refine batch.fits.imp fun field column hcolumn => hcolumn.2 _ ?_
  have hlt : i < column.length := hcolumn.1 ▸ List.mem_range.mp hi
  simp [Lib.cell, hlt]

theorem IsResult.fits {batches : List RecordBatch} (h : IsResult schema batches) {row : List Cell}
    (hrow : row ∈ allRows batches) : List.Forall₂ Field.Admits schema row := by
  obtain ⟨batch, hbatch, hrow⟩ := List.mem_flatMap.mp hrow
  exact h.schema_eq batch hbatch ▸ rows_fit batch hrow

/-- The object of a row as it is printed. -/
def objectText (serde : SerdeJson) (encode64 : Bytes → String) (schema : Schema) (row : List Cell) :
    Bytes := serde.toVec (.object (objectOf encode64 schema row).entries)

theorem foldlM_formatRow {rows : List (List Cell)}
    (h : ∀ row ∈ rows, List.Forall₂ Field.Admits schema row) (out : Bytes) :
    rows.foldlM (fun out row => (formatRow serde encode64 schema row).map (out ++ ·)) out =
      .ok (out ++ rows.flatMap fun row => objectText serde encode64 schema row ++ [10]) := by
  induction rows generalizing out with
  | nil => simp [pure, Except.pure]
  | cons row rows ih =>
    rw [List.forall_mem_cons] at h
    rw [List.foldlM_cons, formatRow_ok h.1, List.flatMap_cons, ← List.append_assoc]
    exact ih h.2 _

/-- **The output** is the lines of the rows, one after the other. -/
theorem formatJson_eq {batches : List RecordBatch} (h : ∀ batch ∈ batches, batch.schema = schema) :
    formatJson serde encode64 batches = .ok ((allRows batches).flatMap fun row =>
      objectText serde encode64 schema row ++ [10]) := by
  have hfold (out : Bytes) : batches.foldlM (formatBatch serde encode64) out =
      .ok (out ++ (allRows batches).flatMap fun row =>
        objectText serde encode64 schema row ++ [10]) := by
    induction batches generalizing out with
    | nil => simp [allRows, pure, Except.pure]
    | cons batch batches ih =>
      rw [List.forall_mem_cons] at h
      obtain ⟨rfl, hrest⟩ := h
      rw [List.foldlM_cons, formatBatch, foldlM_formatRow fun row hrow => rows_fit batch hrow]
      rw [allRows, List.flatMap_cons, List.flatMap_append, ← List.append_assoc]
      exact ih hrest _
  exact hfold []

variable (hprint : Compact serde)

include hprint

theorem objectText_line {row : List Cell} (h : List.Forall₂ Field.Admits schema row) :
    10 ∉ objectText serde encode64 schema row := hprint.object_line (objectOf_scalar h)

/-- **One line for each row.** -/
theorem count_formatJson {batches : List RecordBatch} (h : IsResult schema batches) :
    ∃ out, formatJson serde encode64 batches = .ok out ∧ out.count 10 = (allRows batches).length :=
  ⟨_, formatJson_eq h.schema_eq, count_lines fun _ hrow => objectText_line hprint (h.fits hrow)⟩

theorem objectText_inj (hencode : encode64.Injective) (hlossless : schema.Lossless)
    {row row' : List Cell} (h : List.Forall₂ Field.Admits schema row ∧ ∀ cell ∈ row, cell.Finite)
    (h' : List.Forall₂ Field.Admits schema row' ∧ ∀ cell ∈ row', cell.Finite)
    (heq : objectText serde encode64 schema row = objectText serde encode64 schema row') :
    row = row' := by
  have hentries := hprint.object_inj (objectOf_scalar h.1) (objectOf_scalar h'.1)
    (length_objectOf h.1 h'.1) heq
  refine row_eq_of_objectOf hencode hlossless h.1 h'.1 h.2 h'.2 fun k => Option.ext fun v => ?_
  rw [← Dict.mem_entries, ← Dict.mem_entries, hentries]

/-- A schema that loses nothing. -/
theorem allRows_eq_of_formatJson (hencode : encode64.Injective) (hlossless : schema.Lossless)
    {batches batches' : List RecordBatch} (h : IsResult schema batches) (h' : IsResult schema batches')
    {out : Bytes} (hout : formatJson serde encode64 batches = .ok out)
    (hout' : formatJson serde encode64 batches' = .ok out) : allRows batches = allRows batches' := by
  have hdelimited : Delimited (· = 10)
      (fun row => List.Forall₂ Field.Admits schema row ∧ ∀ cell ∈ row, cell.Finite)
      (objectText serde encode64 schema) :=
    .of_stopFree (fun row row' hrow hrow' => objectText_inj hprint hencode hlossless hrow hrow')
      fun row hrow u hu hstop => objectText_line hprint hrow.1 (hstop ▸ hu)
  refine hdelimited.lines rfl (fun row hrow => ⟨h.fits hrow, h.finite row hrow⟩)
    (fun row hrow => ⟨h'.fits hrow, h'.finite row hrow⟩) ?_
  exact Except.ok.inj ((formatJson_eq h.schema_eq).symm.trans
    (hout.trans (hout'.symm.trans (formatJson_eq h'.schema_eq))))

end Results

/-! ### Results that look the same -/

/-- Two cells of the type, but for bytes of size zero. -/
def ColumnType.sample (t : ColumnType) (n : Nat) : Cell :=
  match t with
  | .boolean => .boolean (n ≠ 0)
  | .float16 | .float32 | .float64 => .float (.fin n)
  | .utf8 | .largeUtf8 | .utf8View => .text (if n = 0 then "" else "a")
  | .binary | .largeBinary | .binaryView => .bytes (List.replicate n 0)
  | .fixedSizeBinary size => .bytes (List.replicate size (UInt8.ofNat n))
  | .null | .interval _ | .complex _ => .null
  | _ => .integer n

section Samples
variable {encode64 : Bytes → String} {t : ColumnType} {n : Nat}

theorem isDouble_sample (hn : n ≤ 1) : (F64.fin n).IsDouble := by
  intro q hq
  obtain rfl := F64.fin.inj hq
  obtain rfl | rfl := Nat.le_one_iff_eq_zero_or_eq_one.mp hn
  · simp [F64.round]
  · simpa using F64.round_one

theorem hasType_sample (hn : n ≤ 1) : HasType t (t.sample n) := by
  have hdouble := isDouble_sample hn
  have hnonneg (m : Nat) (hm : n ≤ m) : ((n : ℤ)) ≤ m := by exact_mod_cast hm
  cases t <;> first
    | exact .null
    | exact .boolean _
    | exact .float rfl hdouble
    | exact .text _ rfl
    | exact .bytes rfl (fun size hsize => by cases hsize <;> simp)
    | exact .integer rfl (by omega) (by omega)

theorem sample_ne_null (hsupported : t.isSupported = true) : t.sample n ≠ .null := by
  cases t <;> first | (cases hsupported; done) | simp [ColumnType.sample]

theorem finite_sample : (t.sample n).Finite := by
  intro x hx
  cases t <;> simp only [ColumnType.sample, reduceCtorEq, Cell.float.injEq] at hx
  all_goals exact hx ▸ rfl

theorem sample_ne (hsupported : t.isSupported = true) (hne : t ≠ .fixedSizeBinary 0) :
    t.sample 0 ≠ t.sample 1 := by
  cases t with
  | fixedSizeBinary size =>
    cases size with
    | zero => exact absurd rfl hne
    | succ size => simp [ColumnType.sample, List.replicate_succ]
  | null | interval | complex => cases hsupported
  | _ => simp [ColumnType.sample]

/-- All samples of a type that does not show its cells come out the same. -/
theorem shown_sample (hshows : t.shows = false) :
    shown encode64 t (t.sample 0) = shown encode64 t (t.sample 1) := by
  cases t <;> first | rfl | cases hshows

/-- A column that can have two cells has two that look the same unless its type shows them. -/
theorem Field.two_cells {field : Field} (hsupported : field.dataType.isSupported = true)
    (hone : ¬ field.OneCell) : ∃ cell cell', (field.Admits cell ∧ cell.Finite) ∧
      (field.Admits cell' ∧ cell'.Finite) ∧ cell ≠ cell' ∧
      (field.dataType.shows = false →
        shown encode64 field.dataType cell = shown encode64 field.dataType cell') := by
  have hsample {n : Nat} (hn : n ≤ 1) : field.Admits (field.dataType.sample n) :=
    ⟨hasType_sample hn, fun _ => sample_ne_null hsupported⟩
  by_cases hempty : field.dataType = .fixedSizeBinary 0
  · have hnullable : field.nullable ≠ false := fun hfalse => hone ⟨hfalse, hempty⟩
    refine ⟨.null, field.dataType.sample 0, ⟨⟨.null, fun h => absurd h hnullable⟩, nofun⟩,
      ⟨hsample (by omega), finite_sample⟩, (sample_ne_null hsupported).symm, fun hshows => ?_⟩
    rw [hempty] at hshows
    cases hshows
  · exact ⟨_, _, ⟨hsample (by omega), finite_sample⟩, ⟨hsample (Nat.le_refl 1), finite_sample⟩,
      sample_ne hsupported hempty, shown_sample⟩

/-- **Two rows with one object**, of a schema that loses something. -/
theorem exists_collision {schema : Schema}
    (hsupported : ∀ field ∈ schema, field.dataType.isSupported = true) (hloss : ¬ schema.Lossless) :
    ∃ row row', (List.Forall₂ Field.Admits schema row ∧ ∀ cell ∈ row, cell.Finite) ∧
      (List.Forall₂ Field.Admits schema row' ∧ ∀ cell ∈ row', cell.Finite) ∧ row ≠ row' ∧
      objectOf encode64 schema row = objectOf encode64 schema row' := by
  induction schema with
  | nil => exact absurd trivial hloss
  | cons field schema ih =>
    rw [List.forall_mem_cons] at hsupported
    by_cases hrest : Schema.Lossless schema
    · have hhead : ¬ (field.OneCell ∨
          field.dataType.shows = true ∧ ∀ other ∈ schema, other.name ≠ field.name) :=
        fun hhead => hloss ⟨hhead, hrest⟩
      obtain ⟨hone, hhidden⟩ := not_or.mp hhead
      obtain ⟨cell, cell', hcell, hcell', hne, hsame⟩ :=
        @Field.two_cells encode64 field hsupported.1 hone
      -- The other columns are filled with samples.
      have hothers : List.Forall₂ Field.Admits schema
          (schema.map fun other => other.dataType.sample 0) := by
        rw [List.forall₂_map_right_iff, List.forall₂_same]
        exact fun other hother => ⟨hasType_sample (Nat.zero_le 1),
          fun _ => sample_ne_null (hsupported.2 other hother)⟩
      have hfinite : ∀ cell ∈ schema.map fun other => other.dataType.sample 0, cell.Finite :=
        List.forall_mem_map.mpr fun other _ => finite_sample
      refine ⟨cell :: _, cell' :: _, ⟨.cons hcell.1 hothers, List.forall_mem_cons.mpr ⟨hcell.2, hfinite⟩⟩,
        ⟨.cons hcell'.1 hothers, List.forall_mem_cons.mpr ⟨hcell'.2, hfinite⟩⟩,
        fun heq => hne (List.cons.inj heq).1, Dict.ext fun k => ?_⟩
      rw [lookup_objectOf_cons, lookup_objectOf_cons]
      cases hlookup : (objectOf encode64 schema
          (schema.map fun other => other.dataType.sample 0)).lookup k with
      | some v => rfl
      | none =>
        by_cases hk : k = field.name
        · have hfresh := (lookup_objectOf_eq_none hothers).mp hlookup
          have hshows : field.dataType.shows = false :=
            Bool.eq_false_iff.mpr fun hshows => hhidden ⟨hshows, hk ▸ hfresh⟩
          rw [hsame hshows]
        · rw [if_neg hk, if_neg hk]
    · obtain ⟨row, row', hrow, hrow', hne, hobject⟩ := ih hsupported.2 hrest
      have hcell : field.Admits (field.dataType.sample 0) :=
        ⟨hasType_sample (Nat.zero_le 1), fun _ => sample_ne_null hsupported.1⟩
      refine ⟨field.dataType.sample 0 :: row, field.dataType.sample 0 :: row',
        ⟨.cons hcell hrow.1, List.forall_mem_cons.mpr ⟨finite_sample, hrow.2⟩⟩,
        ⟨.cons hcell hrow'.1, List.forall_mem_cons.mpr ⟨finite_sample, hrow'.2⟩⟩,
        fun heq => hne (List.cons.inj heq).2, Dict.ext fun k => ?_⟩
      rw [lookup_objectOf_cons, lookup_objectOf_cons, hobject]

end Samples

/-- A batch of one row. -/
def RecordBatch.ofRow {schema : Schema} {row : List Cell} (h : List.Forall₂ Field.Admits schema row) :
    RecordBatch where
  schema := schema
  columns := row.map fun cell => [cell]
  numRows := 1
  fits := by
    rw [List.forall₂_map_right_iff]
    exact h.imp fun field cell hcell => ⟨rfl, List.forall_mem_singleton.mpr hcell⟩

theorem rows_ofRow {schema : Schema} {row : List Cell} (h : List.Forall₂ Field.Admits schema row) :
    allRows [.ofRow h] = [row] := by
  have hrow : Lib.row (row.map fun cell => [cell]) 0 = row := by
    rw [Lib.row, List.map_map]
    exact List.map_id row
  simp [allRows, RecordBatch.rows, RecordBatch.ofRow, rowsOf, hrow]

/-- **Lossless results**: every result of the schema is printed, one line for each row, and those
printed alike have the same rows exactly if the schema loses nothing. -/
theorem formatJson_lossless_iff {serde : SerdeJson} {encode64 : Bytes → String}
    (hprint : Compact serde) (hencode : encode64.Injective) {schema : Schema}
    (hsupported : ∀ field ∈ schema, field.dataType.isSupported = true) :
    (∀ batches, IsResult schema batches → ∃ out,
      formatJson serde encode64 batches = .ok out ∧ out.count 10 = (allRows batches).length) ∧
    ((∀ batches batches', IsResult schema batches → IsResult schema batches' → ∀ out,
      formatJson serde encode64 batches = .ok out → formatJson serde encode64 batches' = .ok out →
        allRows batches = allRows batches') ↔ schema.Lossless) := by
  refine ⟨fun batches h => count_formatJson hprint h, ?_⟩
  constructor
  · intro h
    by_contra hloss
    obtain ⟨row, row', hrow, hrow', hne, hobject⟩ := @exists_collision encode64 schema hsupported hloss
    have hresult {row : List Cell} (hfits : List.Forall₂ Field.Admits schema row)
        (hfinite : ∀ cell ∈ row, cell.Finite) : IsResult schema [.ofRow hfits] :=
      ⟨by simp [RecordBatch.ofRow], by simpa [rows_ofRow] using hfinite⟩
    have hsame : objectText serde encode64 schema row = objectText serde encode64 schema row' := by
      rw [objectText, objectText, hobject]
    have hprinted {row : List Cell} (hfits : List.Forall₂ Field.Admits schema row) :
        formatJson serde encode64 [.ofRow hfits] =
          .ok (objectText serde encode64 schema row ++ [10]) := by
      have hschema : ∀ batch ∈ [RecordBatch.ofRow hfits], batch.schema = schema := by
        simp [RecordBatch.ofRow]
      rw [formatJson_eq hschema, rows_ofRow]
      simp
    have hrows := h _ _ (hresult hrow.1 hrow.2) (hresult hrow'.1 hrow'.2) _ (hprinted hrow.1)
      (hsame ▸ hprinted hrow'.1)
    rw [rows_ofRow, rows_ofRow] at hrows
    exact hne (List.cons.inj hrows).1
  · intro hlossless batches batches' h h' out hout hout'
    exact allRows_eq_of_formatJson hprint hencode hlossless h h' hout hout'

/-! ### Orders and days -/

/-- A column of each kind that is printed as it is. -/
def orderSchema : Schema :=
  [⟨"id", .int64, false⟩, ⟨"name", .utf8, true⟩, ⟨"amount", .float64, true⟩, ⟨"paid", .boolean, true⟩]

/-- Bytes as characters. -/
def characters (b : Bytes) : String := String.ofList (b.map Char.ofUInt8)

theorem characters_injective : characters.Injective := by
  intro b b' h
  refine List.map_injective_iff.mpr (fun u v huv => ?_) (String.ofList_inj.mp h)
  exact UInt8.toUInt32_inj.mp (congrArg Char.val huv)

theorem formatJson_lossless_orders :
    (∀ batches, IsResult orderSchema batches → ∃ out,
      formatJson linePrinter characters batches = .ok out ∧
        out.count 10 = (allRows batches).length) ∧
    ((∀ batches batches', IsResult orderSchema batches → IsResult orderSchema batches' → ∀ out,
      formatJson linePrinter characters batches = .ok out →
        formatJson linePrinter characters batches' = .ok out →
          allRows batches = allRows batches') ↔ Schema.Lossless orderSchema) :=
  formatJson_lossless_iff compact_linePrinter characters_injective (by decide)

def daySchema : Schema := [⟨"day", .date32, false⟩]

theorem day_fits {n : ℤ} (hn : 0 ≤ n ∧ n ≤ 1) : List.Forall₂ Field.Admits daySchema [.integer n] :=
  .cons ⟨.integer rfl (by omega) (by omega), fun _ h => by cases h⟩ .nil

/-- One row with the day of that number. -/
def dayResult {n : ℤ} (hn : 0 ≤ n ∧ n ≤ 1) : List RecordBatch := [.ofRow (day_fits hn)]

theorem isResult_day {n : ℤ} (hn : 0 ≤ n ∧ n ≤ 1) : IsResult daySchema (dayResult hn) := by
  refine ⟨by simp [dayResult, RecordBatch.ofRow], ?_⟩
  rw [dayResult, rows_ofRow]
  simp [Cell.Finite]

/-- The object of every day says that there is something. -/
theorem objectOf_day (n : ℤ) :
    objectOf characters daySchema [.integer n] = Dict.empty.insert "day" (.string "Any \x7b .. \x7d") :=
  rfl

/-- **All days are one**: two results with different rows and the same bytes. -/
theorem days_look_alike : ∃ batches batches' out,
    IsResult daySchema batches ∧ IsResult daySchema batches' ∧
      formatJson linePrinter characters batches = .ok out ∧
      formatJson linePrinter characters batches' = .ok out ∧ allRows batches ≠ allRows batches' := by
  have hfirst : (0 : ℤ) ≤ 0 ∧ (0 : ℤ) ≤ 1 := by decide
  have hsecond : (0 : ℤ) ≤ 1 ∧ (1 : ℤ) ≤ 1 := by decide
  refine ⟨dayResult hfirst, dayResult hsecond, _, isResult_day hfirst, isResult_day hsecond,
    formatJson_eq (isResult_day hfirst).schema_eq, ?_, ?_⟩
  · rw [formatJson_eq (isResult_day hsecond).schema_eq, dayResult, dayResult, rows_ofRow, rows_ofRow,
      List.flatMap_singleton, List.flatMap_singleton, objectText, objectText, objectOf_day, objectOf_day]
  · rw [dayResult, dayResult, rows_ofRow, rows_ofRow]
    decide

end Griot.Result
