import Griot.Contract.Source
import Griot.Governed.Types

/-! Bindings of datasets to tables.

A local Parquet file is read into memory as a whole. What the file system and the Parquet
reader make of a path is given, and so are the texts of their errors. -/
namespace Griot

/-- `Field::contains` -/
def Field.contains (field other : Field) : Bool :=
  field.name == other.name && field.dataType == other.dataType && (field.nullable || !other.nullable)

/-- `Schema::contains` -/
def Schema.contains (schema other : Schema) : Bool :=
  schema.length == other.length && (schema.zip other).all fun e => e.1.contains e.2

/-- `MemTable::try_new` with one partition. -/
def MemTable.tryNew (schema : Schema) (batches : List RecordBatch) : Except String TableProvider :=
  if batches.all fun batch => Schema.contains schema batch.schema then .ok (.memory schema batches)
  else .error "Error during planning: Mismatch between schema and batches"

/-- A file with a footer that can be read: its schema, and its batches one by one if a reader
can be built. -/
structure ParquetFile where
  schema : Schema
  build : Except String (List (Except String RecordBatch))

structure FileSystem where
  /-- Opening a path, then reading its footer. -/
  openFile : String → Except String (Except String ParquetFile)
  /-- The `{:?}` form of a path. -/
  debugPath : String → String

def parquetError (fs : FileSystem) (path e : String) : BindingError :=
  .load ("parquet read error: " ++ fs.debugPath path ++ ": " ++ e)

def loadParquetAsProvider (fs : FileSystem) (path : String) : Except BindingError TableProvider := do
  let builder ← (fs.openFile path).mapError fun e =>
    .load ("io error reading '" ++ path ++ "': " ++ e)
  let file ← builder.mapError (parquetError fs path)
  let reader ← file.build.mapError (parquetError fs path)
  let batches ← reader.mapM fun batch => batch.mapError (parquetError fs path)
  (MemTable.tryNew file.schema batches).mapError fun e =>
    .load ("failed to build table provider: MemTable: " ++ e)

/-- What a reader of Parquet files promises: the batches of a file have its schema. -/
def FileSystem.Consistent (fs : FileSystem) : Prop :=
  ∀ path file reader batch, fs.openFile path = .ok (.ok file) → file.build = .ok reader →
    .ok batch ∈ reader → batch.schema = file.schema

theorem mem_of_mapM_mapError {α ε ε' : Type} {f : ε → ε'} {l : List (Except ε α)} {as : List α} {a : α}
    (h : l.mapM (fun x => x.mapError f) = .ok as) (ha : a ∈ as) : .ok a ∈ l := by
  induction l generalizing as with
  | nil =>
    obtain rfl := Except.ok.inj h
    cases ha
  | cons x l ih =>
    rw [List.mapM_cons] at h
    obtain ⟨b, hx, h⟩ := Lib.bind_eq_ok.mp h
    obtain ⟨bs, hl, h⟩ := Lib.bind_eq_ok.mp h
    obtain rfl := Except.ok.inj h
    obtain rfl | ha := List.mem_cons.mp ha
    · rw [Lib.mapError_ok.mp hx]
      exact List.mem_cons_self ..
    · exact List.mem_cons_of_mem _ (ih hl ha)

/-- What loading a file comes to. -/
theorem loadParquetAsProvider_ok {fs : FileSystem} {path : String} {table : TableProvider}
    (hfs : fs.Consistent) (h : loadParquetAsProvider fs path = .ok table) :
    ∃ schema batches, table = .memory schema batches ∧ ∀ batch ∈ batches, batch.schema = schema := by
  rw [loadParquetAsProvider] at h
  obtain ⟨builder, hbuilder, h⟩ := Lib.bind_eq_ok.mp h
  obtain ⟨file, hfile, h⟩ := Lib.bind_eq_ok.mp h
  obtain ⟨reader, hreader, h⟩ := Lib.bind_eq_ok.mp h
  obtain ⟨batches, hbatches, h⟩ := Lib.bind_eq_ok.mp h
  have hopen : fs.openFile path = .ok (.ok file) :=
    (Lib.mapError_ok.mp hbuilder).trans (congrArg Except.ok (Lib.mapError_ok.mp hfile))
  rw [Lib.mapError_ok, MemTable.tryNew] at h
  split at h
  · refine ⟨file.schema, batches, (Except.ok.inj h).symm, fun batch hbatch => ?_⟩
    exact hfs path file reader batch hopen (Lib.mapError_ok.mp hreader)
      (mem_of_mapM_mapError hbatches hbatch)
  · cases h

end Griot
