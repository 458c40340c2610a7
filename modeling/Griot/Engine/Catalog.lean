import Griot.Ddl.Guard
import Griot.Engine.Binding
import Griot.Governed.View
import Griot.Lib.Dialogue

/-! The engine and its catalog.

A query runs in a session of its own whose only catalog is bound to the caller. Naming a
dataset asks the contract source for the policy of the caller, then the binding for the
table, and hands out the governed table. Planning and executing a statement is the SQL
engine's part: it may be any program that asks the catalog, and the tables it was handed,
one question after another. The source, the binding, the files and the noise may be
different at every call. -/
namespace Griot

open Lib Physical Platform

abbrev ContractSource := Nat → String → Caller → Except ContractError ResolvedPolicy

abbrev BindingResolver := Nat → String → Except BindingError TableProvider

/-! ### The catalog -/

/-- The errors of the catalog, each with the arguments of its message. -/
inductive CatalogError where
  /-- contract resolution failed for '{name}': {e} -/
  | resolution (name : String) (error : ContractError)
  /-- contract denied access to '{name}': {reason} -/
  | denied (name : String) (reason : DenyReason)
  /-- binding failed for '{name}': {e} -/
  | binding (name : String) (error : BindingError)

structure GriotSchemaProvider where
  source : ContractSource
  binding : BindingResolver
  caller : Caller

namespace GriotSchemaProvider
variable (provider : GriotSchemaProvider)

/-- Datasets are not enumerated. -/
def tableNames : List String := []

/-- Every name may be a dataset. -/
def tableExist (_ : GriotSchemaProvider) (_ : String) : Bool := true

def table (serde : SerdeJson) (call : Nat) (name : String) :
    Except CatalogError (Option ContractTableProvider) := do
  let policy ← (provider.source call name provider.caller).mapError (.resolution name)
  match policy.decision with
  | .deny reason => throw (.denied name reason)
  | .allow =>
    let inner ← (provider.binding call name).mapError (.binding name)
    return some (.new serde inner policy)

/-- **What naming a dataset comes to.** -/
theorem table_eq_ok {serde : SerdeJson} {call : Nat} {name : String}
    {result : Option ContractTableProvider} :
    provider.table serde call name = .ok result ↔ ∃ policy inner,
      provider.source call name provider.caller = .ok policy ∧ policy.decision = .allow ∧
        provider.binding call name = .ok inner ∧ result = some (.new serde inner policy) := by
  rw [table]
  cases hsource : provider.source call name provider.caller with
  | error e => simp [bind, Except.bind, Except.mapError]
  | ok policy =>
    cases hdecision : policy.decision with
    | deny reason =>
      simp [bind, Except.bind, Except.mapError, hdecision, throw, throwThe, MonadExceptOf.throw]
    | allow =>
      cases hbinding : provider.binding call name with
      | error e => simp [bind, Except.bind, Except.mapError, hdecision]
      | ok inner =>
        simp only [bind, Except.bind, Except.mapError, hdecision]
        constructor
        · intro h
          exact ⟨policy, inner, rfl, hdecision, rfl, (Except.ok.inj h).symm⟩
        · intro ⟨policy', inner', hp, _, hi, hresult⟩
          obtain rfl := Except.ok.inj hp
          obtain rfl := Except.ok.inj hi
          rw [hresult]
          rfl

end GriotSchemaProvider

structure GriotCatalogProvider where
  schemaName : String
  schemaProvider : GriotSchemaProvider

namespace GriotCatalogProvider
variable (catalog : GriotCatalogProvider)

def schemaNames : List String := [catalog.schemaName]

def schema (name : String) : Option GriotSchemaProvider :=
  if name = catalog.schemaName then some catalog.schemaProvider else none

end GriotCatalogProvider

/-! ### What a statement may ask -/

/-- A table is known by its number in the order they were handed out. The filters of a scan are
not looked at. -/
inductive Question where
  | schemaNames
  | hasSchema (name : String)
  | tableNames (schema : String)
  | tableExist (schema name : String)
  | table (schema name : String)
  | tableSchema (table : Nat)
  | scan (table : Nat) (projection : Option (List Nat)) (limit : Option Nat)

/-- Of a scan its schemas and its stream are seen; no table has a number that was not handed out. -/
def Answer : Question → Type
  | .schemaNames => List String
  | .hasSchema _ => Bool
  | .tableNames _ => Option (List String)
  | .tableExist _ _ => Option Bool
  | .table _ _ => Except CatalogError (Option Nat)
  | .tableSchema _ => Option Schema
  | .scan _ _ _ => Option (Except DataFusionError PlanView)

structure Session where
  calls : Nat
  tables : List ContractTableProvider

def Session.start : Session := ⟨0, []⟩

/-- What differs from call to call but the source and the binding: the noise. -/
structure Surroundings where
  engine : Engine
  serde : SerdeJson
  draws : Nat → Nat → Nat → Nat → LaplaceNoiseExec.Draw

section Replies
variable (around : Surroundings) (catalog : GriotCatalogProvider)

def replyTable (schema name : String) (s : Session) :
    Except CatalogError (Option Nat) × Session :=
  match catalog.schema schema with
  | none => (.ok none, s)
  | some provider => match provider.table around.serde s.calls name with
    | .error e => (.error e, {s with calls := s.calls + 1})
    | .ok none => (.ok none, {s with calls := s.calls + 1})
    | .ok (some table) => (.ok (some s.tables.length), ⟨s.calls + 1, s.tables ++ [table]⟩)

def replyScan (table : Nat) (projection : Option (List Nat)) (limit : Option Nat) (s : Session) :
    Option (Except DataFusionError PlanView) × Session :=
  match s.tables[table]? with
  | none => (none, s)
  | some provider =>
    (some ((provider.scan around.serde projection limit).map
      (PlanView.ofPlan around.engine (around.draws s.calls))), {s with calls := s.calls + 1})

def reply : (q : Question) → Session → Answer q × Session
  | .schemaNames, s => (catalog.schemaNames, s)
  | .hasSchema name, s => ((catalog.schema name).isSome, s)
  | .tableNames schema, s => ((catalog.schema schema).map fun _ => GriotSchemaProvider.tableNames, s)
  | .tableExist schema name, s => ((catalog.schema schema).map (·.tableExist name), s)
  | .table schema name, s => replyTable around catalog schema name s
  | .tableSchema table, s => ((s.tables[table]?).map (·.governedSchema), s)
  | .scan table projection limit, s => replyScan around table projection limit s

/-- The session of one query. -/
def session : Server Answer Session := ⟨reply around catalog⟩

end Replies

/-! ### The engine -/

/-- `CATALOG_NAME` is the session's only catalog, and this its only schema. -/
def schemaName : String := "data"

structure GriotEngine where
  source : ContractSource
  binding : BindingResolver

/-- A statement, planned and executed: any program. -/
abbrev SessionContext := String → Dialogue Answer (Except DataFusionError (List RecordBatch))

namespace GriotEngine
variable (around : Surroundings) (griot : GriotEngine)

def catalog (caller : Caller) : GriotCatalogProvider :=
  ⟨schemaName, griot.source, griot.binding, caller⟩

def query (sql : SessionContext) (statement : String) (caller : Caller) :
    Except EngineError (List RecordBatch) := do
  DdlGuard.rejectUnsafeDdl statement
  ((session around (griot.catalog caller)).run (sql statement) .start).mapError .dataFusion

/-- The exchanges of a query that is not rejected. -/
def transcript (sql : SessionContext) (statement : String) (caller : Caller) :
    List (Exchange Answer) :=
  (session around (griot.catalog caller)).transcript (sql statement) .start

/-- The source of the contracts is also the binding; the files may change. -/
def ofSource (files : Nat → FileSystem) (source : JsonContractSource) : GriotEngine where
  source := fun _ dataset caller => source.resolve dataset caller
  binding := fun call dataset => source.resolveBinding (loadParquetAsProvider (files call)) dataset

def fromJsonContracts (serde : SerdeJson) (files : Nat → FileSystem) (docs : List String) :
    Except ContractError GriotEngine :=
  (JsonContractSource.fromJsonStrs serde docs).map (ofSource files)

def fromJsonContractsDir (serde : SerdeJson) (files : Nat → FileSystem)
    (entries : Except String (List (Except String DirEntry))) : Except ContractError GriotEngine :=
  (JsonContractSource.fromDir serde entries).map (ofSource files)

end GriotEngine
end Griot
