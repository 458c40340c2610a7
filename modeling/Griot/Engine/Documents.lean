import Griot.Engine.Secrecy

/-! Queries over contract documents.

Of the documents for a dataset the last one governs it (`Governs`): whom it lets in, and who
reads its file as it is and who under its masks, its filter and its noise (`Shown`). A query
reads, of every file, what the document that governs it shows to the caller and nothing more
(`documents_governed`), and an answer to a name is what that document says of the caller
(`documents_answer`). -/
namespace Griot

open Lib Physical Platform
open JsonContractSource (entryOf contractsOf)

/-! ### The document that governs a dataset -/

section Governs
variable {serde : SerdeJson} {docs : List String} {dataset : String} {c : JsonContract}

variable (serde docs dataset c) in
/-- The last document for the dataset is that of the contract. -/
def Governs : Prop :=
  ∃ before doc after, docs = before ++ doc :: after ∧ entryOf serde doc = some (dataset, c) ∧
    ∀ doc' ∈ after, ∀ c', entryOf serde doc' ≠ some (dataset, c')

theorem not_governs_nil : ¬ Governs serde [] dataset c := by
  intro h
  obtain ⟨before, doc, after, hdocs, -⟩ := h
  cases before <;> cases hdocs

/-- One document more. -/
theorem governs_concat {doc : String} : Governs serde (docs ++ [doc]) dataset c ↔
    entryOf serde doc = some (dataset, c) ∨
      (∀ c', entryOf serde doc ≠ some (dataset, c')) ∧ Governs serde docs dataset c := by
  constructor
  · intro h
    obtain ⟨before, doc', after, hdocs, hentry, hafter⟩ := h
    cases after using List.reverseRecOn with
    | nil =>
      obtain ⟨-, hdoc⟩ := List.append_inj' hdocs rfl
      obtain rfl := (List.cons.inj hdoc).1
      exact .inl hentry
    | append_singleton after last =>
      rw [← List.cons_append, ← List.append_assoc] at hdocs
      obtain ⟨rfl, hlast⟩ := List.append_inj' hdocs rfl
      obtain rfl := (List.cons.inj hlast).1
      exact .inr ⟨hafter doc (by simp), before, doc', after, rfl, hentry,
        fun d hd => hafter d (List.mem_append_left _ hd)⟩
  · intro h
    obtain hentry | ⟨hother, before, doc', after, rfl, hentry, hafter⟩ := h
    · exact ⟨docs, doc, [], rfl, hentry, by simp⟩
    · refine ⟨before, doc', after ++ [doc], by simp, hentry, fun d hd => ?_⟩
      obtain hd | hd := List.mem_append.mp hd
      · exact hafter d hd
      · obtain rfl := List.mem_singleton.mp hd
        exact hother

/-- **The contract of a dataset** is that of its last document. -/
theorem lookup_eq_some_iff :
    (Dict.ofList (contractsOf serde docs)).lookup dataset = some c ↔ Governs serde docs dataset c := by
  induction docs using List.reverseRecOn with
  | nil => exact iff_of_false (by simp [contractsOf]) not_governs_nil
  | append_singleton docs doc ih =>
    rw [governs_concat, ← ih, contractsOf, List.filterMap_append, ← contractsOf]
    cases hentry : entryOf serde doc with
    | none => simp [hentry]
    | some e =>
      rw [List.filterMap_cons_some hentry, List.filterMap_nil, Dict.ofList_concat, Dict.lookup_insert]
      obtain ⟨name, c'⟩ := e
      by_cases hname : dataset = name
      · subst hname
        simp
      · simp [hname, Ne.symm hname]

theorem lookup_eq_none_iff :
    (Dict.ofList (contractsOf serde docs)).lookup dataset = none ↔ ∀ c, ¬ Governs serde docs dataset c := by
  simp only [← lookup_eq_some_iff, Option.eq_none_iff_forall_ne_some, ne_eq]

end Governs

/-! ### What a contract shows -/

/-- The policy of a reader, over the masks of the columns. -/
def JsonContract.readerPolicy (c : JsonContract) (masks : Dict String MaskAction) : ResolvedPolicy :=
  ⟨c.contractId, c.version, c.ownerTenant, .allow, masks, c.rowFilter, c.dpColumns⟩

/-- The rows of a file that a contract shows to a caller. -/
inductive Shown (engine : Engine) (c : JsonContract) (caller : Caller)
    (draws : Nat → Nat → Nat → LaplaceNoiseExec.Draw) (sel : Selection) (schema : Schema)
    (batches : List RecordBatch) : List Row → Prop
  | owner (h : caller.tenant = c.ownerTenant) : Shown engine c caller draws sel schema batches
      (sel.first ((batches.flatMap RecordBatch.rows).map sel.project))
  | reader (h : caller.tenant ≠ c.ownerTenant) {masks : Dict String MaskAction}
      (hmasks : c.columnMasks = .ok masks) : Shown engine c caller draws sel schema batches
        (governedStream engine (c.readerPolicy masks) schema draws sel (batches.map .ok))

/-- The contract has a policy for the caller that is no denial. -/
structure JsonContract.LetsIn (c : JsonContract) (caller : Caller) : Prop where
  allows : c.allows caller
  masks : caller.tenant = c.ownerTenant ∨ ∃ masks, c.columnMasks = .ok masks

/-- What a name is answered. -/
inductive Named (serde : SerdeJson) (docs : List String) (fs : FileSystem) (caller : Caller)
    (name : String) : Except CatalogError (Option Nat) → Prop
  | unknown (h : ∀ c, ¬ Governs serde docs name c) :
      Named serde docs fs caller name (.error (.resolution name (.notFound name)))
  | denied {c : JsonContract} (hc : Governs serde docs name c) (h : ¬ c.allows caller) :
      Named serde docs fs caller name (.error (.denied name
        (.purposeNotPermittedBy caller.purpose c.contractId c.purposes)))
  | unreadable {c : JsonContract} (hc : Governs serde docs name c) (h : c.allows caller)
      (howner : caller.tenant ≠ c.ownerTenant) {e : ContractError} (hmasks : c.columnMasks = .error e) :
      Named serde docs fs caller name (.error (.resolution name e))
  | unbound {c : JsonContract} (hc : Governs serde docs name c) (h : c.LetsIn caller)
      {e : BindingError} (hload : loadParquetAsProvider fs c.binding.parquet = .error e) :
      Named serde docs fs caller name (.error (.binding name e))
  | bound {c : JsonContract} (hc : Governs serde docs name c) (h : c.LetsIn caller)
      {inner : TableProvider} (hload : loadParquetAsProvider fs c.binding.parquet = .ok inner)
      (table : Nat) : Named serde docs fs caller name (.ok (some table))

/-- A policy that allows everything leaves rows as they are. -/
theorem governedRows_allowAll {engine : Engine} {contractId contractVersion tenantId : String}
    {schema : Schema} {rows : List Row} (hrows : ∀ row ∈ rows, row.length = schema.length)
    (sel : Selection) : governedRows engine (.allowAll contractId contractVersion tenantId) schema sel rows =
      sel.first (rows.map sel.project) := by
  let p := ResolvedPolicy.allowAll contractId contractVersion tenantId
  have hfilter : rows.filter (keeps engine p schema) = rows :=
    List.filter_eq_self.mpr fun row hrow => rfl
  have hmask : rows.map (maskedRow engine p schema) = rows :=
    (List.map_congr_left fun row hrow => maskedRow_noop (fun column => rfl) (hrows row hrow)).trans
      (List.map_id _)
  rw [governedRows, hfilter, hmask]

theorem governedStream_allowAll {engine : Engine} {contractId contractVersion tenantId : String}
    {schema : Schema} {items : List (Except DataFusionError RecordBatch)}
    (hitems : ∀ {batch}, .ok batch ∈ items → batch.schema = schema)
    (draws : Nat → Nat → Nat → LaplaceNoiseExec.Draw) (sel : Selection) :
    governedStream engine (.allowAll contractId contractVersion tenantId) schema draws sel items =
      sel.first ((items.flatMap itemRows).map sel.project) := by
  have hrows : ∀ row ∈ items.flatMap itemRows, row.length = schema.length := by
    intro row hrow
    obtain ⟨item, hitem, hrow⟩ := List.mem_flatMap.mp hrow
    cases item with
    | error e => cases hrow
    | ok batch =>
      rw [← hitems hitem]
      exact row_length hrow
  rw [governedStream_eq _ _ _ rfl, governedRows_allowAll hrows]

theorem schema_items {schema : Schema} {batches : List RecordBatch}
    (hbatches : ∀ batch ∈ batches, batch.schema = schema) {batch : RecordBatch}
    (h : (.ok batch : Except DataFusionError RecordBatch) ∈ batches.map .ok) : batch.schema = schema := by
  obtain ⟨batch', hmem, hsame⟩ := List.mem_map.mp h
  obtain rfl := Except.ok.inj hsame
  exact hbatches batch' hmem

/-- What a policy of the contract lets through is what the contract shows. -/
theorem JsonContract.shown {engine : Engine} {c : JsonContract} {caller : Caller} {p : ResolvedPolicy}
    (hp : c.resolve caller = .ok p) (hallow : p.decision = .allow) {schema : Schema}
    {batches : List RecordBatch} (hbatches : ∀ batch ∈ batches, batch.schema = schema)
    (draws : Nat → Nat → Nat → LaplaceNoiseExec.Draw) (sel : Selection) :
    c.allows caller ∧ Shown engine c caller draws sel schema batches
      (governedStream engine p schema draws sel (batches.map .ok)) := by
  by_cases hallows : c.allows caller
  · refine ⟨hallows, ?_⟩
    by_cases howner : caller.tenant = c.ownerTenant
    · rw [resolve_owner hallows howner] at hp
      obtain rfl := Except.ok.inj hp
      rw [governedStream_allowAll (schema_items hbatches), List.flatMap_map]
      exact .owner howner
    · rw [resolve_reader hallows howner, enforced] at hp
      cases hmasks : c.columnMasks with
      | error e =>
        rw [hmasks] at hp
        cases hp
      | ok masks =>
        rw [hmasks] at hp
        obtain rfl := Except.ok.inj hp
        exact .reader howner hmasks
  · rw [resolve_denied hallows] at hp
    obtain rfl := Except.ok.inj hp
    cases hallow

/-! ### Engines over documents -/

section Engines
variable {around : Surroundings} {files : Nat → FileSystem} {docs : List String} {griot : GriotEngine}
  {caller : Caller} {name : String} {c : JsonContract}

/-- **What is loaded**: the last documents, every one of which can be read. -/
theorem fromJsonContracts_eq (hload : GriotEngine.fromJsonContracts around.serde files docs = .ok griot) :
    griot = .ofSource files ⟨.ofList (contractsOf around.serde docs)⟩ ∧
      JsonContractSource.fromJsonStrs around.serde docs =
        .ok ⟨.ofList (contractsOf around.serde docs)⟩ := by
  rw [GriotEngine.fromJsonContracts] at hload
  cases hsource : JsonContractSource.fromJsonStrs around.serde docs with
  | error e =>
    rw [hsource] at hload
    cases hload
  | ok source =>
    obtain ⟨-, rfl⟩ := JsonContractSource.fromJsonStrs_ok_iff.mp hsource
    rw [hsource] at hload
    exact ⟨(Except.ok.inj hload).symm, rfl⟩

/-- An engine for a directory is one for the documents in it, in the order they are listed. -/
theorem fromJsonContractsDir_ok_iff {entries : List (Except String DirEntry)} :
    GriotEngine.fromJsonContractsDir around.serde files (.ok entries) = .ok griot ↔
      (∀ entry ∈ entries, JsonContractSource.Readable entry) ∧
        GriotEngine.fromJsonContracts around.serde files
          (entries.filterMap JsonContractSource.documentOf) = .ok griot := by
  have hbuilt : ∀ loaded : Except ContractError JsonContractSource,
      loaded.map (GriotEngine.ofSource files) = .ok griot ↔
        ∃ source, loaded = .ok source ∧ GriotEngine.ofSource files source = griot := by
    intro loaded
    cases loaded <;> simp [Except.map]
  rw [GriotEngine.fromJsonContractsDir, GriotEngine.fromJsonContracts, hbuilt, hbuilt]
  simp only [JsonContractSource.fromDir_ok_iff, and_assoc, exists_and_left]

/-- A name that a document governs. -/
theorem ofSource_governed (h : Governs around.serde docs name c) (call : Nat) (caller : Caller) :
    (GriotEngine.ofSource files ⟨.ofList (contractsOf around.serde docs)⟩).source call name caller =
        c.resolve caller ∧
      (GriotEngine.ofSource files ⟨.ofList (contractsOf around.serde docs)⟩).binding call name =
        loadParquetAsProvider (files call) c.binding.parquet := by
  have hlookup := lookup_eq_some_iff.mpr h
  refine ⟨JsonContractSource.resolve_some hlookup caller, ?_⟩
  simp only [GriotEngine.ofSource, JsonContractSource.resolveBinding, hlookup]

/-- A name that no document governs. -/
theorem ofSource_unknown (h : ∀ c, ¬ Governs around.serde docs name c) (call : Nat) (caller : Caller) :
    (GriotEngine.ofSource files ⟨.ofList (contractsOf around.serde docs)⟩).source call name caller =
      .error (.notFound name) :=
  JsonContractSource.resolve_none (lookup_eq_none_iff.mpr h) caller

/-- Whatever is resolved is resolved by a contract. -/
theorem ofSource_ok {call : Nat} {p : ResolvedPolicy}
    (h : (GriotEngine.ofSource files ⟨.ofList (contractsOf around.serde docs)⟩).source call name caller =
      .ok p) : ∃ c, Governs around.serde docs name c ∧ c.resolve caller = .ok p := by
  by_cases hgoverned : ∃ c, Governs around.serde docs name c
  · obtain ⟨c, hc⟩ := hgoverned
    exact ⟨c, hc, (ofSource_governed hc call caller).1.symm.trans h⟩
  · rw [ofSource_unknown (not_exists.mp hgoverned)] at h
    cases h

/-- **Queries read what the documents show**: whatever a scan of a statement drains to are rows of
the file of the document that governs a name the statement had asked for, as its contract shows
them to the caller, whom it lets in. -/
theorem documents_governed
    (hload : GriotEngine.fromJsonContracts around.serde files docs = .ok griot)
    (hserde : ∀ name c p, Governs around.serde docs name c → c.resolve caller = .ok p →
      p.decision = .allow →
      around.serde.fromSlice (around.serde.toVec p.toBundleValue) = some p.toBundleValue)
    (hfiles : ∀ call, (files call).Consistent) {sql : SessionContext} {statement : String}
    {before after : List (Exchange Answer)} {table : Nat} {sel : Selection} {view : PlanView}
    (h : griot.transcript around sql statement caller =
      before ++ ⟨.scan table sel.projection sel.limit, some (.ok view)⟩ :: after)
    {out : List RecordBatch} (hout : collect view.stream = .ok out) :
    ∃ name c call schema batches draws, ⟨.table schemaName name, .ok (some table)⟩ ∈ before ∧
      Governs around.serde docs name c ∧ c.allows caller ∧
      loadParquetAsProvider (files call) c.binding.parquet = .ok (.memory schema batches) ∧
      Shown around.engine c caller draws sel schema batches (RecordBatch.batching.allRows out) := by
  obtain ⟨rfl, hstrs⟩ := fromJsonContracts_eq hload
  obtain ⟨name, p, inner, hgranted, call, plan, hplan, rfl⟩ :=
    transcript_granted h table sel.projection sel.limit view rfl
  obtain ⟨resolveCall, hsource, hbinding⟩ := hgranted.resolved
  obtain ⟨c, hc, hp⟩ := ofSource_ok hsource
  rw [(ofSource_governed hc resolveCall caller).2] at hbinding
  obtain ⟨schema, batches, rfl, hbatches⟩ := loadParquetAsProvider_ok (hfiles resolveCall) hbinding
  have hdoubles : p.Doubles :=
    (c.resolve_doubles hp fun column d => loaded_doubles hstrs (lookup_eq_some_iff.mpr hc)).1
  have hschema : ∀ raw, (TableProvider.memory schema batches).scan = .ok raw → ∀ batch,
      .ok batch ∈ raw.execute around.engine (around.draws call) → batch.schema = raw.schema := by
    intro raw hraw batch hbatch
    obtain rfl := Except.ok.inj hraw
    exact schema_items hbatches hbatch
  obtain ⟨raw, hraw, hrows⟩ := scan_drains (hserde name c p hc hp hgranted.allowed) hdoubles hschema
    hplan hout
  obtain rfl := Except.ok.inj hraw
  obtain ⟨hallows, hshown⟩ := c.shown hp hgranted.allowed hbatches (around.draws call) sel
  refine ⟨name, c, resolveCall, schema, batches, around.draws call, hgranted.asked, hc, hallows,
    hbinding, ?_⟩
  rw [hrows]
  exact hshown

/-- **One name**: the contract that governs it decides, then its file. -/
theorem named_replyTable (s : Session) :
    Named around.serde docs (files s.calls) caller name (replyTable around ((GriotEngine.ofSource files
      ⟨.ofList (contractsOf around.serde docs)⟩).catalog caller) schemaName name s).1 := by
  let griot := GriotEngine.ofSource files ⟨.ofList (contractsOf around.serde docs)⟩
  have hprovider : (griot.catalog caller).schema schemaName =
    some ⟨griot.source, griot.binding, caller⟩ := rfl
  rw [replyTable, hprovider]
  simp only [GriotSchemaProvider.table]
  by_cases hgoverned : ∃ c, Governs around.serde docs name c
  · obtain ⟨c, hc⟩ := hgoverned
    obtain ⟨hsource, hbinding⟩ := @ofSource_governed around files docs name c hc s.calls caller
    rw [hsource, hbinding]
    by_cases hallows : c.allows caller
    · by_cases hmasks : caller.tenant = c.ownerTenant ∨ ∃ masks, c.columnMasks = .ok masks
      · have hresolve : ∃ p, c.resolve caller = .ok p ∧ p.decision = .allow := by
          obtain howner | ⟨masks, hmasks⟩ := hmasks
          · exact ⟨_, JsonContract.resolve_owner hallows howner, rfl⟩
          · by_cases howner : caller.tenant = c.ownerTenant
            · exact ⟨_, JsonContract.resolve_owner hallows howner, rfl⟩
            · exact ⟨_, by
                rw [JsonContract.resolve_reader hallows howner, JsonContract.enforced, hmasks]
                rfl, rfl⟩
        obtain ⟨p, hp, hallow⟩ := hresolve
        rw [hp]
        simp only [Except.mapError, bind, Except.bind, hallow]
        cases hload : loadParquetAsProvider (files s.calls) c.binding.parquet with
        | error e => exact .unbound hc ⟨hallows, hmasks⟩ hload
        | ok inner => exact .bound hc ⟨hallows, hmasks⟩ hload _
      · obtain ⟨howner, hnone⟩ := not_or.mp hmasks
        rw [JsonContract.resolve_reader hallows howner, JsonContract.enforced]
        cases hread : c.columnMasks with
        | error e => exact .unreadable hc hallows howner hread
        | ok masks => exact absurd ⟨masks, hread⟩ hnone
    · rw [JsonContract.resolve_denied hallows]
      exact .denied hc hallows
  · have hnone := not_exists.mp hgoverned
    rw [@ofSource_unknown around files docs name hnone s.calls caller]
    exact .unknown hnone

/-- **Answers to names**: in every run a name is answered as the document that governs it says. -/
theorem documents_answer
    (hload : GriotEngine.fromJsonContracts around.serde files docs = .ok griot) {sql : SessionContext}
    {statement : String} {answer : Except CatalogError (Option Nat)}
    (h : ⟨.table schemaName name, answer⟩ ∈ griot.transcript around sql statement caller) :
    ∃ call, Named around.serde docs (files call) caller name answer := by
  obtain ⟨rfl, -⟩ := fromJsonContracts_eq hload
  obtain ⟨q, s, hexchange⟩ := Server.mem_transcript h
  obtain rfl : .table schemaName name = q := congrArg Exchange.question hexchange
  cases hexchange
  exact ⟨s.calls, named_replyTable s⟩

/-- Two lists of documents, and the files they name, that show the same of a name. -/
inductive DocumentsAlike (around : Surroundings) (files files' : Nat → FileSystem)
    (docs docs' : List String) (caller : Caller) (name : String) : Prop
  | unknown (h : ∀ c, ¬ Governs around.serde docs name c) (h' : ∀ c, ¬ Governs around.serde docs' name c)
  | governed {c c' : JsonContract} (hc : Governs around.serde docs name c)
      (hc' : Governs around.serde docs' name c') (hresolve : c.resolve caller = c'.resolve caller)
      (halike : ∀ p, c.resolve caller = .ok p → p.decision = .allow → ∀ call,
        BindingsAlike around.engine p (loadParquetAsProvider (files call) c.binding.parquet)
          (loadParquetAsProvider (files' call) c'.binding.parquet))

theorem enginesAlike_ofSource {files' : Nat → FileSystem} {docs' : List String} {names : Set String}
    (hserde : ∀ name c p, Governs around.serde docs name c → c.resolve caller = .ok p →
      p.decision = .allow →
      around.serde.fromSlice (around.serde.toVec p.toBundleValue) = some p.toBundleValue)
    (halike : ∀ name ∈ names, DocumentsAlike around files files' docs docs' caller name) :
    EnginesAlike around (.ofSource files ⟨.ofList (contractsOf around.serde docs)⟩)
      (.ofSource files' ⟨.ofList (contractsOf around.serde docs')⟩) caller caller names where
  source name hname call := by
    obtain ⟨h, h'⟩ | ⟨hc, hc', hresolve, -⟩ := halike name hname
    · rw [ofSource_unknown h, ofSource_unknown h']
    · rw [(ofSource_governed hc call caller).1, (ofSource_governed hc' call caller).1, hresolve]
  binding name hname call p hp hallow := by
    obtain ⟨h, h'⟩ | ⟨hc, hc', hresolve, hfiles⟩ := halike name hname
    · rw [ofSource_unknown h] at hp
      cases hp
    · rw [(ofSource_governed hc call caller).1] at hp
      rw [(ofSource_governed hc call caller).2, (ofSource_governed hc' call caller).2]
      exact hfiles p hp hallow call
  serde name hname call p hp hallow := by
    obtain ⟨c, hc, hp⟩ := ofSource_ok hp
    exact hserde name c p hc hp hallow

/-- **What the documents hide stays hidden**: a query depends on nothing but the last documents for
the names it asks for, and of their files on nothing that they do not show to the caller. -/
theorem documents_hide {files' : Nat → FileSystem} {docs' : List String} {griot' : GriotEngine}
    (htypes : TypeOnly around.engine)
    (hload : GriotEngine.fromJsonContracts around.serde files docs = .ok griot)
    (hload' : GriotEngine.fromJsonContracts around.serde files' docs' = .ok griot')
    (hserde : ∀ name c p, Governs around.serde docs name c → c.resolve caller = .ok p →
      p.decision = .allow →
      around.serde.fromSlice (around.serde.toVec p.toBundleValue) = some p.toBundleValue)
    (sql : SessionContext) (statement : String)
    (halike : ∀ name ∈ asked (griot.transcript around sql statement caller),
      DocumentsAlike around files files' docs docs' caller name) :
    griot.query around sql statement caller = griot'.query around sql statement caller ∧
      griot.transcript around sql statement caller =
        griot'.transcript around sql statement caller := by
  obtain ⟨rfl, -⟩ := fromJsonContracts_eq hload
  obtain ⟨rfl, -⟩ := fromJsonContracts_eq hload'
  obtain ⟨hrun, htranscript⟩ := session_alike htypes (sql statement) (enginesAlike_ofSource hserde halike)
  refine ⟨?_, htranscript⟩
  rw [GriotEngine.query, GriotEngine.query, hrun]

end Engines

/-! ### A document for the staff -/

def staffText : String :=
  "\x7b\"contract_id\":\"employees_v1\",\"version\":\"1.0.0\",\"dataset\":\"staff\"," ++
  "\"binding\":\x7b\"parquet\":\"/data/staff.parquet\"\x7d,\"owner_tenant\":\"acme\"," ++
  "\"purposes\":[\"analytics\"],\"columns\":[\x7b\"name\":\"email\",\"mask\":\"partial\"\x7d]," ++
  "\"row_filter\":\"active\"\x7d"

def staffContract : JsonContract :=
  ⟨"employees_v1", "1.0.0", "staff", ⟨"/data/staff.parquet"⟩, "acme", ["analytics"],
    [⟨"email", some "partial"⟩], some "active", .empty⟩

def staffMembers : List (String × Json) :=
  [("contract_id", .string "employees_v1"), ("version", .string "1.0.0"), ("dataset", .string "staff"),
    ("binding", .object [("parquet", .string "/data/staff.parquet")]),
    ("owner_tenant", .string "acme"), ("purposes", .array [.string "analytics"]),
    ("columns", .array [.object [("name", .string "email"), ("mask", .string "partial")]]),
    ("row_filter", .string "active")]

theorem staffText_ne : staffText ≠ "" := by decide +kernel

/-- A parser of the document and of its bundle. -/
def staffSerde : SerdeJson where
  fromSlice := fun bytes =>
    if bytes = utf8 staffText then some (.object staffMembers)
    else if bytes = utf8 employeeText then some employeePolicy.toBundleValue
    else none
  toVec := fun _ => utf8 employeeText
  fromSlice_nil := by rw [if_neg (ne_utf8 staffText_ne), if_neg (ne_utf8 employeeText_ne)]

def staffFiles (batch : RecordBatch) : FileSystem where
  openFile := fun path =>
    if path = "/data/staff.parquet" then .ok (.ok ⟨batch.schema, .ok [.ok batch]⟩)
    else .error "No such file or directory (os error 2)"
  debugPath := fun path => "\"" ++ path ++ "\""

def documentSurroundings : Surroundings := ⟨columnEngine, staffSerde, fun _ _ _ _ => (.fin 0, .fin 0)⟩

theorem entryOf_staff : entryOf staffSerde staffText = some ("staff", staffContract) := by
  have hparse : staffSerde.fromSlice (utf8 staffText) = some (.object staffMembers) := by
    simp [staffSerde]
  rw [entryOf, hparse]
  rfl

theorem governs_staff : Governs staffSerde [staffText] "staff" staffContract :=
  ⟨[], staffText, [], rfl, entryOf_staff, by simp⟩

theorem eq_staffContract {name : String} {c : JsonContract}
    (h : Governs staffSerde [staffText] name c) : name = "staff" ∧ c = staffContract := by
  have hone : Governs staffSerde ([] ++ [staffText]) name c := h
  obtain h | ⟨-, h⟩ := governs_concat.mp hone
  · obtain ⟨rfl, rfl⟩ := Prod.mk.inj (Option.some.inj (entryOf_staff.symm.trans h))
    exact ⟨rfl, rfl⟩
  · exact absurd h not_governs_nil

theorem staffSerde_reads :
    staffSerde.fromSlice (staffSerde.toVec employeePolicy.toBundleValue) =
      some employeePolicy.toBundleValue := by
  have hne : utf8 employeeText ≠ utf8 staffText := fun h => absurd (utf8_inj h) (by decide +kernel)
  simp [staffSerde, hne]

theorem staffContract_resolve : staffContract.resolve analyst = .ok employeePolicy := by
  have hmasks : staffContract.columnMasks = .ok (.ofList [("email", .partialMask)]) := by
    rfl
  rw [JsonContract.resolve_reader (.inr (by decide)) (by decide), JsonContract.enforced, hmasks]
  rfl

/-- The engine over the document, and a file of the batch. -/
def staffDocuments (batch : RecordBatch) : GriotEngine :=
  .ofSource (fun _ => staffFiles batch) ⟨.ofList (contractsOf staffSerde [staffText])⟩

theorem staffDocuments_loads (batch : RecordBatch) :
    GriotEngine.fromJsonContracts staffSerde (fun _ => staffFiles batch) [staffText] =
      .ok (staffDocuments batch) := by
  have hload : JsonContractSource.fromJsonStrs staffSerde [staffText] =
      .ok ⟨.ofList (contractsOf staffSerde [staffText])⟩ :=
    JsonContractSource.fromJsonStrs_ok_iff.mpr ⟨by simp [entryOf_staff], rfl⟩
  rw [GriotEngine.fromJsonContracts, hload]
  rfl

theorem staffFiles_consistent (batch : RecordBatch) : (staffFiles batch).Consistent := by
  intro path file reader b hopen hbuild hb
  simp only [staffFiles] at hopen
  split at hopen
  · obtain rfl := Except.ok.inj (Except.ok.inj hopen)
    obtain rfl := Except.ok.inj hbuild
    rw [Except.ok.inj (List.mem_singleton.mp hb)]
  · cases hopen

theorem staffPolicies_read {name : String} {c : JsonContract} {p : ResolvedPolicy}
    (hc : Governs staffSerde [staffText] name c) (hp : c.resolve analyst = .ok p) :
    staffSerde.fromSlice (staffSerde.toVec p.toBundleValue) = some p.toBundleValue := by
  obtain ⟨-, rfl⟩ := eq_staffContract hc
  obtain rfl := Except.ok.inj (staffContract_resolve.symm.trans hp)
  exact staffSerde_reads

theorem staffDocuments_transcript : ∃ view out,
    (staffDocuments employees).transcript documentSurroundings readAddresses "SELECT email FROM staff"
        analyst =
      [⟨.table schemaName "staff", .ok (some 0)⟩] ++ ⟨.scan 0 (some [0]) none, some (.ok view)⟩ :: [] ∧
    collect view.stream = .ok out := by
  obtain ⟨plan, out, hplan, hout⟩ := employees_scan (p := employeePolicy) rfl (by decide)
    employees_enforceable staffSerde_reads
  obtain ⟨hsource, hbinding⟩ := @ofSource_governed documentSurroundings (fun _ => staffFiles employees)
    _ _ _ governs_staff 0 analyst
  exact ⟨_, out, @readAddresses_transcript documentSurroundings (staffDocuments employees) analyst _ _ _
    (hsource.trans staffContract_resolve) rfl (hbinding.trans rfl) hplan "SELECT email FROM staff", hout⟩

/-- The first column of the one who is active, masked; as the document says. -/
theorem documents_governed_staff : ∃ view out,
    (staffDocuments employees).transcript documentSurroundings readAddresses "SELECT email FROM staff"
        analyst =
      [⟨.table schemaName "staff", .ok (some 0)⟩] ++ ⟨.scan 0 (some [0]) none, some (.ok view)⟩ :: [] ∧
    collect view.stream = .ok out ∧ ∃ name c call schema batches draws,
      ⟨.table schemaName name, .ok (some 0)⟩ ∈
        ([⟨.table schemaName "staff", .ok (some 0)⟩] : List (Exchange Answer)) ∧
      Governs staffSerde [staffText] name c ∧ c.allows analyst ∧
      loadParquetAsProvider ((fun _ => staffFiles employees) (call : Nat)) c.binding.parquet =
        .ok (.memory schema batches) ∧
      Shown columnEngine c analyst draws ⟨some [0], none⟩ schema batches
        (RecordBatch.batching.allRows out) := by
  obtain ⟨view, out, htranscript, hout⟩ := staffDocuments_transcript
  exact ⟨view, out, htranscript, hout, @documents_governed documentSurroundings _ _ _ _
    (staffDocuments_loads employees) (fun name c p hc hp _ => staffPolicies_read hc hp)
    (fun _ => staffFiles_consistent employees) _ _ _ _ _ ⟨some [0], none⟩ _ htranscript _ hout⟩

/-- The name is bound, for a purpose that is allowed. -/
theorem documents_answer_staff : ∃ call : Nat, Named staffSerde [staffText]
    ((fun _ => staffFiles employees) call) analyst "staff" (.ok (some 0)) := by
  obtain ⟨view, out, htranscript, -⟩ := staffDocuments_transcript
  have hmem : ⟨.table schemaName "staff", .ok (some 0)⟩ ∈ (staffDocuments employees).transcript
      documentSurroundings readAddresses "SELECT email FROM staff" analyst := by
    rw [htranscript]
    exact List.mem_cons_self ..
  exact @documents_answer documentSurroundings _ _ _ _ _ (staffDocuments_loads employees) _ _ _ hmem

/-- A file of others is shown alike. -/
theorem documents_hide_staff :
    (staffDocuments employees).query documentSurroundings readAddresses "SELECT email FROM staff"
        analyst =
      (staffDocuments otherStaff).query documentSurroundings readAddresses "SELECT email FROM staff"
        analyst ∧
    (staffDocuments employees).transcript documentSurroundings readAddresses "SELECT email FROM staff"
        analyst =
      (staffDocuments otherStaff).transcript documentSurroundings readAddresses
        "SELECT email FROM staff" analyst := by
  refine @documents_hide documentSurroundings _ _ _ _ _ _ _ columnEngine_typeOnly
    (staffDocuments_loads employees) (staffDocuments_loads otherStaff)
    (fun name c p hc hp _ => staffPolicies_read hc hp) readAddresses "SELECT email FROM staff"
    fun name hname => ?_
  by_cases hstaff : name = "staff"
  · subst hstaff
    refine .governed governs_staff governs_staff rfl fun p hp hallow call => ?_
    obtain rfl := Except.ok.inj (staffContract_resolve.symm.trans hp)
    exact .table staffs_alike
  · have hnone : ∀ c, ¬ Governs staffSerde [staffText] name c := fun c hc =>
      hstaff (eq_staffContract hc).1
    exact .unknown hnone hnone

end Griot
