import Griot.Engine.Governance
import Griot.Governed.Alike

/-! What a query can tell.

Two engines are alike to their callers on some names if they resolve them alike and, where a
name is let in, bind it to tables that look alike under its policy (`EnginesAlike`). No
statement tells engines apart that are alike on the names it asks for (`query_hides`): its
result, its errors and all it exchanges on the way are the same. Nothing that a policy hides
reaches the result, by no path, and neither does anything of a dataset that the caller is
denied, or that the statement does not name. -/
namespace Griot

open Lib Physical

/-- The same error, or tables that look alike. -/
inductive BindingsAlike (engine : Engine) (p : ResolvedPolicy) :
    Except BindingError TableProvider → Except BindingError TableProvider → Prop
  | error (e : BindingError) : BindingsAlike engine p (.error e) (.error e)
  | table {inner inner' : TableProvider} (h : TablesAlike engine p inner inner') :
      BindingsAlike engine p (.ok inner) (.ok inner')

/-- The names a query asked for. -/
def asked (transcript : List (Exchange Answer)) : Set String :=
  {name | ∃ answer, ⟨.table schemaName name, answer⟩ ∈ transcript}

/-- What is bound to a name that is not let in does not matter. -/
structure EnginesAlike (around : Surroundings) (griot griot' : GriotEngine) (caller caller' : Caller)
    (names : Set String) : Prop where
  source : ∀ name ∈ names, ∀ call, griot.source call name caller = griot'.source call name caller'
  binding : ∀ name ∈ names, ∀ call p, griot.source call name caller = .ok p → p.decision = .allow →
    BindingsAlike around.engine p (griot.binding call name) (griot'.binding call name)
  serde : ∀ name ∈ names, ∀ call p, griot.source call name caller = .ok p → p.decision = .allow →
    around.serde.fromSlice (around.serde.toVec p.toBundleValue) = some p.toBundleValue

/-- Two governed tables of one policy over raw tables that look alike. -/
inductive GovernedAlike (around : Surroundings) : ContractTableProvider → ContractTableProvider → Prop
  | mk {p : ResolvedPolicy} {inner inner' : TableProvider}
      (hserde : around.serde.fromSlice (around.serde.toVec p.toBundleValue) = some p.toBundleValue)
      (h : TablesAlike around.engine p inner inner') :
      GovernedAlike around (.new around.serde inner p) (.new around.serde inner' p)

structure SessionsAlike (around : Surroundings) (s s' : Session) : Prop where
  calls : s.calls = s'.calls
  tables : List.Forall₂ (GovernedAlike around) s.tables s'.tables

section
variable {around : Surroundings} {griot griot' : GriotEngine} {caller caller' : Caller}
  {names : Set String} {s s' : Session}

/-- **Naming a dataset** is answered alike. -/
theorem replyTable_alike (halike : EnginesAlike around griot griot' caller caller' names)
    (h : SessionsAlike around s s') (schema name : String) (hname : schema = schemaName → name ∈ names) :
    (replyTable around (griot.catalog caller) schema name s).1 =
        (replyTable around (griot'.catalog caller') schema name s').1 ∧
      SessionsAlike around (replyTable around (griot.catalog caller) schema name s).2
        (replyTable around (griot'.catalog caller') schema name s').2 := by
  obtain ⟨calls, tables⟩ := s
  obtain ⟨calls', tables'⟩ := s'
  obtain ⟨hcalls, htables⟩ := h
  obtain rfl : calls = calls' := hcalls
  by_cases hschema : schema = schemaName
  · subst hschema
    have hprovider : (griot.catalog caller).schema schemaName =
      some ⟨griot.source, griot.binding, caller⟩ := rfl
    have hprovider' : (griot'.catalog caller').schema schemaName =
      some ⟨griot'.source, griot'.binding, caller'⟩ := rfl
    have hmem := hname rfl
    simp only [replyTable, hprovider, hprovider', GriotSchemaProvider.table, ← halike.source name hmem]
    cases hsource : griot.source calls name caller with
    | error e => exact ⟨rfl, rfl, htables⟩
    | ok p =>
      cases hdecision : p.decision with
      | deny reason =>
        simp only [Except.mapError, bind, Except.bind, hdecision]
        exact ⟨rfl, rfl, htables⟩
      | allow =>
        have hbinding := halike.binding name hmem calls p hsource hdecision
        have hserde := halike.serde name hmem calls p hsource hdecision
        simp only [Except.mapError, bind, Except.bind, hdecision]
        generalize griot.binding calls name = bound at hbinding
        generalize griot'.binding calls name = bound' at hbinding
        cases hbinding with
        | error e => exact ⟨rfl, rfl, htables⟩
        | table hinner =>
          refine ⟨congrArg (fun n => Except.ok (some n)) htables.length_eq, rfl, ?_⟩
          exact List.rel_append htables (.cons (.mk hserde hinner) .nil)
  · have hnone : (griot.catalog caller).schema schema = none := if_neg hschema
    have hnone' : (griot'.catalog caller').schema schema = none := if_neg hschema
    simp only [replyTable, hnone, hnone']
    exact ⟨trivial, rfl, htables⟩

/-- Tables of one number. -/
theorem SessionsAlike.get (h : SessionsAlike around s s') (i : Nat) :
    (s.tables[i]? = none ∧ s'.tables[i]? = none) ∨ ∃ table table',
      s.tables[i]? = some table ∧ s'.tables[i]? = some table' ∧ GovernedAlike around table table' := by
  by_cases hi : i < s.tables.length
  · have hi' : i < s'.tables.length := h.tables.length_eq ▸ hi
    exact .inr ⟨_, _, List.getElem?_eq_getElem hi, List.getElem?_eq_getElem hi',
      h.tables.get hi hi'⟩
  · have hi' : ¬ i < s'.tables.length := h.tables.length_eq ▸ hi
    exact .inl ⟨List.getElem?_eq_none (by omega), List.getElem?_eq_none (by omega)⟩

/-- **A scan** is answered alike. -/
theorem replyScan_alike (htypes : TypeOnly around.engine) (h : SessionsAlike around s s') (i : Nat)
    (projection : Option (List Nat)) (limit : Option Nat) :
    (replyScan around i projection limit s).1 = (replyScan around i projection limit s').1 ∧
      SessionsAlike around (replyScan around i projection limit s).2
        (replyScan around i projection limit s').2 := by
  obtain ⟨hnone, hnone'⟩ | ⟨table, table', htable, htable', halike⟩ := h.get i
  · simp only [replyScan, hnone, hnone']
    exact ⟨trivial, h⟩
  · simp only [replyScan, htable, htable']
    obtain ⟨hserde, hinner⟩ := halike
    refine ⟨?_, congrArg (· + 1) h.calls, h.tables⟩
    rw [h.calls, scan_alike htypes hserde hinner ⟨projection, limit⟩]

theorem catalog_alike (name : String) :
    ((griot.catalog caller).schema name = none ∧ (griot'.catalog caller').schema name = none) ∨
      ∃ provider provider', (griot.catalog caller).schema name = some provider ∧
        (griot'.catalog caller').schema name = some provider' := by
  by_cases hname : name = schemaName
  · exact .inr ⟨_, _, if_pos hname, if_pos hname⟩
  · exact .inl ⟨if_neg hname, if_neg hname⟩

/-- **Every question** is answered alike. -/
theorem reply_alike (htypes : TypeOnly around.engine)
    (halike : EnginesAlike around griot griot' caller caller' names) (q : Question)
    (hasked : ∀ name, q = .table schemaName name → name ∈ names) (h : SessionsAlike around s s') :
    (reply around (griot.catalog caller) q s).1 = (reply around (griot'.catalog caller') q s').1 ∧
      SessionsAlike around (reply around (griot.catalog caller) q s).2
        (reply around (griot'.catalog caller') q s').2 := by
  cases q with
  | table schema name =>
    exact replyTable_alike halike h schema name fun hschema => hasked name (by rw [hschema])
  | scan i projection limit => exact replyScan_alike htypes h i projection limit
  | tableSchema i =>
    refine ⟨?_, h⟩
    show (s.tables[i]?).map ContractTableProvider.governedSchema =
      (s'.tables[i]?).map ContractTableProvider.governedSchema
    obtain ⟨hnone, hnone'⟩ | ⟨table, table', htable, htable', hgoverned⟩ := h.get i
    · rw [hnone, hnone']
    · rw [htable, htable']
      obtain ⟨hserde, hinner⟩ := hgoverned
      exact congrArg some (governedSchema_alike hinner)
  | schemaNames => exact ⟨rfl, h⟩
  | hasSchema name | tableNames name | tableExist name =>
    refine ⟨?_, h⟩
    obtain ⟨hnone, hnone'⟩ | ⟨provider, provider', hsome, hsome'⟩ :=
      @catalog_alike griot griot' caller caller' name
    · simp only [reply, hnone, hnone']
      rfl
    · simp only [reply, hsome, hsome']
      rfl

/-- **No program** tells the sessions of engines apart that are alike on the names it asks for. -/
theorem session_alike (htypes : TypeOnly around.engine) {ρ : Type} (program : Dialogue Answer ρ)
    (halike : EnginesAlike around griot griot' caller caller'
      (asked ((session around (griot.catalog caller)).transcript program .start))) :
    (session around (griot.catalog caller)).run program .start =
        (session around (griot'.catalog caller')).run program .start ∧
      (session around (griot.catalog caller)).transcript program .start =
        (session around (griot'.catalog caller')).transcript program .start := by
  let names := asked ((session around (griot.catalog caller)).transcript program .start)
  have hstart : SessionsAlike around Session.start Session.start := ⟨rfl, .nil⟩
  have hstep : ∀ q s s', (∀ name, q = .table schemaName name → name ∈ names) →
      SessionsAlike around s s' →
      ((session around (griot.catalog caller)).reply q s).1 =
        ((session around (griot'.catalog caller')).reply q s').1 ∧
      SessionsAlike around ((session around (griot.catalog caller)).reply q s).2
        ((session around (griot'.catalog caller')).reply q s').2 :=
    fun q s s' hasked hs => reply_alike htypes halike q hasked hs
  refine Server.run_unwinds hstep program hstart fun e he name hquestion => ?_
  obtain ⟨question, answer⟩ := e
  obtain rfl : question = .table schemaName name := hquestion
  exact ⟨answer, he⟩

/-- **What a policy hides stays hidden**: engines that are alike on the names a statement asks for
give it the same result, the same error, or the same rejection, by the same exchanges. -/
theorem query_hides (htypes : TypeOnly around.engine) (sql : SessionContext) (statement : String)
    (halike : EnginesAlike around griot griot' caller caller'
      (asked (griot.transcript around sql statement caller))) :
    griot.query around sql statement caller = griot'.query around sql statement caller' ∧
      griot.transcript around sql statement caller =
        griot'.transcript around sql statement caller' := by
  obtain ⟨hrun, htranscript⟩ := session_alike htypes (sql statement) halike
  refine ⟨?_, htranscript⟩
  rw [GriotEngine.query, GriotEngine.query, hrun]

end

/-! ### Two staffs -/

/-- Others, of whom one is active: as old as the active one before, with an address that ends
alike. -/
def otherStaff : RecordBatch :=
  ⟨employeeSchema,
    [⟨.utf8, [.utf8 "eve@evil.example", .utf8 "dan@other.example"], by decide⟩,
      ⟨.boolean, [.boolean false, .boolean true], by decide⟩,
      ⟨.int64, [.int64 29, .int64 41], by decide⟩], 2, by decide⟩

theorem staff_lookAlike :
    LookAlike columnEngine employeePolicy employeeSchema employees.rows otherStaff.rows := by
  have hrows : List.Forall₂ (RowsAgree columnEngine employeePolicy employeeSchema)
      [[.utf8 "ana@acme.example", .boolean true, .int64 41]]
      [[.utf8 "dan@other.example", .boolean true, .int64 41]] := employees_lookAlike
  exact hrows

theorem staffs_alike : TablesAlike columnEngine employeePolicy
    (.memory employeeSchema [employees]) (.memory employeeSchema [otherStaff]) :=
  tablesAlike_memory (.cons ⟨rfl, rfl, staff_lookAlike⟩ .nil)

theorem staffEngines_alike (names : Set String) : EnginesAlike staffSurroundings
    (staffEngine employees) (staffEngine otherStaff) analyst analyst names := by
  refine ⟨fun name hname call => rfl, fun name hname call p hp hallow => ?_,
    fun name hname call p hp hallow => (staff_policies hp).1⟩
  simp only [staffEngine] at hp ⊢
  split at hp
  · rename_i hstaff
    obtain rfl := Except.ok.inj hp
    rw [if_pos hstaff, if_pos hstaff]
    exact .table staffs_alike
  · cases hp

/-- No statement tells the two staffs apart. -/
theorem query_hides_staff :
    (staffEngine employees).query staffSurroundings readAddresses "SELECT email FROM staff" analyst =
        (staffEngine otherStaff).query staffSurroundings readAddresses "SELECT email FROM staff"
          analyst ∧
      (staffEngine employees).transcript staffSurroundings readAddresses "SELECT email FROM staff"
          analyst =
        (staffEngine otherStaff).transcript staffSurroundings readAddresses "SELECT email FROM staff"
          analyst :=
  query_hides columnEngine_typeOnly readAddresses "SELECT email FROM staff" (staffEngines_alike _)

end Griot
