import Griot.Governed.Types

/-! Governed scans.

Whatever a scan of the governed table yields without error is what the policy
means, however the raw rows are cut into batches (`scan_governed`). -/
namespace Griot

open Lib Physical
open Logical (MaskPolicy)

section Scans
variable (engine : Engine) (draws : Nat → Nat → Nat → LaplaceNoiseExec.Draw) (serde : SerdeJson)
  (p : ResolvedPolicy) (schema : Schema) (sel : Selection)

/-- Scan the governed table of some batches and drain the plan. -/
def runScan (batches : List RecordBatch) : Except DataFusionError (List Row) := do
  let plan ← (ContractTableProvider.new serde (.memory schema batches) p).scan serde sel.projection
    sel.limit
  let out ← collect (plan.execute engine draws)
  return RecordBatch.batching.allRows out

/-- The columns asked for are there. -/
def Selection.InRange (sel : Selection) (schema : Schema) : Prop :=
  ∀ indices, sel.projection = some indices → ∀ i ∈ indices, i < schema.length

/-- The stream of a plan under the limit of a query. -/
def Selection.limited (sel : Selection) (s : BatchStream DataFusionError RecordBatch) :
    BatchStream DataFusionError RecordBatch :=
  sel.limit.elim s (limitStream RecordBatch.batching · s)

/-- The enforcement operators on some batches. -/
def stack (policies : Dict String MaskPolicy) (batches : List RecordBatch) : ExecutionPlan :=
  .masking ⟨p.toBundleHandle serde, policies, MaskingExec.maskedOutputSchema schema policies⟩
    (.rowFilter ⟨p.toBundleHandle serde, p.rowFilter⟩
      (.contractApproved (p.toBundleHandle serde) (.dataSource schema (batches.map .ok))))

variable {engine draws serde p schema sel}

variable (schema) in
/-- Without noise the enforcement operators are these, unless the contract has no id. -/
theorem govern_eq (hdp : p.hasDp = false) {policies : Dict String MaskPolicy}
    (hmasks : MaskingExec.parseMaskingBundle serde (p.toBundleHandle serde) = .ok policies)
    (hfilter : RowFilterExec.parseRowFilter serde (p.toBundleHandle serde) = .ok p.rowFilter)
    (batches : List RecordBatch) :
    (ContractTableProvider.new serde (.memory schema batches) p).govern serde =
      if p.contractId = "" then .error (.physical (.contractNotApproved "ContractApprovedExec"))
      else .ok (stack serde p schema policies batches) := by
  have hid : (p.toBundleHandle serde).contractId = p.contractId := rfl
  rw [ContractTableProvider.govern]
  simp only [ContractTableProvider.new, TableProvider.memory, ExecutionPlan.newContractApproved,
    ExecutionPlan.newRowFilter, ExecutionPlan.newMasking, hid, hmasks, hfilter, hdp]
  split <;> rfl

theorem execute_stack (policies : Dict String MaskPolicy) (batches : List RecordBatch) :
    (stack serde p schema policies batches).execute engine draws = batches.map
      (enforceBatch engine p schema (p.toBundleHandle serde) policies) := by
  simp only [stack, ExecutionPlan.execute, andThen_map]
  rfl

variable (engine draws schema sel) in
/-- **The whole stack**: a contract with an id and columns in range have a plan whatever the
batches are, nothing else has one, and each batch goes through the plan on its own. -/
theorem scan_cases (hdp : p.hasDp = false)
    (hserde : serde.fromSlice (serde.toVec p.toBundleValue) = some p.toBundleValue) :
    (¬(p.contractId ≠ "" ∧ sel.InRange schema) ∧ ∃ e, ∀ batches,
      (ContractTableProvider.new serde (.memory schema batches) p).scan serde sel.projection
        sel.limit = .error e) ∨
    (p.contractId ≠ "" ∧ sel.InRange schema) ∧ ∃ policies, Applies p policies ∧ ∀ batches, ∃ plan,
      (ContractTableProvider.new serde (.memory schema batches) p).scan serde sel.projection
        sel.limit = .ok plan ∧
      plan.execute engine draws = sel.limited (batches.map
        (governBatch engine p schema (p.toBundleHandle serde) policies sel.projection)) := by
  obtain ⟨policies, hmasks, happlies⟩ := ResolvedPolicy.parseMaskingBundle_eq hserde
  have hfilter := ResolvedPolicy.parseRowFilter_eq hserde
  have hgovern := govern_eq schema hdp hmasks hfilter
  simp only [ContractTableProvider.scan, hgovern]
  by_cases hid : p.contractId = ""
  · exact .inl ⟨fun h => h.1 hid, _, fun batches => by rw [if_pos hid]; rfl⟩
  simp only [if_neg hid]
  obtain ⟨projection, limit⟩ := sel
  cases projection with
  | none =>
    refine .inr ⟨⟨hid, by simp [Selection.InRange]⟩, policies, happlies, fun batches =>
      ⟨_, rfl, ?_⟩⟩
    have hbatch : governBatch engine p schema (p.toBundleHandle serde) policies none =
        enforceBatch engine p schema (p.toBundleHandle serde) policies := by
      funext batch
      cases h : enforceBatch engine p schema (p.toBundleHandle serde) policies batch <;>
        simp [governBatch, h, bind, Except.bind]
    rw [hbatch, ← execute_stack]
    cases limit <;> rfl
  | some indices =>
    have hlength : (stack serde p schema policies []).schema.length = schema.length :=
      List.length_map ..
    by_cases hrange : ∀ i ∈ indices, i < (stack serde p schema policies []).schema.length
    · have hproject : ∀ batches, ContractTableProvider.applyProjection
          (stack serde p schema policies batches) indices =
            .ok (.projection indices (stack serde p schema policies batches)) :=
        fun batches => if_pos hrange
      have hin : Selection.InRange ⟨some indices, limit⟩ schema := by
        rintro _ ⟨⟩
        exact hlength ▸ hrange
      refine .inr ⟨⟨hid, hin⟩, policies, happlies, fun batches => ⟨limit.elim
        (.projection indices (stack serde p schema policies batches))
        (.globalLimit · (.projection indices (stack serde p schema policies batches))), ?_, ?_⟩⟩
      · show ContractTableProvider.narrow (some indices) limit _ = _
        simp only [ContractTableProvider.narrow, hproject]
        cases limit <;> rfl
      · have hexecute : (ExecutionPlan.projection indices
            (stack serde p schema policies batches)).execute engine draws = batches.map
              (governBatch engine p schema (p.toBundleHandle serde) policies (some indices)) := by
          rw [ExecutionPlan.execute, execute_stack, andThen_map]
          rfl
        rw [← hexecute]
        cases limit <;> rfl
    · have hproject : ∀ batches, ContractTableProvider.applyProjection
          (stack serde p schema policies batches) indices =
            .error (.internal "index out of bounds") := fun batches => if_neg hrange
      refine .inl ⟨fun h => hrange (hlength ▸ h.2 indices rfl), .internal "index out of bounds",
        fun batches => ?_⟩
      show ContractTableProvider.narrow (some indices) limit _ = _
      simp only [ContractTableProvider.narrow, hproject]
      rfl

theorem governedRows_eq (rows : List Row) : governedRows engine p schema sel rows =
    sel.first (rows.filterMap fun row => (Option.guard (keeps engine p schema) row >>= fun row =>
      some (maskedRow engine p schema row)) >>= fun row =>
        some (sel.projection.elim row (select · row))) := by
  rw [governedRows]
  congr 1
  rw [List.map_map, ← List.filterMap_eq_filter, List.map_filterMap]
  apply List.filterMap_congr
  intro row _
  cases Option.guard (keeps engine p schema) row <;> rfl

theorem runScan_eq (hdp : p.hasDp = false)
    (hserde : serde.fromSlice (serde.toVec p.toBundleValue) = some p.toBundleValue)
    {batches : List RecordBatch} (hbatches : ∀ batch ∈ batches, batch.schema = schema)
    {rows : List Row} (hrun : runScan engine draws serde p schema sel batches = .ok rows) :
    rows = governedRows engine p schema sel (RecordBatch.batching.allRows batches) := by
  obtain ⟨plan, hplan, hrun⟩ := bind_eq_ok.mp hrun
  obtain ⟨out, hout, hrun⟩ := bind_eq_ok.mp hrun
  obtain rfl := Except.ok.inj hrun
  rcases scan_cases engine draws schema sel hdp hserde
    with ⟨-, e, herror⟩ | ⟨-, policies, happlies, hok⟩
  · exact absurd (hplan.symm.trans (herror batches)) (by simp)
  obtain ⟨plan', hplan', hexecute⟩ := hok batches
  obtain rfl : plan = plan' := Except.ok.inj (hplan.symm.trans hplan')
  rw [hexecute] at hout
  rw [governedRows_eq, Selection.first]
  cases hlimit : sel.limit with
  | none =>
    rw [Selection.limited, hlimit] at hout
    exact collect_rows (governBatch_rowWise happlies sel.projection) batches hbatches hout
  | some n =>
    rw [Selection.limited, hlimit] at hout
    exact limit_rows (governBatch_rowWise happlies sel.projection) batches hbatches n hout

variable (draws schema sel) in
/-- **When a scan succeeds**: the contract has an id, the columns asked for are there, and the
policy can be enforced on the schema unless there is no batch to enforce it on. -/
theorem runScan_ok_iff (htypes : TypeOnly engine) (hdp : p.hasDp = false)
    (hserde : serde.fromSlice (serde.toVec p.toBundleValue) = some p.toBundleValue) :
    ∃ policies, Applies p policies ∧ ∀ batches, (∀ batch ∈ batches, batch.schema = schema) →
      ((∃ rows, runScan engine draws serde p schema sel batches = .ok rows) ↔
        (p.contractId ≠ "" ∧ sel.InRange schema) ∧
          (batches ≠ [] → Enforceable engine p schema policies)) := by
  rcases scan_cases engine draws schema sel hdp hserde
    with ⟨hno, e, herror⟩ | ⟨hplans, policies, happlies, hok⟩
  · obtain ⟨policies, -, happlies⟩ := ResolvedPolicy.parseMaskingBundle_eq hserde
    refine ⟨policies, happlies, fun batches _ => ⟨?_, fun h => absurd h.1 hno⟩⟩
    intro ⟨rows, hrun⟩
    obtain ⟨plan, hplan, -⟩ := bind_eq_ok.mp hrun
    exact absurd (hplan.symm.trans (herror batches)) (by simp)
  refine ⟨policies, happlies, fun batches hbatches => ?_⟩
  obtain ⟨plan, hplan, hexecute⟩ := hok batches
  have hbatch : ∀ batch ∈ batches, (∃ out, governBatch engine p schema (p.toBundleHandle serde)
      policies sel.projection batch = .ok out) ↔ Enforceable engine p schema policies :=
    fun batch hmem => governBatch_ok_iff htypes happlies sel.projection (hbatches batch hmem)
  have hdrains : (∃ out, collect (plan.execute engine draws) = .ok out) ↔
      (batches ≠ [] → Enforceable engine p schema policies) := by
    rw [hexecute, Selection.limited]
    cases sel.limit with
    | none => exact collect_ok_iff hbatch
    | some n => exact limit_ok_iff hbatch n
  rw [← hdrains]
  constructor
  · intro ⟨rows, hrun⟩
    obtain ⟨plan', hplan', hrun⟩ := bind_eq_ok.mp hrun
    obtain rfl : plan = plan' := Except.ok.inj (hplan.symm.trans hplan')
    obtain ⟨out, hout, -⟩ := bind_eq_ok.mp hrun
    exact ⟨hplans, out, hout⟩
  · intro ⟨_, out, hout⟩
    exact ⟨_, bind_eq_ok.mpr ⟨plan, hplan, bind_eq_ok.mpr ⟨out, hout, rfl⟩⟩⟩

/-- **A governed scan equals its meaning**: whatever a scan of raw batches yields without error
is, in order, the governed rows of the raw rows; so it does not depend on how these are cut
into batches. -/
theorem scan_governed (hdp : p.hasDp = false)
    (hserde : serde.fromSlice (serde.toVec p.toBundleValue) = some p.toBundleValue)
    {batches : List RecordBatch} (hbatches : ∀ batch ∈ batches, batch.schema = schema)
    {rows : List Row} (hrun : runScan engine draws serde p schema sel batches = .ok rows) :
    rows = governedRows engine p schema sel (RecordBatch.batching.allRows batches) ∧
      ∀ batches', (∀ batch ∈ batches', batch.schema = schema) →
        RecordBatch.batching.allRows batches' = RecordBatch.batching.allRows batches →
        ∀ rows', runScan engine draws serde p schema sel batches' = .ok rows' → rows' = rows := by
  have hrows := runScan_eq hdp hserde hbatches hrun
  refine ⟨hrows, fun batches' hbatches' hsame rows' hrun' => ?_⟩
  rw [hrows, runScan_eq hdp hserde hbatches' hrun', hsame]

end Scans

/-! ### A table of employees -/

/-- An engine that plans columns and truth values, and casts what prints as itself. -/
def columnEngine : Engine where
  sql := ⟨fun text =>
    if text = "SELECT 1 WHERE active" then .ok [.query (.select (some (.identifier "active" none)))]
    else if text = "SELECT 1 WHERE false" then
      .ok [.query (.select (some (.value (.boolean false))))]
    else .error "sql parser error", fun name => ⟨none, name⟩, fun _ => ""⟩
  dfSchema := fun _ => .ok ()
  createPhysicalExpr := fun expr schema =>
    match expr with
    | .column c =>
      match schema.zipIdx.find? fun e => e.1.name = c.name with
      | some (field, i) => .ok ⟨field.dataType, fun row => row.getD i .null, fun _ => none⟩
      | none => .error "no such column"
    | .literal (.boolean b) => .ok ⟨.boolean, fun _ => .boolean b, fun _ => none⟩
    | _ => .error "unsupported expression"
  castFails := fun dataType _ =>
    match dataType with
    | .boolean | .int64 | .utf8 | .largeUtf8 => none
    | other => some ("unsupported cast from " ++ other.debug)
  render := fun _ v =>
    match v with
    | .boolean b => some (if b then "true" else "false")
    | .int64 i => some (toString i.toInt)
    | .utf8 s => some s
    | _ => none
  sha256Hex := fun _ => ""
  rounding := .nearest

theorem columnEngine_typeOnly : TypeOnly columnEngine where
  predicate := by
    intro expr schema pe h rows rows'
    simp only [columnEngine] at h
    split at h
    · split at h
      · obtain rfl := Except.ok.inj h
        rfl
      · exact absurd h (by simp)
    · obtain rfl := Except.ok.inj h
      rfl
    · exact absurd h (by simp)
  cast := fun _ _ _ => rfl
  render := by
    intro dataType v htyped hnull hcast
    cases v with
    | null => exact absurd rfl hnull
    | boolean | int64 | utf8 => rfl
    | float64 =>
      cases dataType with
      | float64 => cases hcast
      | _ => cases htyped
    | other =>
      cases dataType with
      | other => cases hcast
      | _ => cases htyped

def employeeSchema : Schema :=
  [⟨"email", .utf8, true⟩, ⟨"active", .boolean, true⟩, ⟨"age", .int64, true⟩]

/-- Three employees: active, unknown, inactive. -/
def employees : RecordBatch :=
  ⟨employeeSchema,
    [⟨.utf8, [.utf8 "ana@acme.example", .utf8 "bob@acme.example", .null], by decide⟩,
      ⟨.boolean, [.boolean true, .null, .boolean false], by decide⟩,
      ⟨.int64, [.int64 41, .int64 30, .int64 52], by decide⟩], 3, by decide⟩

/-- The last four characters of the addresses of those who are active. -/
def employeePolicy : ResolvedPolicy :=
  ⟨"employees_v1", "1.0.0", "acme", .allow, .ofList [("email", .partialMask)], some "active", .empty⟩

def employeeText : String :=
  "\x7b\"column_masking\":\x7b\"email\":\"partial\"\x7d,\"contract_id\":\"employees_v1\"," ++
  "\"contract_version\":\"1.0.0\",\"dp_columns\":\x7b\x7d,\"row_filter\":\"active\"\x7d"

theorem employeeText_ne : employeeText ≠ "" := by decide +kernel

def employeeSerde : SerdeJson := .just employeeText employeePolicy.toBundleValue employeeText_ne

theorem employeeSerde_reads :
    employeeSerde.fromSlice (employeeSerde.toVec employeePolicy.toBundleValue) =
      some employeePolicy.toBundleValue :=
  SerdeJson.just_roundTrip employeeText employeePolicy.toBundleValue employeeText_ne

theorem employees_enforceable (policies : Dict String MaskPolicy) :
    Enforceable columnEngine employeePolicy employeeSchema policies where
  filter := .inr ⟨_, rfl, rfl, rfl⟩
  masks := fun _ => ⟨by decide, fun field hfield => by
    simp only [employeeSchema, List.mem_cons, List.not_mem_nil, or_false] at hfield
    rcases hfield with rfl | rfl | rfl
    · exact .inr (.inl (.inl rfl))
    · exact .inl rfl
    · exact .inl rfl⟩

/-- The address of the one who is active, masked. -/
theorem scan_governed_employees :
    runScan columnEngine (fun _ _ _ => (.fin 0, .fin 0)) employeeSerde employeePolicy employeeSchema
      ⟨some [0], some 5⟩ [employees] = .ok [[.utf8 "***mple"]] := by
  have hbatches : ∀ batch ∈ [employees], batch.schema = employeeSchema := by simp [employees]
  obtain ⟨policies, -, hok⟩ := runScan_ok_iff (fun _ _ _ => (.fin 0, .fin 0)) employeeSchema
    ⟨some [0], some 5⟩ columnEngine_typeOnly (by decide : employeePolicy.hasDp = false)
    employeeSerde_reads
  have hin : Selection.InRange ⟨some [0], some 5⟩ employeeSchema := by
    rintro _ ⟨⟩
    decide
  obtain ⟨rows, hrun⟩ := (hok [employees] hbatches).mpr
    ⟨⟨by decide, hin⟩, fun _ => employees_enforceable policies⟩
  rw [hrun, (scan_governed (by decide) employeeSerde_reads hbatches hrun).1]
  rfl

end Griot
