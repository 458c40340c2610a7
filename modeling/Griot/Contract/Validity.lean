import Griot.Contract.LoadOrder
import Griot.Governed.Scan

/-! Contracts that cannot be enforced.

Loading a contract looks at its structure only. An unknown mask token is found when somebody asks
who is neither turned away nor the owner, an empty contract id and a parameter for noise when the
table is scanned, and a filter that cannot be read with the first batch. So what loads is enforced
for everyone exactly if the contracts that were loaded have none of these
(`enforceable_iff`). -/
namespace Griot

open Lib Platform Physical
open Logical (MaskPolicy)

/-! ### Errors of the text -/

/-- The error says that something is wrong with the text of the contract. -/
def PhysicalError.Textual : PhysicalError → Prop
  | .contractNotApproved _ | .contractBundleMalformed _ | .unknownMaskPolicy _ _
  | .invalidDpParameters _ _ _ => True
  | _ => False

def DataFusionError.Textual : DataFusionError → Prop
  | .physical e | .operator _ e => e.Textual
  | _ => False

/-- No scan fails for the text of the contract, whatever table it is of. -/
def ResolvedPolicy.NeverFailsByText (engine : Engine) (serde : SerdeJson) (p : ResolvedPolicy) : Prop :=
  ∀ draws schema sel batches e, runScan engine draws serde p schema sel batches = .error e →
    ¬ e.Textual

/-- What the documentation of a contract asks of it. -/
structure JsonContract.Enforceable (engine : Engine) (c : JsonContract) : Prop where
  identified : c.contractId ≠ ""
  masks : ∀ col ∈ c.columns, ∀ mask, col.mask = some mask → ∃ action, MaskAction.parse mask = .ok action
  filter : ∀ text, c.rowFilter = some text → text ≠ "" →
    ∃ expr, RowFilterExec.parseFilterExprToDf engine text = .ok expr
  noise : ∀ column d, c.dpColumns.lookup column = some d →
    d.epsilon.le (.fin 0) = false ∧ d.sensitivity.le (.fin 0) = false

/-! ### Masks -/

namespace JsonContract

theorem insertMask_ok_iff {columnMasks : Dict String MaskAction} {col : JsonColumn} :
    (∃ columnMasks', insertMask columnMasks col = .ok columnMasks') ↔
      ∀ mask, col.mask = some mask → ∃ action, MaskAction.parse mask = .ok action := by
  rw [insertMask]
  cases col.mask with
  | none => simp
  | some mask =>
    cases h : MaskAction.parse mask with
    | error e => simp [bind, Except.bind, h]
    | ok action => simp [bind, Except.bind, h, pure, Except.pure]

theorem foldlM_insertMask {columns : List JsonColumn} {columnMasks : Dict String MaskAction} :
    (∃ columnMasks', columns.foldlM insertMask columnMasks = .ok columnMasks') ↔
      ∀ col ∈ columns, ∀ mask, col.mask = some mask → ∃ action, MaskAction.parse mask = .ok action := by
  induction columns generalizing columnMasks with
  | nil => simp [pure, Except.pure]
  | cons col columns ih =>
    rw [List.foldlM_cons, List.forall_mem_cons, ← @insertMask_ok_iff columnMasks col]
    cases h : insertMask columnMasks col with
    | error e => simp [bind, Except.bind]
    | ok columnMasks' =>
      rw [← @ih columnMasks']
      simp [bind, Except.bind]

/-- A reader gets a policy exactly when every mask token is known. -/
theorem enforced_ok_iff {c : JsonContract} : (∃ e, c.enforced = .ok e) ↔
    ∀ col ∈ c.columns, ∀ mask, col.mask = some mask → ∃ action, MaskAction.parse mask = .ok action := by
  rw [← @foldlM_insertMask c.columns .empty, enforced, columnMasks]
  cases c.columns.foldlM insertMask .empty <;> simp [Except.map]

end JsonContract

/-! ### Parameters for noise -/

theorem DpParam.ofJson_doubles {doc : Json} {d : DpParam} (h : DpParam.ofJson doc = some d) :
    (d.epsilon.IsDouble ∧ d.sensitivity.IsDouble) ∧
      d.epsilon.isFinite = true ∧ d.sensitivity.isFinite = true := by
  simp only [DpParam.ofJson, required, Option.bind_eq_bind, Option.pure_def,
    Option.bind_eq_some_iff] at h
  obtain ⟨-, -, sensitivity, hsensitivity, epsilon, hepsilon, heq⟩ := h
  obtain rfl := Option.some.inj heq
  obtain ⟨v, hv⟩ := (Json.fieldOr_eq_some hsensitivity).resolve_left (by simp)
  obtain ⟨w, hw⟩ := (Json.fieldOr_eq_some hepsilon).resolve_left (by simp)
  have hs := Json.asF64_isDouble hv
  have he := Json.asF64_isDouble hw
  exact ⟨⟨he.1, hs.1⟩, he.2, hs.2⟩

/-- The parameters of a contract that was read are finite doubles. -/
theorem JsonContract.ofJson_doubles {doc : Json} {c : JsonContract} (h : JsonContract.ofJson doc = some c)
    {column : String} {d : DpParam} (hd : c.dpColumns.lookup column = some d) :
    (d.epsilon.IsDouble ∧ d.sensitivity.IsDouble) ∧
      d.epsilon.isFinite = true ∧ d.sensitivity.isFinite = true := by
  simp only [JsonContract.ofJson, Option.bind_eq_bind, Option.pure_def,
    Option.bind_eq_some_iff] at h
  obtain ⟨-, -, contractId, -, version, -, dataset, -, binding, -, ownerTenant, -, purposes, -,
    columns, -, rowFilter, -, dpColumns, hdp, heq⟩ := h
  obtain rfl := Option.some.inj heq
  obtain hempty | ⟨v, hv⟩ := Json.fieldOr_eq_some hdp
  · obtain rfl := Option.some.inj hempty
    cases hd
  · obtain ⟨w, hw⟩ := Json.of_asMap hv hd
    exact DpParam.ofJson_doubles hw

/-! ### Streams without such errors -/

/-- No item of the stream is an error of the text. -/
def TextFree (s : BatchStream DataFusionError RecordBatch) : Prop :=
  ∀ e, .error e ∈ s → ¬ e.Textual

section TextFree
variable {engine : Engine} {draws : Nat → Nat → Nat → LaplaceNoiseExec.Draw}
  {s : BatchStream DataFusionError RecordBatch}

theorem textFree_batches (batches : List RecordBatch) : TextFree (batches.map .ok) := by
  intro e he
  obtain ⟨batch, -, hbatch⟩ := List.mem_map.mp he
  cases hbatch

theorem TextFree.andThen (hs : TextFree s) {f : RecordBatch → Except DataFusionError RecordBatch}
    (hf : ∀ batch e, f batch = .error e → ¬ e.Textual) : TextFree (andThen s f) := by
  intro e he
  obtain ⟨item, hitem, heq⟩ := List.mem_map.mp he
  cases item with
  | error e' =>
    obtain rfl := Except.error.inj heq
    exact hs e' hitem
  | ok batch => exact hf batch e heq

theorem TextFree.limitStream (hs : TextFree s) (n : Nat) :
    TextFree (limitStream RecordBatch.batching n s) := by
  induction s generalizing n with
  | nil => exact hs
  | cons item s ih =>
    have htail : TextFree s := fun e he => hs e (List.mem_cons_of_mem _ he)
    intro e he
    cases item with
    | error e' =>
      obtain heq | he := List.mem_cons.mp he
      · obtain rfl := Except.error.inj heq
        exact hs e (List.mem_cons_self ..)
      · exact ih htail n e he
    | ok batch =>
      rw [Lib.limitStream] at he
      split_ifs at he
      · cases he
      · exact ih htail _ e ((List.mem_cons.mp he).resolve_left (by simp))
      · simp at he

theorem of_collect_error {e : DataFusionError} (h : collect s = .error e) : .error e ∈ s := by
  induction s with
  | nil => cases h
  | cons item s ih =>
    cases item with
    | error e' =>
      obtain rfl := Except.error.inj h
      exact List.mem_cons_self ..
    | ok batch =>
      rw [collect] at h
      cases hs : collect s with
      | error e' =>
        rw [hs] at h
        obtain rfl := Except.error.inj h
        exact List.mem_cons_of_mem _ (ih hs)
      | ok out =>
        rw [hs] at h
        cases h

/-! ### What the operators say of a batch -/

/-- A filter that can be read fails for other reasons only. -/
theorem rowFilter_textFree {op : RowFilterExec}
    (hfilter : ∀ text, op.rowFilterExpr = some text → text ≠ "" →
      ∃ expr, RowFilterExec.parseFilterExprToDf engine text = .ok expr)
    (batch : RecordBatch) (e : DataFusionError) (h : op.onBatch engine batch = .error e) :
    ¬ e.Textual := by
  rw [RowFilterExec.onBatch] at h
  cases htext : op.rowFilterExpr with
  | none =>
    rw [htext] at h
    cases h
  | some text =>
    simp only [htext] at h
    split_ifs at h with hempty
    obtain ⟨expr, hexpr⟩ := hfilter text htext hempty
    obtain ⟨e', he', rfl⟩ := mapError_error h
    obtain hcompile | ⟨predicate, -, hevaluate⟩ := bind_eq_error he'
    · rw [RowFilterExec.compileFilter, hexpr] at hcompile
      obtain hschema | ⟨-, -, hplan⟩ := bind_eq_error hcompile
      · obtain ⟨_, -, rfl⟩ := mapError_error hschema
        exact id
      · obtain ⟨_, -, rfl⟩ := mapError_error hplan
        exact id
    · rw [RowFilterExec.evaluate] at hevaluate
      split at hevaluate
      · obtain rfl := Except.error.inj hevaluate
        exact id
      · split at hevaluate
        · obtain rfl := Except.error.inj hevaluate
          exact id
        · cases hevaluate

theorem applyMask_textFree {col : ArrayRef} {name : String} {policy : MaskPolicy} {e : PhysicalError}
    (h : MaskingExec.applyMaskToColumn engine col name policy = .error e) : ¬ e.Textual := by
  rw [MaskingExec.applyMaskToColumn] at h
  split_ifs at h
  · rw [MaskingExec.maskViaUtf8Cast] at h
    split at h
    · obtain rfl := Except.error.inj h
      exact id
    · cases h
  · split at h
    · cases h
    · obtain rfl := Except.error.inj h
      exact id

theorem maskColumns_textFree {policies : Dict String MaskPolicy} {fields : List Field}
    {cols : List ArrayRef} {e : PhysicalError}
    (h : MaskingExec.maskColumns engine policies fields cols = .error e) : ¬ e.Textual := by
  induction fields generalizing cols with
  | nil => cases h
  | cons field fields ih =>
    cases cols with
    | nil => cases h
    | cons col cols =>
      rw [MaskingExec.maskColumns] at h
      obtain hfield | ⟨masked, -, hrest⟩ := bind_eq_error h
      · rw [MaskingExec.maskField] at hfield
        split at hfield
        · split_ifs at hfield
          exact applyMask_textFree hfield
        · cases hfield
      · obtain hrest | ⟨rest, -, hok⟩ := bind_eq_error hrest
        · exact ih hrest
        · cases hok

/-- A mask fails for the type of a column only. -/
theorem masking_textFree (op : MaskingExec) (batch : RecordBatch) (e : DataFusionError)
    (h : op.onBatch engine batch = .error e) : ¬ e.Textual := by
  rw [MaskingExec.onBatch] at h
  split_ifs at h
  obtain ⟨e', he', rfl⟩ := mapError_error h
  obtain hcolumns | ⟨columns, -, hnew⟩ := bind_eq_error he'
  · exact maskColumns_textFree hcolumns
  · obtain ⟨_, -, rfl⟩ := mapError_error hnew
    exact id

theorem noiseField_textFree {op : LaplaceNoiseExec} {r : F64.Rounding} {draws : Nat → LaplaceNoiseExec.Draw}
    {field : Field} {col : ArrayRef} {spending : LaplaceNoiseExec.Spending} {e : PhysicalError}
    (h : (op.noiseField r draws field col spending).1 = .error e) : ¬ e.Textual := by
  rw [LaplaceNoiseExec.noiseField] at h
  split at h
  · cases h
  · split at h
    · obtain rfl := Except.error.inj h
      exact id
    · split at h
      · rename_i e' happly
        obtain rfl := Except.error.inj h
        rw [LaplaceNoiseExec.applyLaplaceNoiseToColumn] at happly
        split at happly
        · cases happly
        · cases happly
        · obtain rfl := Except.error.inj happly
          exact id
      · cases h

theorem noiseFields_textFree {op : LaplaceNoiseExec} {r : F64.Rounding}
    {draws : Nat → Nat → LaplaceNoiseExec.Draw} {i : Nat} {fields : List (Field × ArrayRef)} {spending : LaplaceNoiseExec.Spending}
    {e : PhysicalError} (h : (op.noiseFields r draws i fields spending).1 = .error e) : ¬ e.Textual := by
  induction fields generalizing i spending with
  | nil => cases h
  | cons field fields ih =>
    have hfield : (op.noiseField r (draws i) field.1 field.2 spending).1 = .error e → ¬ e.Textual :=
      noiseField_textFree
    rw [LaplaceNoiseExec.noiseFields] at h
    generalize op.noiseField r (draws i) field.1 field.2 spending = outcome at h hfield
    obtain ⟨result, spending'⟩ := outcome
    cases result with
    | error e' =>
      obtain rfl := Except.error.inj h
      exact hfield rfl
    | ok noised =>
      have hrest : (op.noiseFields r draws (i + 1) fields spending').1 = .error e → ¬ e.Textual := ih
      simp only at h
      generalize op.noiseFields r draws (i + 1) fields spending' = outcome at h hrest
      obtain ⟨columns, spending''⟩ := outcome
      cases columns with
      | error e' =>
        obtain rfl := Except.error.inj h
        exact hrest rfl
      | ok columns => cases h

/-- Noise fails for the budget or for the type of a column only. -/
theorem TextFree.noiseStream (hs : TextFree s) (op : LaplaceNoiseExec) (r : F64.Rounding) (n : Nat)
    (spending : LaplaceNoiseExec.Spending) : TextFree (op.noiseStream r draws n spending s) := by
  induction s generalizing n spending with
  | nil => exact hs
  | cons item s ih =>
    have htail : TextFree s := fun e he => hs e (List.mem_cons_of_mem _ he)
    intro e he
    cases item with
    | error e' =>
      obtain heq | he := List.mem_cons.mp he
      · obtain rfl := Except.error.inj heq
        exact hs e (List.mem_cons_self ..)
      · exact ih htail _ _ e he
    | ok batch =>
      have hbatch : ∀ e', (op.applyDpToBatch r (draws n) batch spending).1 = .error e' → ¬ e'.Textual := by
        intro e' he'
        have hfields : (op.noiseFields r (draws n) 0 (batch.schema.zip batch.columns) spending).1 =
            .error e' → ¬ e'.Textual := noiseFields_textFree
        rw [LaplaceNoiseExec.applyDpToBatch] at he'
        generalize op.noiseFields r (draws n) 0 (batch.schema.zip batch.columns) spending = outcome
          at he' hfields
        obtain ⟨columns, spending'⟩ := outcome
        cases columns with
        | error e'' =>
          obtain rfl := Except.error.inj he'
          exact hfields rfl
        | ok columns =>
          obtain ⟨_, -, rfl⟩ := mapError_error he'
          exact id
      rw [LaplaceNoiseExec.noiseStream] at he
      generalize op.applyDpToBatch r (draws n) batch spending = outcome at he hbatch
      obtain ⟨noised, spending'⟩ := outcome
      obtain heq | he := List.mem_cons.mp he
      · obtain ⟨e', he', rfl⟩ := mapError_error heq.symm
        exact hbatch e' he'
      · exact ih htail _ _ e he

end TextFree

/-! ### The governed plan -/

section Plan
variable {engine : Engine} {draws : Nat → Nat → Nat → LaplaceNoiseExec.Draw} {serde : SerdeJson}
  {p : ResolvedPolicy} {schema : Schema}

/-- The parameters for noise are finite doubles and positive. -/
def ResolvedPolicy.NoiseValid (p : ResolvedPolicy) : Prop :=
  ∀ column d, p.dpColumns.lookup column = some d →
    d.epsilon.le (.fin 0) = false ∧ d.sensitivity.le (.fin 0) = false

theorem validateDpParams_ok_iff {column : String} {epsilon sensitivity : F64}
    (hfinite : epsilon.isFinite = true ∧ sensitivity.isFinite = true) :
    LaplaceNoiseExec.validateDpParams column epsilon sensitivity = .ok () ↔
      epsilon.le (.fin 0) = false ∧ sensitivity.le (.fin 0) = false := by
  rw [LaplaceNoiseExec.validateDpParams, hfinite.1, hfinite.2]
  cases epsilon.le (.fin 0) <;> cases sensitivity.le (.fin 0) <;> simp

theorem validateDpParams_textual {column : String} {epsilon sensitivity : F64} {e : PhysicalError}
    (h : LaplaceNoiseExec.validateDpParams column epsilon sensitivity = .error e) : e.Textual := by
  rw [LaplaceNoiseExec.validateDpParams] at h
  split_ifs at h <;> obtain rfl := Except.error.inj h <;> exact trivial

theorem validateColumns_textual {dpColumns : Dict String (F64 × F64)} {e : PhysicalError}
    (h : LaplaceNoiseExec.validateColumns dpColumns = .error e) : e.Textual := by
  rw [LaplaceNoiseExec.validateColumns] at h
  generalize dpColumns.entries = entries at h
  induction entries with
  | nil => cases h
  | cons entry entries ih =>
    rw [List.forM_cons] at h
    obtain hentry | ⟨-, -, hrest⟩ := bind_eq_error h
    · exact validateDpParams_textual hentry
    · exact ih hrest

/-- The check of the noise operator, on a policy whose parameters are finite. -/
theorem validateColumns_ok_iff {dpColumns : Dict String DpParam}
    (hfinite : ∀ column d, dpColumns.lookup column = some d →
      d.epsilon.isFinite = true ∧ d.sensitivity.isFinite = true) :
    LaplaceNoiseExec.validateColumns (dpColumns.map fun d => (d.epsilon, d.sensitivity)) = .ok () ↔
      ∀ column d, dpColumns.lookup column = some d →
        d.epsilon.le (.fin 0) = false ∧ d.sensitivity.le (.fin 0) = false := by
  rw [LaplaceNoiseExec.validateColumns_ok_iff]
  constructor
  · intro h column d hd
    have hcolumn := h column d.epsilon d.sensitivity (by rw [Dict.lookup_map, hd]; rfl)
    exact (validateDpParams_ok_iff (hfinite column d hd)).mp hcolumn
  · intro h column epsilon sensitivity hcolumn
    obtain ⟨d, hd, heq⟩ := Option.map_eq_some_iff.mp hcolumn
    obtain ⟨rfl, rfl⟩ := Prod.mk.inj heq
    exact (validateDpParams_ok_iff (hfinite column d hd)).mpr (h column d hd)

/-- With noise the enforcement operators are these. -/
theorem govern_noise (hdp : p.hasDp = true) (hid : p.contractId ≠ "") {policies : Dict String MaskPolicy}
    (hmasks : MaskingExec.parseMaskingBundle serde (p.toBundleHandle serde) = .ok policies)
    (hfilter : RowFilterExec.parseRowFilter serde (p.toBundleHandle serde) = .ok p.rowFilter)
    (batches : List RecordBatch) :
    (ContractTableProvider.new serde (.memory schema batches) p).govern serde =
      ((LaplaceNoiseExec.ofBundle serde (p.toBundleHandle serde) p.tenantId .new).mapError
        .physical).map fun op => .laplaceNoise op (stack serde p schema policies batches) := by
  have hid' : (p.toBundleHandle serde).contractId ≠ "" := hid
  rw [ContractTableProvider.govern]
  simp only [ContractTableProvider.new, TableProvider.memory, ExecutionPlan.newContractApproved,
    ExecutionPlan.newRowFilter, ExecutionPlan.newMasking, hid', hmasks, hfilter, hdp]
  show ContractTableProvider.physToDf (ExecutionPlan.newPermissive serde (p.toBundleHandle serde)
    p.tenantId (stack serde p schema policies batches)) = _
  rw [ExecutionPlan.newPermissive, ExecutionPlan.buildLaplaceNoise]
  cases LaplaceNoiseExec.ofBundle serde (p.toBundleHandle serde) p.tenantId .new <;> rfl

/-- **The governed plan**, for any table: there is one exactly if the contract has an id and its
parameters for noise are positive, and if there is none the text is the reason. -/
theorem govern_cases (hserde : serde.fromSlice (serde.toVec p.toBundleValue) = some p.toBundleValue)
    (hdouble : p.Doubles) (hfinite : p.FiniteNoise) (schema : Schema) :
    (p.contractId ≠ "" ∧ p.NoiseValid ∧ ∃ policies, ∀ batches, ∃ plan,
      (ContractTableProvider.new serde (.memory schema batches) p).govern serde = .ok plan ∧
        (plan = stack serde p schema policies batches ∨
          ∃ op, plan = .laplaceNoise op (stack serde p schema policies batches))) ∨
    ¬ (p.contractId ≠ "" ∧ p.NoiseValid) ∧ ∃ e, e.Textual ∧ ∀ batches,
      (ContractTableProvider.new serde (.memory schema batches) p).govern serde =
        .error (.physical e) := by
  obtain ⟨policies, hmasks, -⟩ := ResolvedPolicy.parseMaskingBundle_exact hserde
  have hfilter := ResolvedPolicy.parseRowFilter_eq hserde
  by_cases hid : p.contractId = ""
  · refine .inr ⟨fun h => h.1 hid, .contractNotApproved "ContractApprovedExec", trivial, fun batches => ?_⟩
    have hid' : (p.toBundleHandle serde).contractId = "" := hid
    rw [ContractTableProvider.govern]
    simp only [ContractTableProvider.new, TableProvider.memory, ExecutionPlan.newContractApproved, hid']
    rfl
  cases hdp : p.hasDp with
  | false =>
    refine .inl ⟨hid, fun column d hd => ?_, policies, fun batches => ⟨_, ?_, .inl rfl⟩⟩
    · have hempty := Dict.isEmpty_iff.mp (show p.dpColumns.isEmpty = true by
        simpa [ResolvedPolicy.hasDp] using hdp)
      rw [hempty column] at hd
      cases hd
    · rw [govern_eq schema hdp hmasks hfilter, if_neg hid]
  | true =>
    have hparse := ResolvedPolicy.parseDpBundle_eq hserde hdouble hfinite
    have hvalid := validateColumns_ok_iff hfinite
    cases hcheck : LaplaceNoiseExec.validateColumns
        (p.dpColumns.map fun d => (d.epsilon, d.sensitivity)) with
    | error e =>
      refine .inr ⟨fun h => ?_, e, validateColumns_textual hcheck, fun batches => ?_⟩
      · rw [hvalid.mpr h.2] at hcheck
        cases hcheck
      · rw [govern_noise hdp hid hmasks hfilter, LaplaceNoiseExec.ofBundle, hparse]
        simp [hcheck, bind, Except.bind, Except.mapError, Except.map]
    | ok =>
      have hop : LaplaceNoiseExec.ofBundle serde (p.toBundleHandle serde) p.tenantId .new = .ok
          ⟨p.toBundleHandle serde, .new, p.tenantId, p.dpColumns.map fun d => (d.epsilon, d.sensitivity)⟩ :=
        LaplaceNoiseExec.ofBundle_ok_iff.mpr ⟨_, hparse, hcheck, rfl⟩
      refine .inl ⟨hid, hvalid.mp hcheck, policies, fun batches => ⟨.laplaceNoise
        ⟨p.toBundleHandle serde, .new, p.tenantId, p.dpColumns.map fun d => (d.epsilon, d.sensitivity)⟩
        (stack serde p schema policies batches), ?_, .inr ⟨_, rfl⟩⟩⟩
      rw [govern_noise hdp hid hmasks hfilter, hop]
      rfl

/-- The stream of the governed plan, with noise or without. -/
theorem execute_governed {policies : Dict String MaskPolicy} {batches : List RecordBatch}
    {plan : ExecutionPlan} (hplan : plan = stack serde p schema policies batches ∨
      ∃ op, plan = .laplaceNoise op (stack serde p schema policies batches)) :
    plan.execute engine draws = (stack serde p schema policies batches).execute engine draws ∨
      ∃ op n spending, plan.execute engine draws =
        LaplaceNoiseExec.noiseStream op engine.rounding draws n spending
          ((stack serde p schema policies batches).execute engine draws) := by
  obtain rfl | ⟨op, rfl⟩ := hplan
  · exact .inl rfl
  · rw [ExecutionPlan.execute]
    split_ifs
    · exact .inl rfl
    · exact .inr ⟨op, _, _, rfl⟩

theorem applyProjection_error {plan : ExecutionPlan} {indices : List Nat} {e : DataFusionError}
    (h : ContractTableProvider.applyProjection plan indices = .error e) : ¬ e.Textual := by
  rw [ContractTableProvider.applyProjection] at h
  split_ifs at h
  obtain rfl := Except.error.inj h
  exact id

theorem applyProjection_textFree {plan plan' : ExecutionPlan} {indices : List Nat}
    (hfree : TextFree (plan.execute engine draws))
    (h : ContractTableProvider.applyProjection plan indices = .ok plan') :
    TextFree (plan'.execute engine draws) := by
  rw [ContractTableProvider.applyProjection] at h
  split_ifs at h
  obtain rfl := Except.ok.inj h
  exact hfree.andThen fun batch e he => by cases he

theorem narrow_eq (projection : Option (List Nat)) (limit : Option Nat) (plan : ExecutionPlan) :
    ContractTableProvider.narrow projection limit plan =
      (projection.elim (.ok plan) (ContractTableProvider.applyProjection plan)).map fun projected =>
        limit.elim projected (.globalLimit · projected) := by
  cases projection with
  | none => cases limit <;> rfl
  | some indices =>
    show ContractTableProvider.narrow (some indices) limit plan =
      (ContractTableProvider.applyProjection plan indices).map _
    rw [ContractTableProvider.narrow]
    cases ContractTableProvider.applyProjection plan indices <;> cases limit <;> rfl

theorem limited_textFree {plan : ExecutionPlan} (hfree : TextFree (plan.execute engine draws))
    (limit : Option Nat) :
    TextFree ((limit.elim plan (.globalLimit · plan)).execute engine draws) := by
  cases limit with
  | none => exact hfree
  | some n => exact hfree.limitStream n

/-- The projection and the limit of the query add no such error. -/
theorem narrow_textFree {plan : ExecutionPlan} (hfree : TextFree (plan.execute engine draws))
    (projection : Option (List Nat)) (limit : Option Nat) :
    (∃ e, ContractTableProvider.narrow projection limit plan = .error e ∧ ¬ e.Textual) ∨
      ∃ plan', ContractTableProvider.narrow projection limit plan = .ok plan' ∧
        TextFree (plan'.execute engine draws) := by
  rw [narrow_eq]
  cases projection with
  | none => exact .inr ⟨_, rfl, limited_textFree hfree limit⟩
  | some indices =>
    rw [Option.elim_some]
    cases hproject : ContractTableProvider.applyProjection plan indices with
    | error e => exact .inl ⟨e, rfl, applyProjection_error hproject⟩
    | ok projected =>
      exact .inr ⟨_, rfl, limited_textFree (applyProjection_textFree hfree hproject) limit⟩

/-- **A contract that can be enforced never fails by its text.** -/
theorem neverFailsByText_of_valid
    (hserde : serde.fromSlice (serde.toVec p.toBundleValue) = some p.toBundleValue)
    (hdouble : p.Doubles) (hfinite : p.FiniteNoise) (hid : p.contractId ≠ "") (hnoise : p.NoiseValid)
    (hfilter : ∀ text, p.rowFilter = some text → text ≠ "" →
      ∃ expr, RowFilterExec.parseFilterExprToDf engine text = .ok expr) :
    p.NeverFailsByText engine serde := by
  intro draws schema sel batches e hrun
  obtain ⟨-, -, policies, hgovern⟩ | ⟨hnot, -⟩ := govern_cases hserde hdouble hfinite schema
  · obtain ⟨plan, hgovern, hplan⟩ := hgovern batches
    have hfree : TextFree (plan.execute engine draws) := by
      have hstack : TextFree ((stack serde p schema policies batches).execute engine draws) :=
        ((textFree_batches batches).andThen (rowFilter_textFree hfilter)).andThen (masking_textFree _)
      obtain heq | ⟨op, n, spending, heq⟩ := @execute_governed engine draws _ _ _ _ _ _ hplan
      · exact heq ▸ hstack
      · exact heq ▸ hstack.noiseStream op _ n spending
    rw [runScan, ContractTableProvider.scan, hgovern] at hrun
    obtain ⟨e', hnarrow, he'⟩ | ⟨plan', hnarrow, hfree'⟩ :=
      narrow_textFree hfree sel.projection sel.limit
    · simp only [bind, Except.bind, hnarrow] at hrun
      obtain rfl := Except.error.inj hrun
      exact he'
    · simp only [bind, Except.bind, hnarrow] at hrun
      cases hout : collect (plan'.execute engine draws) with
      | error e' =>
        rw [hout] at hrun
        obtain rfl := Except.error.inj hrun
        exact hfree' _ (of_collect_error hout)
      | ok out =>
        rw [hout] at hrun
        cases hrun
  · exact absurd ⟨hid, hnoise⟩ hnot

/-- A scan of no batches fails where the parameters do. -/
theorem valid_of_neverFailsByText
    (hserde : serde.fromSlice (serde.toVec p.toBundleValue) = some p.toBundleValue)
    (hdouble : p.Doubles) (hfinite : p.FiniteNoise) (h : p.NeverFailsByText engine serde) :
    p.contractId ≠ "" ∧ p.NoiseValid := by
  obtain ⟨hid, hnoise, -⟩ | ⟨-, e, htextual, hgovern⟩ := govern_cases hserde hdouble hfinite []
  · exact ⟨hid, hnoise⟩
  · refine absurd htextual (h (fun _ _ _ => (.fin 0, .fin 0)) [] ⟨none, none⟩ [] (.physical e) ?_)
    rw [runScan, ContractTableProvider.scan, hgovern]
    rfl

/-- A batch without rows. -/
def RecordBatch.none (schema : Schema) : RecordBatch where
  schema := schema
  columns := schema.map fun field => ⟨field.dataType, [], by simp⟩
  numRows := 0
  fits := by
    rw [List.forall₂_map_right_iff, List.forall₂_same]
    exact fun field _ => ⟨rfl, by simp, rfl⟩

/-- A filter that cannot be read fails on a batch, even one without rows. -/
theorem filter_of_neverFailsByText
    (hserde : serde.fromSlice (serde.toVec p.toBundleValue) = some p.toBundleValue)
    (hdouble : p.Doubles) (hfinite : p.FiniteNoise) (hschema : engine.dfSchema schema = .ok ())
    (h : p.NeverFailsByText engine serde) {text : String} (htext : p.rowFilter = some text)
    (hne : text ≠ "") : ∃ expr, RowFilterExec.parseFilterExprToDf engine text = .ok expr := by
  cases hparse : RowFilterExec.parseFilterExprToDf engine text with
  | ok expr => exact ⟨expr, rfl⟩
  | error e =>
    obtain ⟨hid, hnoise⟩ := valid_of_neverFailsByText hserde hdouble hfinite h
    obtain ⟨-, -, policies, hgovern⟩ | ⟨hnot, -⟩ := govern_cases hserde hdouble hfinite schema
    · obtain ⟨plan, hgovern, hplan⟩ := hgovern [.none schema]
      have htextual : e.Textual := by
        obtain ⟨reason, -, rfl⟩ := mapError_error hparse
        exact trivial
      have hbatch : enforceBatch engine p schema (p.toBundleHandle serde) policies (.none schema) =
          .error (.operator "RowFilterExec" e) := by
        have hcompile : RowFilterExec.applyFilterToBatch engine (.none schema) text = .error e := by
          rw [RowFilterExec.applyFilterToBatch, RowFilterExec.compileFilter]
          simp [RecordBatch.none, hschema, hparse, bind, Except.bind, Except.mapError]
        rw [enforceBatch, RowFilterExec.onBatch]
        simp only [htext, if_neg hne, hcompile]
        rfl
      have hstream : ∃ rest, plan.execute engine (fun _ _ _ => (.fin 0, .fin 0)) =
          .error (.operator "RowFilterExec" e) :: rest := by
        obtain heq | ⟨op, n, spending, heq⟩ :=
          @execute_governed engine (fun _ _ _ => (.fin 0, .fin 0)) _ _ _ _ _ _ hplan <;>
          rw [heq, execute_stack, List.map_singleton, hbatch]
        · exact ⟨[], rfl⟩
        · exact ⟨[], rfl⟩
      obtain ⟨rest, hstream⟩ := hstream
      refine absurd (show (DataFusionError.operator "RowFilterExec" e).Textual from htextual)
        (h (fun _ _ _ => (.fin 0, .fin 0)) schema ⟨none, none⟩ [.none schema] _ ?_)
      rw [runScan, ContractTableProvider.scan, hgovern]
      show (collect (plan.execute engine _) >>= fun out => _) = _
      rw [hstream]
      rfl
    · exact absurd ⟨hid, hnoise⟩ hnot

end Plan

/-! ### Contracts that were loaded -/

section Loaded
variable {engine : Engine} {serde : SerdeJson} {docs : List String} {source : JsonContractSource}
  {c : JsonContract}

/-- The parameters of a contract that was loaded are finite doubles. -/
theorem loaded_doubles (hload : JsonContractSource.fromJsonStrs serde docs = .ok source)
    {dataset : String} (hc : source.contracts.lookup dataset = some c) {column : String} {d : DpParam}
    (hd : c.dpColumns.lookup column = some d) :
    (d.epsilon.IsDouble ∧ d.sensitivity.IsDouble) ∧
      d.epsilon.isFinite = true ∧ d.sensitivity.isFinite = true := by
  obtain ⟨-, rfl⟩ := JsonContractSource.fromJsonStrs_ok_iff.mp hload
  obtain ⟨doc, -, hentry⟩ := List.mem_filterMap.mp (Dict.mem_of_lookup_ofList hc)
  obtain ⟨c', hread, heq⟩ := Option.map_eq_some_iff.mp hentry
  obtain rfl := (Prod.mk.inj heq).2
  obtain ⟨document, -, hdocument⟩ := Option.bind_eq_some_iff.mp hread
  exact JsonContract.ofJson_doubles hdocument hd

/-- The owner and whoever is turned away get a policy without filter and noise, a reader that of
the contract. -/
theorem JsonContract.resolve_cases {caller : Caller} {p : ResolvedPolicy}
    (h : c.resolve caller = .ok p) :
    p.contractId = c.contractId ∧ (p.rowFilter = none ∧ p.dpColumns = .empty ∨
      p.rowFilter = c.rowFilter ∧ p.dpColumns = c.dpColumns) := by
  by_cases hallows : c.allows caller
  · by_cases howner : caller.tenant = c.ownerTenant
    · rw [resolve_owner hallows howner] at h
      obtain rfl := Except.ok.inj h
      exact ⟨rfl, .inl ⟨rfl, rfl⟩⟩
    · rw [resolve_reader hallows howner, enforced] at h
      cases hmasks : c.columnMasks with
      | error e =>
        rw [hmasks] at h
        cases h
      | ok columnMasks =>
        rw [hmasks] at h
        obtain rfl := Except.ok.inj h
        exact ⟨rfl, .inr ⟨rfl, rfl⟩⟩
  · rw [resolve_denied hallows] at h
    obtain rfl := Except.ok.inj h
    exact ⟨rfl, .inl ⟨rfl, rfl⟩⟩

/-- Everyone gets a policy exactly if a reader does. -/
theorem JsonContract.resolve_ok_iff :
    (∀ caller, ∃ p, c.resolve caller = .ok p) ↔ ∃ e, c.enforced = .ok e := by
  constructor
  · intro h
    obtain ⟨tenant, htenant⟩ := exists_stranger c.ownerTenant
    obtain ⟨p, hp⟩ := h (c.welcome tenant)
    rw [resolve_reader (c.allows_welcome tenant) htenant] at hp
    cases henforced : c.enforced with
    | error e =>
      rw [henforced] at hp
      cases hp
    | ok e => exact ⟨e, rfl⟩
  · intro h caller
    obtain ⟨e, he⟩ := h
    by_cases hallows : c.allows caller
    · by_cases howner : caller.tenant = c.ownerTenant
      · exact ⟨_, resolve_owner hallows howner⟩
      · exact ⟨_, by rw [resolve_reader hallows howner, he]; rfl⟩
    · exact ⟨_, resolve_denied hallows⟩

/-- What a policy keeps of the parameters of its contract. -/
theorem JsonContract.resolve_doubles {caller : Caller} {p : ResolvedPolicy}
    (h : c.resolve caller = .ok p)
    (hdoubles : ∀ column d, c.dpColumns.lookup column = some d →
      (d.epsilon.IsDouble ∧ d.sensitivity.IsDouble) ∧
        d.epsilon.isFinite = true ∧ d.sensitivity.isFinite = true) :
    p.Doubles ∧ p.FiniteNoise := by
  obtain ⟨-, ⟨-, hnoise⟩ | ⟨-, hnoise⟩⟩ := resolve_cases h
  · have hnone (column : String) (d : DpParam) (hd : p.dpColumns.lookup column = some d) : False := by
      rw [hnoise] at hd
      cases hd
    exact ⟨fun column d hd => (hnone column d hd).elim, fun column d hd => (hnone column d hd).elim⟩
  · exact ⟨fun column d hd => (hdoubles column d (hnoise ▸ hd)).1,
      fun column d hd => (hdoubles column d (hnoise ▸ hd)).2⟩

/-- A contract that can be enforced is enforced for everyone. -/
theorem JsonContract.Enforceable.neverFails (h : c.Enforceable engine) {caller : Caller}
    {p : ResolvedPolicy} (hp : c.resolve caller = .ok p)
    (hdoubles : p.Doubles ∧ p.FiniteNoise)
    (hserde : serde.fromSlice (serde.toVec p.toBundleValue) = some p.toBundleValue) :
    p.NeverFailsByText engine serde := by
  obtain ⟨hid, hkept⟩ := resolve_cases hp
  refine neverFailsByText_of_valid hserde hdoubles.1 hdoubles.2 (hid ▸ h.identified) ?_ ?_
  · intro column d hd
    obtain ⟨-, hnoise⟩ | ⟨-, hnoise⟩ := hkept
    · rw [hnoise] at hd
      cases hd
    · exact h.noise column d (hnoise ▸ hd)
  · intro text htext hne
    obtain ⟨hfilter, -⟩ | ⟨hfilter, -⟩ := hkept
    · rw [hfilter] at htext
      cases htext
    · exact h.filter text (hfilter ▸ htext) hne

/-- A contract that is enforced for a reader can be enforced. -/
theorem JsonContract.enforceable_of_reader {schema : Schema}
    (hschema : engine.dfSchema schema = .ok ()) (hmasks : ∃ e, c.enforced = .ok e)
    {caller : Caller} (hallows : c.allows caller) (howner : caller.tenant ≠ c.ownerTenant)
    {p : ResolvedPolicy} (hp : c.resolve caller = .ok p) (hdoubles : p.Doubles ∧ p.FiniteNoise)
    (hserde : serde.fromSlice (serde.toVec p.toBundleValue) = some p.toBundleValue)
    (hnever : p.NeverFailsByText engine serde) : c.Enforceable engine := by
  obtain ⟨e, he⟩ := hmasks
  have hread : p.contractId = c.contractId ∧ p.rowFilter = c.rowFilter ∧ p.dpColumns = c.dpColumns := by
    rw [resolve_reader hallows howner, enforced] at hp
    cases hmasks : c.columnMasks with
    | error e =>
      rw [hmasks] at hp
      cases hp
    | ok columnMasks =>
      rw [hmasks] at hp
      obtain rfl := Except.ok.inj hp
      exact ⟨rfl, rfl, rfl⟩
  obtain ⟨hid, hfilter, hnoise⟩ := hread
  obtain ⟨hidentified, hvalid⟩ := valid_of_neverFailsByText hserde hdoubles.1 hdoubles.2 hnever
  refine ⟨hid ▸ hidentified, enforced_ok_iff.mp ⟨e, he⟩, fun text htext hne => ?_, fun column d hd => ?_⟩
  · exact filter_of_neverFailsByText hserde hdoubles.1 hdoubles.2 hschema hnever
      (hfilter.trans htext) hne
  · exact hvalid column d (hnoise ▸ hd)

/-- **Enforceable contracts**: what was loaded gives every caller a policy whose scans never fail by
the text of the contract exactly if every contract that was loaded can be enforced. -/
theorem enforceable_iff (hload : JsonContractSource.fromJsonStrs serde docs = .ok source)
    (hserde : ∀ dataset caller p, source.resolve dataset caller = .ok p →
      serde.fromSlice (serde.toVec p.toBundleValue) = some p.toBundleValue)
    {schema : Schema} (hschema : engine.dfSchema schema = .ok ()) :
    (∀ dataset c, source.contracts.lookup dataset = some c → ∀ caller,
      ∃ p, source.resolve dataset caller = .ok p ∧ p.NeverFailsByText engine serde) ↔
    ∀ dataset c, source.contracts.lookup dataset = some c → c.Enforceable engine := by
  have hdoubles {dataset : String} {c : JsonContract} (hc : source.contracts.lookup dataset = some c)
      {caller : Caller} {p : ResolvedPolicy} (hp : c.resolve caller = .ok p) :=
    c.resolve_doubles hp fun column d => loaded_doubles hload hc
  constructor
  · intro h dataset c hc
    obtain ⟨tenant, htenant⟩ := JsonContract.exists_stranger c.ownerTenant
    have hmasks := JsonContract.resolve_ok_iff.mp fun caller => by
      obtain ⟨p, hp, -⟩ := h dataset c hc caller
      exact ⟨p, JsonContractSource.resolve_some hc caller ▸ hp⟩
    obtain ⟨p, hp, hnever⟩ := h dataset c hc (c.welcome tenant)
    have hread : c.resolve (c.welcome tenant) = .ok p := JsonContractSource.resolve_some hc _ ▸ hp
    exact JsonContract.enforceable_of_reader hschema hmasks (c.allows_welcome tenant) htenant hread
      (hdoubles hc hread) (hserde dataset _ p hp) hnever
  · intro h dataset c hc caller
    obtain ⟨p, hp⟩ := JsonContract.resolve_ok_iff.mpr
      (JsonContract.enforced_ok_iff.mpr (h dataset c hc).masks) caller
    have hresolve := (JsonContractSource.resolve_some hc caller).trans hp
    exact ⟨p, hresolve, (h dataset c hc).neverFails hp (hdoubles hc hp) (hserde dataset caller p hresolve)⟩

end Loaded

/-! ### A contract that is fine and one that is not -/

def agesText : String :=
  "\x7b\"contract_id\":\"employees_v1\",\"version\":\"1.0.0\",\"dataset\":\"staff\"," ++
  "\"binding\":\x7b\"parquet\":\"/data/staff.parquet\"\x7d,\"owner_tenant\":\"acme\"," ++
  "\"columns\":[\x7b\"name\":\"email\",\"mask\":\"partial\"\x7d],\"row_filter\":\"active\"," ++
  "\"dp_columns\":\x7b\"age\":\x7b\"sensitivity\":1,\"epsilon\":1\x7d\x7d\x7d"

def agesMembers : List (String × Json) :=
  [("contract_id", .string "employees_v1"), ("version", .string "1.0.0"), ("dataset", .string "staff"),
    ("binding", .object [("parquet", .string "/data/staff.parquet")]),
    ("owner_tenant", .string "acme"),
    ("columns", .array [.object [("name", .string "email"), ("mask", .string "partial")]]),
    ("row_filter", .string "active"),
    ("dp_columns", .object [("age", .object [("sensitivity", .integer 1), ("epsilon", .integer 1)])])]

/-- The last four characters of addresses, of those who are active, and ages with noise. -/
def agesContract : JsonContract :=
  ⟨"employees_v1", "1.0.0", "staff", ⟨"/data/staff.parquet"⟩, "acme", [], [⟨"email", some "partial"⟩],
    some "active", .ofList [("age", ⟨.fin 1, .fin 1⟩)]⟩

/-- What the contract comes to for everyone but the owner. -/
def agesPolicy : ResolvedPolicy :=
  ⟨"employees_v1", "1.0.0", "acme", .allow, .ofList [("email", .partialMask)], some "active",
    .ofList [("age", ⟨.fin 1, .fin 1⟩)]⟩

def agesOwnerPolicy : ResolvedPolicy := .allowAll "employees_v1" "1.0.0" "acme"

def agesBundleText : String :=
  "\x7b\"column_masking\":\x7b\"email\":\"partial\"\x7d,\"contract_id\":\"employees_v1\"," ++
  "\"contract_version\":\"1.0.0\",\"dp_columns\":\x7b\"age\":\x7b\"epsilon\":1.0," ++
  "\"sensitivity\":1.0\x7d\x7d,\"row_filter\":\"active\"\x7d"

def agesOwnerText : String :=
  "\x7b\"column_masking\":\x7b\x7d,\"contract_id\":\"employees_v1\"," ++
  "\"contract_version\":\"1.0.0\",\"dp_columns\":\x7b\x7d,\"row_filter\":null\x7d"

/-- A parser of the document and of its two bundles, and a printer of these. -/
def agesSerde : SerdeJson where
  fromSlice := fun bytes =>
    if bytes = utf8 agesText then some (.object agesMembers)
    else if bytes = utf8 agesBundleText then some agesPolicy.toBundleValue
    else if bytes = utf8 agesOwnerText then some agesOwnerPolicy.toBundleValue
    else none
  toVec := fun doc => match doc.field 0 "row_filter" with
    | some (some (.string _)) => utf8 agesBundleText
    | _ => utf8 agesOwnerText
  fromSlice_nil := by
    rw [if_neg (ne_utf8 (by decide +kernel)), if_neg (ne_utf8 (by decide +kernel)),
      if_neg (ne_utf8 (by decide +kernel))]

theorem agesSerde_reads : agesSerde.fromSlice (agesSerde.toVec agesPolicy.toBundleValue) =
    some agesPolicy.toBundleValue := by
  have hne : utf8 agesBundleText ≠ utf8 agesText := fun h => absurd (utf8_inj h) (by decide +kernel)
  have hfield : agesPolicy.toBundleValue.field 0 "row_filter" = some (some (.string "active")) := rfl
  simp [agesSerde, hfield, hne]

theorem agesSerde_readsOwner :
    agesSerde.fromSlice (agesSerde.toVec agesOwnerPolicy.toBundleValue) =
      some agesOwnerPolicy.toBundleValue := by
  have hne : utf8 agesOwnerText ≠ utf8 agesText := fun h => absurd (utf8_inj h) (by decide +kernel)
  have hne' : utf8 agesOwnerText ≠ utf8 agesBundleText :=
    fun h => absurd (utf8_inj h) (by decide +kernel)
  have hfield : agesOwnerPolicy.toBundleValue.field 0 "row_filter" = some (some .null) := rfl
  simp [agesSerde, hfield, hne, hne']

def agesSource : JsonContractSource := ⟨.ofList [("staff", agesContract)]⟩

theorem ages_loads : JsonContractSource.fromJsonStrs agesSerde [agesText] = .ok agesSource := by
  have hparam : DpParam.ofJson (.object [("sensitivity", .integer 1), ("epsilon", .integer 1)]) =
      some ⟨.fin 1, .fin 1⟩ := by
    have hone : (Json.integer 1).asF64 = some (.fin 1) := by
      rw [Json.asF64, Int.cast_one, F64.round_one]
      rfl
    simp [DpParam.ofJson, required, Json.fits, Json.fieldOr, Json.field, Json.valuesOf, hone]
  have hentry : JsonContractSource.entryOf agesSerde agesText = some ("staff", agesContract) := by
    have hparse : agesSerde.fromSlice (utf8 agesText) = some (.object agesMembers) := by
      simp [agesSerde]
    have hdoc : JsonContract.ofJson (.object agesMembers) = some agesContract := by
      have hdp : Json.fieldOr 8 "dp_columns" (Json.asMap DpParam.ofJson) (some .empty)
          (.object agesMembers) = some (.ofList [("age", ⟨.fin 1, .fin 1⟩)]) := by
        show (([("age", Json.object [("sensitivity", .integer 1), ("epsilon", .integer 1)])].mapM
          fun m => (DpParam.ofJson m.2).map (m.1, ·)).map Dict.ofList) = _
        simp [hparam]
      rw [JsonContract.ofJson, hdp]
      rfl
    rw [JsonContractSource.entryOf, hparse]
    simp [hdoc, agesContract]
  refine JsonContractSource.fromJsonStrs_ok_iff.mpr ⟨by simp [hentry], ?_⟩
  simp [JsonContractSource.contractsOf, hentry, agesSource]

theorem eq_agesContract {dataset : String} {c : JsonContract}
    (h : agesSource.contracts.lookup dataset = some c) : c = agesContract := by
  have hmem := Dict.mem_of_lookup_ofList h
  exact (Prod.mk.inj (List.mem_singleton.mp hmem)).2

theorem ages_resolves {dataset : String} {caller : Caller} {p : ResolvedPolicy}
    (h : agesSource.resolve dataset caller = .ok p) : p = agesOwnerPolicy ∨ p = agesPolicy := by
  cases hc : agesSource.contracts.lookup dataset with
  | none =>
    rw [JsonContractSource.resolve_none hc] at h
    cases h
  | some c =>
    obtain rfl := eq_agesContract hc
    rw [JsonContractSource.resolve_some hc] at h
    have hallows : agesContract.allows caller := .inl rfl
    by_cases howner : caller.tenant = agesContract.ownerTenant
    · rw [JsonContract.resolve_owner hallows howner] at h
      exact .inl (Except.ok.inj h).symm
    · rw [JsonContract.resolve_reader hallows howner] at h
      exact .inr (Except.ok.inj h).symm

theorem agesContract_enforceable : agesContract.Enforceable columnEngine where
  identified := by decide
  masks := by
    intro col hcol mask hmask
    obtain rfl := List.mem_singleton.mp hcol
    obtain rfl := Option.some.inj hmask
    exact ⟨.partialMask, rfl⟩
  filter := by
    intro text htext _
    obtain rfl := Option.some.inj htext
    exact ⟨_, rfl⟩
  noise := by
    intro column d hd
    obtain ⟨-, rfl⟩ := Prod.mk.inj (List.mem_singleton.mp (Dict.mem_of_lookup_ofList hd))
    exact ⟨by decide, by decide⟩

/-- A contract with a mask, a filter and noise is enforced for everyone. -/
theorem enforceable_ages : JsonContractSource.fromJsonStrs agesSerde [agesText] = .ok agesSource ∧
    ∀ dataset c, agesSource.contracts.lookup dataset = some c → ∀ caller,
      ∃ p, agesSource.resolve dataset caller = .ok p ∧
        p.NeverFailsByText columnEngine agesSerde := by
  have hschema : columnEngine.dfSchema employeeSchema = .ok () := rfl
  refine ⟨ages_loads, (enforceable_iff ages_loads (fun dataset caller p hp => ?_) hschema).mpr ?_⟩
  · obtain rfl | rfl := ages_resolves hp
    · exact agesSerde_readsOwner
    · exact agesSerde_reads
  · intro dataset c hc
    obtain rfl := eq_agesContract hc
    exact agesContract_enforceable

def rainbowText : String :=
  "\x7b\"contract_id\":\"open\",\"version\":\"1\",\"dataset\":\"sales\"," ++
  "\"binding\":\x7b\"parquet\":\"/data/sales.parquet\"\x7d,\"owner_tenant\":\"acme\"," ++
  "\"columns\":[\x7b\"name\":\"email\",\"mask\":\"rainbow\"\x7d]\x7d"

/-- A parser of a document with a mask that there is not. -/
def rainbowSerde : SerdeJson where
  fromSlice := fun bytes =>
    if bytes = utf8 rainbowText then some (.object (salesMembers "open" ++
      [("columns", .array [.object [("name", .string "email"), ("mask", .string "rainbow")]])]))
    else none
  toVec := fun _ => []
  fromSlice_nil := if_neg (ne_utf8 (by decide +kernel))

/-- **Found by the first reader**: the contract is loaded, its owner gets a policy, and a reader an
error. -/
theorem loaded_for_the_owner : ∃ source,
    JsonContractSource.fromJsonStrs rainbowSerde [rainbowText] = .ok source ∧
    (∃ p, source.resolve "sales" (.new "" "" "acme") = .ok p) ∧
    source.resolve "sales" (.new "" "" "other") = .error (.policy "rainbow") := by
  have hentry : JsonContractSource.entryOf rainbowSerde rainbowText =
      some ("sales", {openContract with columns := [⟨"email", some "rainbow"⟩]}) := by
    have hparse : rainbowSerde.fromSlice (utf8 rainbowText) = some (.object (salesMembers "open" ++
        [("columns", .array [.object [("name", .string "email"), ("mask", .string "rainbow")]])])) := by
      simp [rainbowSerde]
    rw [JsonContractSource.entryOf, hparse]
    rfl
  refine ⟨⟨.ofList [("sales", {openContract with columns := [⟨"email", some "rainbow"⟩]})]⟩,
    JsonContractSource.fromJsonStrs_ok_iff.mpr ⟨by simp [hentry], ?_⟩, ⟨.allowAll "open" "1" "acme", ?_⟩, ?_⟩
  · simp [JsonContractSource.contractsOf, hentry]
  · rfl
  · rfl

end Griot
