import Griot.Budget.Tracker
import Griot.Physical.RowFilter

/-! The noise operator, batch by batch.

The columns of a batch are taken in order. A tagged one is paid for, then noised;
the first that cannot be paid for or noised fails the batch, and what was paid
until then stays paid. Epsilon and sensitivity are checked when the operator is
built. Two samples of the exponential distribution for each cell are given, and the way
the engine rounds. -/
namespace Griot.Physical

open Lib Budget

structure DpColumnConfig where
  sensitivity : F64
  epsilon : F64

structure DpBundleData where
  dpColumns : Dict String DpColumnConfig

def DpColumnConfig.ofJson (doc : Json) : Option DpColumnConfig := do
  guard (doc.fits 2)
  let sensitivity ← doc.fieldOr 0 "sensitivity" Json.asF64 none
  let epsilon ← doc.fieldOr 1 "epsilon" Json.asF64 none
  return ⟨sensitivity, epsilon⟩

def DpBundleData.ofJson (doc : Json) : Option DpBundleData := do
  guard (doc.fits 1)
  let dpColumns ← doc.fieldOr 0 "dp_columns" (Json.asMap DpColumnConfig.ofJson) (some .empty)
  return ⟨dpColumns⟩

theorem DpColumnConfig.epsilon_isDouble {doc : Json} {cfg : DpColumnConfig}
    (h : DpColumnConfig.ofJson doc = some cfg) : cfg.epsilon.IsDouble := by
  simp only [DpColumnConfig.ofJson, Option.bind_eq_bind, Option.pure_def,
    Option.bind_eq_some_iff] at h
  obtain ⟨-, -, sensitivity, -, epsilon, hepsilon, heq⟩ := h
  obtain rfl := Option.some.inj heq
  obtain ⟨v, hv⟩ := (Json.fieldOr_eq_some hepsilon).resolve_left (by simp)
  exact (Json.asF64_isDouble hv).1

theorem DpBundleData.epsilon_isDouble {doc : Json} {data : DpBundleData}
    (h : DpBundleData.ofJson doc = some data) {column : String} {cfg : DpColumnConfig}
    (hcolumn : data.dpColumns.lookup column = some cfg) : cfg.epsilon.IsDouble := by
  simp only [DpBundleData.ofJson, Option.bind_eq_bind, Option.pure_def,
    Option.bind_eq_some_iff] at h
  obtain ⟨-, -, dpColumns, hdp, heq⟩ := h
  obtain rfl := Option.some.inj heq
  obtain hempty | ⟨v, hv⟩ := Json.fieldOr_eq_some hdp
  · obtain rfl := Option.some.inj hempty
    cases hcolumn
  · obtain ⟨w, hw⟩ := Json.of_asMap hv hcolumn
    exact DpColumnConfig.epsilon_isDouble hw

/-- The operator apart from its input. Copies of it debit one tracker, which starts
as `budget`. -/
structure LaplaceNoiseExec where
  bundle : ContractBundleHandle
  budget : PrivacyBudgetTracker
  tenantId : String
  /-- Epsilon and sensitivity of every tagged column. -/
  dpColumns : Dict String (F64 × F64)

namespace LaplaceNoiseExec

/-! ### Building the operator -/

def parseDpBundle (serde : SerdeJson) (bundle : ContractBundleHandle) :
    Except PhysicalError (Dict String (F64 × F64)) :=
  (bundleData "LaplaceNoiseExec" DpBundleData.ofJson ⟨.empty⟩ serde bundle).map fun data =>
    data.dpColumns.map fun cfg => (cfg.epsilon, cfg.sensitivity)

def validateDpParams (column : String) (epsilon sensitivity : F64) : Except PhysicalError Unit :=
  if !epsilon.isFinite || epsilon.le (.fin 0) then
    .error (.invalidDpParameters column epsilon sensitivity)
  else if !sensitivity.isFinite || sensitivity.le (.fin 0) then
    .error (.invalidDpParameters column epsilon sensitivity)
  else .ok ()

def validateColumns (dpColumns : Dict String (F64 × F64)) : Except PhysicalError Unit :=
  forM dpColumns.entries fun (colName, epsilon, sensitivity) =>
    validateDpParams colName epsilon sensitivity

/-- `build` after the check of its input. -/
def ofBundle (serde : SerdeJson) (bundle : ContractBundleHandle) (tenantId : String)
    (budget : PrivacyBudgetTracker) : Except PhysicalError LaplaceNoiseExec := do
  let dpColumns ← parseDpBundle serde bundle
  validateColumns dpColumns
  return ⟨bundle, budget, tenantId, dpColumns⟩

theorem validateDpParams_ok {column : String} {epsilon sensitivity : F64}
    (h : validateDpParams column epsilon sensitivity = .ok ()) :
    ∃ q, epsilon.toRat? = some q ∧ 0 < q := by
  rw [validateDpParams] at h
  split at h
  · exact absurd h (by simp)
  · rename_i hepsilon
    simp only [Bool.or_eq_true, Bool.not_eq_true', not_or, Bool.not_eq_true] at hepsilon
    exact F64.pos_of_finite (by simpa using hepsilon.1) hepsilon.2

theorem forM_ok_iff {α ε : Type} {f : α → Except ε Unit} {l : List α} :
    forM l f = .ok () ↔ ∀ a ∈ l, f a = .ok () := by
  induction l with
  | nil => exact ⟨fun _ _ h => absurd h (by simp), fun _ => rfl⟩
  | cons a l ih =>
    rw [List.forM_cons, bind_eq_ok, List.forall_mem_cons, ← ih]
    exact ⟨fun ⟨⟨⟩, ha, hl⟩ => ⟨ha, hl⟩, fun ⟨ha, hl⟩ => ⟨(), ha, hl⟩⟩

/-- The order in which the columns are checked does not matter. -/
theorem validateColumns_ok_iff {dpColumns : Dict String (F64 × F64)} :
    validateColumns dpColumns = .ok () ↔ ∀ column epsilon sensitivity,
      dpColumns.lookup column = some (epsilon, sensitivity) →
        validateDpParams column epsilon sensitivity = .ok () := by
  rw [validateColumns, forM_ok_iff]
  constructor
  · intro h column epsilon sensitivity hcolumn
    exact h (column, epsilon, sensitivity) ((Dict.mem_entries _).mpr hcolumn)
  · intro h ⟨column, epsilon, sensitivity⟩ hmem
    exact h column epsilon sensitivity ((Dict.mem_entries _).mp hmem)

theorem parseDpBundle_isDouble {serde : SerdeJson} {bundle : ContractBundleHandle}
    {dpColumns : Dict String (F64 × F64)} (h : parseDpBundle serde bundle = .ok dpColumns)
    {column : String} {epsilon sensitivity : F64}
    (hcolumn : dpColumns.lookup column = some (epsilon, sensitivity)) : epsilon.IsDouble := by
  rw [parseDpBundle] at h
  cases hdata : bundleData "LaplaceNoiseExec" DpBundleData.ofJson ⟨.empty⟩ serde bundle with
  | error e => exact absurd h (by simp [hdata, Except.map])
  | ok data =>
    rw [hdata] at h
    obtain rfl := Except.ok.inj h
    rw [Dict.lookup_map] at hcolumn
    obtain ⟨cfg, hcfg, heq⟩ := Option.map_eq_some_iff.mp hcolumn
    obtain ⟨rfl, -⟩ := Prod.mk.inj heq
    obtain rfl | ⟨doc, hdoc⟩ := bundleData_ok hdata
    · cases hcfg
    · exact DpBundleData.epsilon_isDouble hdoc hcfg

/-- What an operator is built of. -/
theorem ofBundle_ok_iff {serde : SerdeJson} {bundle : ContractBundleHandle} {tenantId : String}
    {budget : PrivacyBudgetTracker} {op : LaplaceNoiseExec} :
    ofBundle serde bundle tenantId budget = .ok op ↔ ∃ dpColumns,
      parseDpBundle serde bundle = .ok dpColumns ∧ validateColumns dpColumns = .ok () ∧
        op = ⟨bundle, budget, tenantId, dpColumns⟩ := by
  rw [ofBundle, bind_eq_ok]
  constructor
  · intro ⟨dpColumns, hparse, h⟩
    obtain ⟨⟨⟩, hvalid, h⟩ := bind_eq_ok.mp h
    exact ⟨dpColumns, hparse, hvalid, (Except.ok.inj h).symm⟩
  · intro ⟨dpColumns, hparse, hvalid, heq⟩
    subst heq
    exact ⟨dpColumns, hparse, bind_eq_ok.mpr ⟨(), hvalid, rfl⟩⟩

/-- Every epsilon of an operator that was built is finite and positive, and a double. -/
theorem ofBundle_epsilon {serde : SerdeJson} {bundle : ContractBundleHandle} {tenantId : String}
    {budget : PrivacyBudgetTracker} {op : LaplaceNoiseExec}
    (h : ofBundle serde bundle tenantId budget = .ok op) {column : String} {epsilon sensitivity : F64}
    (hcolumn : op.dpColumns.lookup column = some (epsilon, sensitivity)) :
    (∃ q, epsilon.toRat? = some q ∧ 0 < q) ∧ epsilon.IsDouble := by
  obtain ⟨dpColumns, hparse, hvalid, rfl⟩ := ofBundle_ok_iff.mp h
  exact ⟨validateDpParams_ok (validateColumns_ok_iff.mp hvalid _ _ _ hcolumn),
    parseDpBundle_isDouble hparse hcolumn⟩

/-! ### Noise -/

/-- Two samples of the exponential distribution. -/
abbrev Draw := F64 × F64

section
variable (r : F64.Rounding)

def sampleLaplace (scale : F64) (draw : Draw) : F64 := r.mul (r.sub draw.1 draw.2) scale

def noiseFloat (scale : F64) (draw : Draw) : Value → Value
  | .float64 x => .float64 (r.add x (sampleLaplace r scale draw))
  | _ => .null

def noiseInt (scale : F64) (draw : Draw) : Value → Value
  | .int64 n => .int64 (r.add (F64.round n.toInt) (sampleLaplace r scale draw)).roundToI64
  | _ => .null

def applyLaplaceNoiseToColumn (draws : Nat → Draw) (col : ArrayRef) (colName : String)
    (scale : F64) : Except PhysicalError ArrayRef :=
  match col.dataType with
  | .float64 => .ok (col.mapIdx .float64 (fun i => noiseFloat r scale (draws i)) fun i v => by
      cases v <;> rfl)
  | .int64 => .ok (col.mapIdx .int64 (fun i => noiseInt r scale (draws i)) fun i v => by
      cases v <;> rfl)
  | other => .error (.dpTypeUnsupported colName other.debug)

end

/-! ### A batch -/

/-- The tracker and the epsilon a stream has spent. -/
structure Spending where
  budget : PrivacyBudgetTracker
  totalEpsilon : F64

/-- One column: paid for and noised if it is tagged. -/
def noiseField (op : LaplaceNoiseExec) (r : F64.Rounding) (draws : Nat → Draw) (field : Field)
    (col : ArrayRef) (s : Spending) : Except PhysicalError ArrayRef × Spending :=
  match op.dpColumns.lookup field.name with
  | none => (.ok col, s)
  | some (epsilon, sensitivity) =>
    match s.budget.consume r op.tenantId field.name epsilon with
    | (.error _, budget) => (.error (.budgetExhausted op.tenantId field.name), {s with budget})
    | (.ok (), budget) =>
      match applyLaplaceNoiseToColumn r draws col field.name (r.div sensitivity epsilon) with
      | .error e => (.error e, {s with budget})
      | .ok noised => (.ok noised, ⟨budget, r.add s.totalEpsilon epsilon⟩)

/-- What happens to one column: nothing, a refused debit, or a granted one, after which
the noise may still fail; what is noised is added to the total. -/
theorem noiseField_cases (op : LaplaceNoiseExec) (r : F64.Rounding) (draws : Nat → Draw)
    (field : Field) (col : ArrayRef) (s : Spending) :
    (op.dpColumns.lookup field.name = none ∧ op.noiseField r draws field col s = (.ok col, s)) ∨
    ∃ epsilon sensitivity, op.dpColumns.lookup field.name = some (epsilon, sensitivity) ∧
      ((∃ remaining budget,
        s.budget.consume r op.tenantId field.name epsilon = (.error remaining, budget) ∧
        op.noiseField r draws field col s =
          (.error (.budgetExhausted op.tenantId field.name), {s with budget})) ∨
      ∃ budget result total, s.budget.consume r op.tenantId field.name epsilon = (.ok (), budget) ∧
        op.noiseField r draws field col s = (result, ⟨budget, total⟩) ∧
        total = match result with
          | .ok _ => r.add s.totalEpsilon epsilon
          | .error _ => s.totalEpsilon) := by
  cases hlookup : op.dpColumns.lookup field.name with
  | none => exact .inl ⟨rfl, by rw [noiseField, hlookup]⟩
  | some params =>
    obtain ⟨epsilon, sensitivity⟩ := params
    refine .inr ⟨epsilon, sensitivity, rfl, ?_⟩
    rcases hconsume : s.budget.consume r op.tenantId field.name epsilon with ⟨remaining | _, budget⟩
    · exact .inl ⟨remaining, budget, rfl, by rw [noiseField, hlookup]; simp only [hconsume]⟩
    · refine .inr ⟨budget, ?_⟩
      cases hnoise : applyLaplaceNoiseToColumn r draws col field.name (r.div sensitivity epsilon) with
      | error e =>
        refine ⟨.error e, s.totalEpsilon, rfl, ?_, rfl⟩
        rw [noiseField, hlookup]
        simp only [hconsume, hnoise]
      | ok noised =>
        refine ⟨.ok noised, r.add s.totalEpsilon epsilon, rfl, ?_, rfl⟩
        rw [noiseField, hlookup]
        simp only [hconsume, hnoise]

/-- The columns from number `i` on, in order. -/
def noiseFields (op : LaplaceNoiseExec) (r : F64.Rounding) (draws : Nat → Nat → Draw) :
    Nat → List (Field × ArrayRef) → Spending → Except PhysicalError (List ArrayRef) × Spending
  | _, [], s => (.ok [], s)
  | i, (field, col) :: rest, s => match op.noiseField r (draws i) field col s with
    | (.error e, s') => (.error e, s')
    | (.ok noised, s') =>
      let (columns, s'') := op.noiseFields r draws (i + 1) rest s'
      (columns.map (noised :: ·), s'')

/-- The batch put together again. -/
def rebuild (batch : RecordBatch) (columns : List ArrayRef) : Except PhysicalError RecordBatch :=
  (RecordBatch.tryNew batch.schema columns).mapError fun e =>
    .internal ("LaplaceNoiseExec RecordBatch reconstruction: " ++ e)

def applyDpToBatch (op : LaplaceNoiseExec) (r : F64.Rounding) (draws : Nat → Nat → Draw)
    (batch : RecordBatch) (s : Spending) : Except PhysicalError RecordBatch × Spending :=
  match op.noiseFields r draws 0 (batch.schema.zip batch.columns) s with
  | (.error e, s') => (.error e, s')
  | (.ok columns, s') => (rebuild batch columns, s')

/-- The stream of one partition that nothing else interrupts; `draws` are for one
batch after the other. -/
def noiseStream (op : LaplaceNoiseExec) (r : F64.Rounding) (draws : Nat → Nat → Nat → Draw) :
    Nat → Spending → BatchStream DataFusionError RecordBatch → BatchStream DataFusionError RecordBatch
  | _, _, [] => []
  | n, s, .error e :: rest => .error e :: op.noiseStream r draws (n + 1) s rest
  | n, s, .ok batch :: rest =>
    let (noised, s') := op.applyDpToBatch r (draws n) batch s
    noised.mapError (.operator "LaplaceNoiseExec") :: op.noiseStream r draws (n + 1) s' rest

end LaplaceNoiseExec
end Griot.Physical
