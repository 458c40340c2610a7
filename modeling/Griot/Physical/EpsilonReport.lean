import Griot.Lib.Machine
import Griot.Physical.BatchCharge
import Griot.Physical.Interleaving
import Mathlib.Algebra.Order.BigOperators.Group.List

/-! What the noise operator reports to have spent.

Every stream sums up the epsilons of the columns it noised. When it emits a batch it
writes its sum, if that is positive, to the one cell that all streams of the operator
share, over what another has written there. So the cell ends with the sum of one
stream, the last to emit after a debit. That is everything when no two partitions have a
batch with a tagged column, however sums are rounded, and without rounding not otherwise
(`reported_iff`). -/
namespace Griot.Physical

open Lib Budget LaplaceNoiseExec

/-! ### The shared cell -/

namespace LaplaceNoiseExec

/-- The end of the closure in `execute`: the batch was noised, and the sum goes to
`epsilon_consumed` if it is positive. -/
def publish {ι : Type} (turn : ι × (Nat → Draw)) (s : System ι) (epsilonConsumed : Option F64) :
    Option F64 :=
  let st := s.streams turn.1
  match st.work with
  | some ⟨batch, [], done⟩ => match rebuild batch done with
    | .ok _ => if (F64.fin 0).lt st.totalEpsilon then some st.totalEpsilon else epsilonConsumed
    | .error _ => epsilonConsumed
  | _ => epsilonConsumed

/-- The streams of one run of the operator, next to its `epsilon_consumed`. -/
def metered {ι : Type} [DecidableEq ι] (r : F64.Rounding) (op : LaplaceNoiseExec)
    (inputs : ι → BatchStream DataFusionError RecordBatch) :
    Machine (ι × (Nat → Draw)) (System ι × Option F64) :=
  (Machine.always (System.start op.budget inputs)
    fun turn s => s.step r (fun _ => op) turn.1 turn.2).observed none publish

end LaplaceNoiseExec

/-- No batch of the stream has failed so far. -/
def NoiseStream.Clean (st : NoiseStream) : Prop := ∀ e, .error e ∉ st.output

/-- All streams are at their end, and none has failed. -/
def System.Finished {ι : Type} (s : System ι) : Prop :=
  ∀ i, (s.streams i).input = [] ∧ (s.streams i).work = none ∧ (s.streams i).Clean

/-- The sum of the epsilons of debits, the newest of which comes first. -/
def epsilonSum {ι : Type} (r : F64.Rounding) (debits : List (Debit ι)) : F64 :=
  debits.foldr (fun d total => r.add total d.epsilon) (.fin 0)

/-- The sum of the epsilons of all granted debits, if there are any. -/
def System.epsilonDebited {ι : Type} (r : F64.Rounding) (s : System ι) : Option F64 :=
  match s.debits with
  | [] => none
  | debits => some (epsilonSum r debits)

/-- A partition has a batch with a tagged column. -/
def LaplaceNoiseExec.Tags (op : LaplaceNoiseExec)
    (input : BatchStream DataFusionError RecordBatch) : Prop :=
  ∃ batch, .ok batch ∈ input ∧ ∃ field ∈ batch.schema, op.tagged field.name = true

/-! ### What a stream is going to spend -/

/-- A positive double. -/
def Price (epsilon : F64) : Prop := ∃ q, epsilon = .fin q ∧ 0 < q ∧ epsilon.IsDouble

/-- Every epsilon is one. -/
def LaplaceNoiseExec.Valid (op : LaplaceNoiseExec) : Prop :=
  ∀ column epsilon sensitivity, op.dpColumns.lookup column = some (epsilon, sensitivity) →
    Price epsilon

namespace LaplaceNoiseExec
variable (op : LaplaceNoiseExec)

/-- The epsilon of one column of a batch. -/
def columnPrice (field : Field) : ℚ := (op.price field.name).toRat?.getD 0

def schemaPrice (schema : Schema) : ℚ := (schema.map op.columnPrice).sum

def itemPrice : Except DataFusionError RecordBatch → ℚ
  | .ok batch => op.schemaPrice batch.schema
  | .error _ => 0

def inputPrice (input : BatchStream DataFusionError RecordBatch) : ℚ := (input.map op.itemPrice).sum

/-- The columns to do and the batches to come. -/
def pending (st : NoiseStream) : ℚ :=
  (st.work.elim 0 fun w => op.schemaPrice (w.todo.map Prod.fst)) + op.inputPrice st.input

variable {op}

theorem ofBundle_valid {serde : SerdeJson} {bundle : ContractBundleHandle} {tenantId : String}
    {budget : PrivacyBudgetTracker} (h : ofBundle serde bundle tenantId budget = .ok op) :
    op.Valid := by
  intro column epsilon sensitivity hcolumn
  obtain ⟨⟨q, hq, hpos⟩, hdouble⟩ := ofBundle_epsilon h hcolumn
  refine ⟨q, ?_, hpos, hdouble⟩
  cases epsilon with
  | fin p => simpa [F64.toRat?] using hq
  | negZero =>
    obtain rfl : (0 : ℚ) = q := by simpa [F64.toRat?] using hq
    exact absurd hpos (lt_irrefl 0)
  | _ => exact absurd hq (by simp [F64.toRat?])

/-- What a constructor made has passed the check. -/
theorem valid_of_newWithBudget {serde : SerdeJson} {bundle : ContractBundleHandle}
    {tenantId : String} {budget : PrivacyBudgetTracker} {inner inner' : ExecutionPlan}
    (h : ExecutionPlan.newWithBudget serde bundle tenantId budget inner =
      .ok (.laplaceNoise op inner')) : op.Valid := by
  obtain ⟨⟨⟩, -, h⟩ := bind_eq_ok.mp h
  obtain ⟨built, hop, h⟩ := bind_eq_ok.mp h
  obtain ⟨rfl, -⟩ := ExecutionPlan.laplaceNoise.inj (Except.ok.inj h)
  exact ofBundle_valid hop

theorem columnPrice_nonneg (hop : op.Valid) (field : Field) : 0 ≤ op.columnPrice field := by
  rw [columnPrice, price]
  cases hlookup : op.dpColumns.lookup field.name with
  | none => exact le_refl 0
  | some params =>
    obtain ⟨q, heq, hpos, -⟩ := hop _ _ _ hlookup
    simpa [heq, F64.toRat?] using hpos.le

theorem columnPrice_pos_iff (hop : op.Valid) (field : Field) :
    0 < op.columnPrice field ↔ op.tagged field.name = true := by
  rw [columnPrice, price, tagged]
  cases hlookup : op.dpColumns.lookup field.name with
  | none => simp [F64.toRat?]
  | some params =>
    obtain ⟨q, heq, hpos, -⟩ := hop _ _ _ hlookup
    simpa [heq, F64.toRat?] using hpos

/-- A sum of prices is positive when one of them is. -/
theorem sum_pos_iff {α : Type} {f : α → ℚ} {l : List α} (hf : ∀ a ∈ l, 0 ≤ f a) :
    0 < (l.map f).sum ↔ ∃ a ∈ l, 0 < f a := by
  induction l with
  | nil => simp
  | cons a l ih =>
    obtain ⟨ha, hl⟩ := List.forall_mem_cons.mp hf
    have hsum : 0 ≤ (l.map f).sum := List.sum_nonneg (by simpa using hl)
    rw [List.map_cons, List.sum_cons, List.exists_mem_cons_iff, ← ih hl]
    constructor
    · intro h
      by_contra hnone
      push Not at hnone
      linarith
    · intro h
      cases h with
      | inl h => linarith
      | inr h => linarith

theorem inputPrice_pos_iff (hop : op.Valid) (input : BatchStream DataFusionError RecordBatch) :
    0 < op.inputPrice input ↔ op.Tags input := by
  have hschema : ∀ schema : Schema, 0 ≤ op.schemaPrice schema := fun schema =>
    List.sum_nonneg (by simpa using fun field _ => op.columnPrice_nonneg hop field)
  have hitem : ∀ item ∈ input, 0 ≤ op.itemPrice item := by
    intro item _
    cases item with
    | error e => exact le_refl 0
    | ok batch => exact hschema _
  rw [inputPrice, sum_pos_iff hitem]
  constructor
  · intro ⟨item, hmem, hpos⟩
    cases item with
    | error e => exact absurd hpos (lt_irrefl 0)
    | ok batch =>
      obtain ⟨field, hfield, hprice⟩ := (sum_pos_iff fun f _ => columnPrice_nonneg hop f).mp hpos
      exact ⟨batch, hmem, field, hfield, (columnPrice_pos_iff hop field).mp hprice⟩
  · intro ⟨batch, hmem, field, hfield, htagged⟩
    exact ⟨.ok batch, hmem, (sum_pos_iff fun f _ => columnPrice_nonneg hop f).mpr
      ⟨field, hfield, (columnPrice_pos_iff hop field).mpr htagged⟩⟩

end LaplaceNoiseExec

/-! ### One stream -/

section Sums
variable {ι : Type} {r : F64.Rounding} {debits : List (Debit ι)}

/-- To add a positive double to what is not negative gives something positive. -/
theorem Price.lt_add {epsilon x : F64} (h : Price epsilon) (hx : (F64.fin 0).le x = true) :
    (F64.fin 0).lt (r.add x epsilon) = true := by
  obtain ⟨q, rfl, hq, hdouble⟩ := h
  have hprice : (F64.fin 0).lt (.fin q) = true := by
    rw [F64.lt_finite (x := .fin 0) (y := .fin q) rfl rfl]
    exact decide_eq_true hq
  have hround : ∀ p : ℚ, 0 ≤ p → (F64.fin 0).lt (r.round (p + q)) = true := by
    intro p hp
    have hle := r.mono (le_add_of_nonneg_left hp : q ≤ p + q)
    rw [r.keeps hdouble] at hle
    exact F64.lt_of_lt_of_le hprice hle
  cases x with
  | fin p =>
    rw [F64.le_finite (x := .fin 0) (y := .fin p) rfl rfl] at hx
    exact hround p (of_decide_eq_true hx)
  | negZero => exact hround 0 le_rfl
  | inf negative =>
    cases negative with
    | false => rfl
    | true => cases hx
  | nan => cases hx

theorem epsilonSum_cons (r : F64.Rounding) (d : Debit ι) (debits : List (Debit ι)) :
    epsilonSum r (d :: debits) = r.add (epsilonSum r debits) d.epsilon := rfl

theorem epsilonSum_nonneg (h : ∀ d ∈ debits, Price d.epsilon) :
    (F64.fin 0).le (epsilonSum r debits) = true := by
  induction debits with
  | nil => rfl
  | cons d debits ih =>
    obtain ⟨hd, hdebits⟩ := List.forall_mem_cons.mp h
    exact F64.le_of_lt (hd.lt_add (ih hdebits))

/-- The sum is positive exactly when there is something to sum up. -/
theorem epsilonSum_pos_iff (h : ∀ d ∈ debits, Price d.epsilon) :
    (F64.fin 0).lt (epsilonSum r debits) = true ↔ debits ≠ [] := by
  cases debits with
  | nil => exact iff_of_false Bool.false_ne_true fun h => h rfl
  | cons d debits =>
    obtain ⟨hd, hdebits⟩ := List.forall_mem_cons.mp h
    exact iff_of_true (hd.lt_add (epsilonSum_nonneg hdebits)) (List.cons_ne_nil _ _)

theorem epsilonSum_exact (h : ∀ d ∈ debits, Price d.epsilon) :
    epsilonSum .exact debits = .fin (debits.map Debit.amount).sum := by
  induction debits with
  | nil => rfl
  | cons d debits ih =>
    obtain ⟨⟨q, hq, -⟩, hdebits⟩ := List.forall_mem_cons.mp h
    rw [epsilonSum_cons, ih hdebits, hq, List.map_cons, List.sum_cons, add_comm, Debit.amount, hq]
    rfl

theorem Price.amount_pos {d : Debit ι} (h : Price d.epsilon) : 0 < d.amount := by
  obtain ⟨q, hq, hpos, -⟩ := h
  rw [Debit.amount, hq]
  exact hpos

end Sums

/-- The sum of a stream is that of its own debits, whose price leaves that of what it has yet
to do. -/
structure Accounted (r : F64.Rounding) (op : LaplaceNoiseExec)
    (input : BatchStream DataFusionError RecordBatch) {ι : Type} (st : NoiseStream)
    (own : List (Debit ι)) : Prop where
  total : st.totalEpsilon = epsilonSum r own
  rest : (own.map Debit.amount).sum + op.pending st = op.inputPrice input

/-- If stream `st` has not failed since, it is the one whose sum `x` is in the cell. -/
def Reporter (r : F64.Rounding) {ι : Type} (x : F64) (st : NoiseStream) (own : List (Debit ι)) :
    Prop :=
  st.Clean → own ≠ [] ∧ (st.work = none → x = epsilonSum r own)

/-- There was nothing to report between two batches of a stream. -/
def Unreported {ι : Type} (st : NoiseStream) (own : List (Debit ι)) : Prop :=
  st.Clean → st.work = none → own = []

section Stream
variable {ι : Type} {r : F64.Rounding} {op : LaplaceNoiseExec}
variable {input : BatchStream DataFusionError RecordBatch} {st : NoiseStream}
variable {own : List (Debit ι)}

theorem NoiseStream.clean_emit_ok (batch : RecordBatch) : (st.emit (.ok batch)).Clean ↔ st.Clean := by
  simp [Clean, emit]

theorem NoiseStream.not_clean_emit_error (e : DataFusionError) : ¬(st.emit (.error e)).Clean :=
  fun h => h e (by simp [emit])

/-- A poll spends nothing. -/
theorem Accounted.poll (hwork : st.work = none) (h : st.Clean → Accounted r op input st own)
    (hclean : (st.poll op).Clean) : st.Clean ∧ Accounted r op input (st.poll op) own := by
  rw [NoiseStream.poll] at hclean ⊢
  split at hclean
  · exact ⟨hclean, h hclean⟩
  · exact absurd hclean (NoiseStream.not_clean_emit_error _)
  · rename_i batch rest hinput
    split at hclean
    · rename_i hempty
      have hst : st.Clean := (NoiseStream.clean_emit_ok batch).mp hclean
      have hprice : op.schemaPrice batch.schema = 0 := by
        rw [schemaPrice]
        refine List.sum_eq_zero fun q hq => ?_
        obtain ⟨field, -, rfl⟩ := List.mem_map.mp hq
        simp [columnPrice, price, Dict.isEmpty_iff.mp hempty, F64.toRat?]
      refine ⟨hst, ?_⟩
      rw [if_pos hempty]
      refine ⟨(h hst).total, ?_⟩
      have hrest := (h hst).rest
      simpa [pending, inputPrice, itemPrice, hwork, hinput, hprice, NoiseStream.emit] using hrest
    · rename_i hempty
      refine ⟨hclean, ?_⟩
      rw [if_neg hempty]
      refine ⟨(h hclean).total, ?_⟩
      have hrest := (h hclean).rest
      have hschema : (batch.schema.zip batch.columns).map Prod.fst = batch.schema :=
        List.map_fst_zip batch.fits.length_eq.le
      simpa [pending, inputPrice, itemPrice, hwork, hinput, hschema] using hrest

/-- Emitting a batch spends nothing. -/
theorem Accounted.emit {batch batch' : RecordBatch} {done : List ArrayRef}
    (hwork : st.work = some ⟨batch, [], done⟩) (h : Accounted r op input st own) :
    Accounted r op input (st.emit (.ok batch')) own where
  total := h.total
  rest := by
    have hrest := h.rest
    simpa [pending, hwork, schemaPrice, NoiseStream.emit] using hrest

/-- A noised column costs its price. -/
theorem Accounted.advance {batch : RecordBatch} {field : Field} {col noised : ArrayRef}
    {todo : List (Field × ArrayRef)} {done : List ArrayRef} {total : F64} {own' : List (Debit ι)}
    (hwork : st.work = some ⟨batch, (field, col) :: todo, done⟩) (h : Accounted r op input st own)
    (htotal : total = epsilonSum r own')
    (hown : (own'.map Debit.amount).sum = op.columnPrice field + (own.map Debit.amount).sum) :
    Accounted r op input (st.advance ⟨batch, todo, done⟩ (.ok noised) total) own' where
  total := htotal
  rest := by
    have hrest := h.rest
    simp only [pending, hwork, schemaPrice, Option.elim_some, List.map_cons, List.sum_cons] at hrest
    simp only [pending, NoiseStream.advance, schemaPrice, Option.elim_some, hown]
    linarith

end Stream

/-! ### Runs -/

section Metered
variable {ι : Type} [DecidableEq ι] {r : F64.Rounding} {op : LaplaceNoiseExec}
variable {inputs : ι → BatchStream DataFusionError RecordBatch}

/-- The debits for one stream. -/
def ownDebits (i : ι) (debits : List (Debit ι)) : List (Debit ι) :=
  debits.filter fun d => d.stream = i

theorem ownDebits_cons_self {i : ι} {d : Debit ι} (h : d.stream = i) (debits : List (Debit ι)) :
    ownDebits i (d :: debits) = d :: ownDebits i debits :=
  List.filter_cons_of_pos (by simpa using h)

theorem ownDebits_cons_of_ne {i : ι} {d : Debit ι} (h : d.stream ≠ i) (debits : List (Debit ι)) :
    ownDebits i (d :: debits) = ownDebits i debits :=
  List.filter_cons_of_neg (by simpa using h)

theorem forall_mem_ownDebits {P : Debit ι → Prop} {debits : List (Debit ι)}
    (h : ∀ d ∈ debits, P d) (i : ι) : ∀ d ∈ ownDebits i debits, P d :=
  fun d hd => h d (List.mem_of_mem_filter hd)

/-- What holds in every state of a run. -/
structure Metered (r : F64.Rounding) (op : LaplaceNoiseExec)
    (inputs : ι → BatchStream DataFusionError RecordBatch) (s : System ι × Option F64) : Prop where
  prices : ∀ d ∈ s.1.debits, Price d.epsilon
  accounted : ∀ i, (s.1.streams i).Clean →
    Accounted r op (inputs i) (s.1.streams i) (ownDebits i s.1.debits)
  unreported : s.2 = none → ∀ i, Unreported (s.1.streams i) (ownDebits i s.1.debits)
  reported : ∀ x, s.2 = some x → ∃ i, Reporter r x (s.1.streams i) (ownDebits i s.1.debits)

theorem Metered.start : Metered r op inputs (metered r op inputs).start where
  prices := fun d hd => absurd hd List.not_mem_nil
  accounted := fun i _ => ⟨rfl, by simp [pending, System.start, NoiseStream.start, metered,
    Machine.observed, Machine.always, ownDebits]⟩
  unreported := fun _ _ _ _ => rfl
  reported := fun x hx => by cases hx

variable {s : System ι} {cell : Option F64}

/-- Stream `i` moves, debits for it are logged, and the cell changes on its account if at all. -/
theorem Metered.update (h : Metered r op inputs (s, cell)) {i : ι} {st : NoiseStream}
    {budget : PrivacyBudgetTracker} {debits : List (Debit ι)} {cell' : Option F64}
    (hprices : ∀ d ∈ debits, Price d.epsilon)
    (hothers : ∀ j, j ≠ i → ownDebits j debits = ownDebits j s.debits)
    (haccounted : st.Clean → Accounted r op (inputs i) st (ownDebits i debits))
    (hunreported : cell' = none → cell = none ∧ Unreported st (ownDebits i debits))
    (hreported : ∀ x, cell' = some x → Reporter r x st (ownDebits i debits) ∨ (cell = some x ∧
      (Reporter r x (s.streams i) (ownDebits i s.debits) → Reporter r x st (ownDebits i debits)))) :
    Metered r op inputs (⟨budget, Function.update s.streams i st, debits⟩, cell') where
  prices := hprices
  accounted := fun j => by
    show (Function.update s.streams i st j).Clean →
      Accounted r op (inputs j) (Function.update s.streams i st j) (ownDebits j debits)
    rcases eq_or_ne j i with rfl | hj
    · rw [Function.update_self]
      exact haccounted
    · rw [Function.update_of_ne hj, hothers j hj]
      exact h.accounted j
  unreported := fun hnone j => by
    obtain ⟨hcell, hst⟩ := hunreported hnone
    show Unreported (Function.update s.streams i st j) (ownDebits j debits)
    rcases eq_or_ne j i with rfl | hj
    · rw [Function.update_self]
      exact hst
    · rw [Function.update_of_ne hj, hothers j hj]
      exact h.unreported hcell j
  reported := fun x hx => by
    cases hreported x hx with
    | inl hst =>
      refine ⟨i, ?_⟩
      show Reporter r x (Function.update s.streams i st i) (ownDebits i debits)
      rwa [Function.update_self]
    | inr hkeep =>
      obtain ⟨j, hj⟩ := h.reported x hkeep.1
      refine ⟨j, ?_⟩
      show Reporter r x (Function.update s.streams i st j) (ownDebits j debits)
      rcases eq_or_ne j i with rfl | hne
      · rw [Function.update_self]
        exact hkeep.2 hj
      · rwa [Function.update_of_ne hne, hothers j hne]

/-- A turn that polls. -/
theorem Metered.poll (h : Metered r op inputs (s, cell)) {i : ι}
    (hwork : (s.streams i).work = none) :
    Metered r op inputs (s.put i ((s.streams i).poll op), cell) := by
  have hpoll := fun hclean => Accounted.poll hwork (h.accounted i) hclean
  refine h.update h.prices (fun _ _ => rfl) (fun hclean => (hpoll hclean).2) ?_ ?_
  · exact fun hcell => ⟨hcell, fun hclean _ => h.unreported hcell i (hpoll hclean).1 hwork⟩
  · intro x hx
    refine .inr ⟨hx, fun hrep hclean => ?_⟩
    obtain ⟨hpos, hsum⟩ := hrep (hpoll hclean).1
    exact ⟨hpos, fun _ => hsum hwork⟩

/-- A turn that emits a batch, and reports. -/
theorem Metered.emit (h : Metered r op inputs (s, cell)) {i : ι} {batch : RecordBatch}
    {done : List ArrayRef} (hwork : (s.streams i).work = some ⟨batch, [], done⟩)
    (draws : Nat → Draw) :
    Metered r op inputs (s.put i ((s.streams i).emit
      ((rebuild batch done).mapError (.operator "LaplaceNoiseExec"))), publish (i, draws) s cell) := by
  have hpublish : publish (i, draws) s cell = match rebuild batch done with
      | .ok _ => if (F64.fin 0).lt (s.streams i).totalEpsilon then
          some (s.streams i).totalEpsilon else cell
      | .error _ => cell := by
    rw [publish, hwork]
  cases hrebuild : rebuild batch done with
  | error e =>
    have hfail : ∀ P : Prop, ((s.streams i).emit ((Except.error e : Except PhysicalError
        RecordBatch).mapError (.operator "LaplaceNoiseExec"))).Clean → P :=
      fun P hclean => absurd hclean (NoiseStream.not_clean_emit_error _)
    rw [hpublish, hrebuild]
    exact h.update h.prices (fun _ _ => rfl) (hfail _)
      (fun hcell => ⟨hcell, hfail _⟩) (fun x hx => .inr ⟨hx, fun _ => hfail _⟩)
  | ok batch' =>
    have hclean : ((s.streams i).emit ((Except.ok batch' : Except PhysicalError
        RecordBatch).mapError (.operator "LaplaceNoiseExec"))).Clean → (s.streams i).Clean :=
      (NoiseStream.clean_emit_ok batch').mp
    have hsum : (s.streams i).Clean →
        ((F64.fin 0).lt (s.streams i).totalEpsilon = true ↔ ownDebits i s.debits ≠ []) :=
      fun hst => by
        rw [(h.accounted i hst).total]
        exact epsilonSum_pos_iff (forall_mem_ownDebits h.prices i)
    rw [hpublish, hrebuild]
    refine h.update h.prices (fun _ _ => rfl)
      (fun hst => (h.accounted i (hclean hst)).emit hwork) ?_ ?_
    · intro hcell
      simp only at hcell
      split at hcell
      · cases hcell
      · rename_i hle
        exact ⟨hcell, fun hst _ => not_not.mp fun hown => hle ((hsum (hclean hst)).mpr hown)⟩
    · intro x hx
      simp only at hx
      split at hx
      · rename_i hlt
        refine .inl fun hst => ⟨(hsum (hclean hst)).mp hlt, fun _ => ?_⟩
        rw [← (h.accounted i (hclean hst)).total]
        exact (Option.some.inj hx).symm
      · rename_i hle
        refine .inr ⟨hx, fun hrep hst => ?_⟩
        exact absurd ((hsum (hclean hst)).mpr (hrep (hclean hst)).1) hle

/-- A turn that takes a column. -/
theorem Metered.column (hop : op.Valid) (h : Metered r op inputs (s, cell)) {i : ι}
    {batch : RecordBatch} {field : Field} {col : ArrayRef} {todo : List (Field × ArrayRef)}
    {done : List ArrayRef}
    (hwork : (s.streams i).work = some ⟨batch, (field, col) :: todo, done⟩) (draws : Nat → Draw) :
    Metered r op inputs (s.step r (fun _ => op) i draws, cell) := by
  have hfail : ∀ (e : PhysicalError) (total : F64) (P : Prop),
      ((s.streams i).advance ⟨batch, todo, done⟩ (.error e) total).Clean → P :=
    fun e total P hclean => absurd hclean (NoiseStream.not_clean_emit_error _)
  rcases op.noiseField_cases r draws field col ⟨s.budget, (s.streams i).totalEpsilon⟩ with
    ⟨hlookup, hnoise⟩ | ⟨epsilon, sensitivity, hlookup, ⟨remaining, budget, hconsume, hnoise⟩ |
      ⟨budget, result, total, hconsume, hnoise, htotal⟩⟩
  · -- An untagged column is free.
    have hgranted : System.granted r op i (s.streams i).output.length done.length field s.budget = [] := by
      rw [System.granted, hlookup]
    have hprice : op.columnPrice field = 0 := by simp [columnPrice, price, hlookup, F64.toRat?]
    simp only [System.step, hwork, hnoise, hgranted, List.nil_append]
    refine h.update h.prices (fun _ _ => rfl) (fun hclean => ?_) ?_ ?_
    · have hacc := h.accounted i hclean
      exact hacc.advance hwork hacc.total (by rw [hprice, zero_add])
    · exact fun hcell => ⟨hcell, fun _ hidle => by cases hidle⟩
    · exact fun x hx => .inr ⟨hx, fun hrep hclean => ⟨(hrep hclean).1, fun hidle => by cases hidle⟩⟩
  · have hgranted : System.granted r op i (s.streams i).output.length done.length field s.budget = [] := by
      simp only [System.granted, hlookup, hconsume]
    simp only [System.step, hwork, hnoise, hgranted, List.nil_append]
    exact h.update h.prices (fun _ _ => rfl) (hfail _ _ _)
      (fun hcell => ⟨hcell, hfail _ _ _⟩) fun x hx => .inr ⟨hx, fun _ => hfail _ _ _⟩
  · have hprice := hop _ _ _ hlookup
    let d : Debit ι :=
      ⟨i, (s.streams i).output.length, done.length, (op.tenantId, field.name), epsilon⟩
    have hgranted :
        System.granted r op i (s.streams i).output.length done.length field s.budget = [d] := by
      simp only [System.granted, hlookup, hconsume]
      rfl
    have hown : ownDebits i (d :: s.debits) = d :: ownDebits i s.debits := ownDebits_cons_self rfl _
    have hothers : ∀ j, j ≠ i → ownDebits j (d :: s.debits) = ownDebits j s.debits :=
      fun j hj => ownDebits_cons_of_ne hj.symm _
    simp only [System.step, hwork, hnoise, hgranted, List.singleton_append]
    refine h.update (List.forall_mem_cons.mpr ⟨hprice, h.prices⟩) hothers ?_ ?_ ?_
    · rw [hown]
      intro hclean
      cases result with
      | error e => exact hfail e total _ hclean
      | ok noised =>
        have hacc := h.accounted i hclean
        refine hacc.advance hwork ?_ ?_
        · rw [htotal, epsilonSum_cons, ← hacc.total]
        · rw [List.map_cons, List.sum_cons, columnPrice, price, hlookup]
          rfl
    · intro hcell
      refine ⟨hcell, fun hclean hidle => ?_⟩
      cases result with
      | error e => exact hfail e total _ hclean
      | ok noised => cases hidle
    · intro x hx
      refine .inr ⟨hx, fun hrep hclean => ?_⟩
      cases result with
      | error e => exact hfail e total _ hclean
      | ok noised =>
        rw [hown]
        exact ⟨List.cons_ne_nil _ _, fun hidle => by cases hidle⟩

/-- **One turn**, whoever takes it. -/
theorem metered_step (hop : op.Valid) (turn : ι × (Nat → Draw)) (s s' : System ι × Option F64)
    (h : Metered r op inputs s) (hstep : (metered r op inputs).step turn s = some s') :
    Metered r op inputs s' := by
  obtain ⟨i, draws⟩ := turn
  obtain ⟨s, cell⟩ := s
  obtain ⟨s', cell'⟩ := s'
  obtain ⟨hs, hcell⟩ := Machine.observed_step hstep
  obtain rfl : s.step r (fun _ => op) i draws = s' := Option.some.inj hs
  obtain rfl : cell' = publish (i, draws) s cell := hcell
  cases hwork : (s.streams i).work with
  | none =>
    have hpublish : publish (i, draws) s cell = cell := by rw [publish, hwork]
    rw [hpublish, System.step, hwork]
    exact h.poll hwork
  | some w =>
    obtain ⟨batch, todo, done⟩ := w
    cases todo with
    | nil =>
      rw [System.step, hwork]
      exact h.emit hwork draws
    | cons column todo =>
      have hpublish : publish (i, draws) s cell = cell := by rw [publish, hwork]
      rw [hpublish]
      exact h.column hop hwork draws

theorem metered_run (hop : op.Valid) {schedule : List (ι × (Nat → Draw))}
    {s : System ι × Option F64} (h : (metered r op inputs).Runs schedule s) : Metered r op inputs s :=
  Machine.exec_invariant (metered_step hop) .start h

omit [DecidableEq ι] in
/-- What is published is positive. -/
theorem publish_pos {turn : ι × (Nat → Draw)} {x : F64} (h : publish turn s cell = some x) :
    cell = some x ∨ (F64.fin 0).lt x = true := by
  rw [publish] at h
  split at h
  · split at h
    · split at h
      · rename_i hlt
        exact .inr (Option.some.inj h ▸ hlt)
      · exact .inl h
    · exact .inl h
  · exact .inl h

/-- **What the operator reports is positive**, whenever it is asked. -/
theorem cell_positive {schedule : List (ι × (Nat → Draw))}
    (h : (metered r op inputs).Runs schedule (s, cell)) {x : F64} (hx : cell = some x) :
    (F64.fin 0).lt x = true := by
  have hstep : ∀ turn (s s' : System ι × Option F64),
      (∀ x, s.2 = some x → (F64.fin 0).lt x = true) →
        (metered r op inputs).step turn s = some s' → ∀ x, s'.2 = some x → (F64.fin 0).lt x = true := by
    intro turn s s' hcell hstep x hx
    obtain ⟨-, hpublished⟩ := Machine.observed_step hstep
    rw [hpublished] at hx
    exact (publish_pos hx).elim (hcell x) id
  exact Machine.exec_invariant hstep (fun _ hx => by cases hx) h x hx

/-! ### The end of a run -/

/-- A stream at its end has paid the price of its input. -/
theorem Metered.paid_eq (h : Metered r op inputs (s, cell)) (hfinished : s.Finished) (i : ι) :
    ((ownDebits i s.debits).map Debit.amount).sum = op.inputPrice (inputs i) := by
  obtain ⟨hinput, hwork, hclean⟩ := hfinished i
  have hrest := (h.accounted i hclean).rest
  simpa [pending, inputPrice, hinput, hwork] using hrest

theorem ownDebits_ne_nil_iff {i : ι} {debits : List (Debit ι)} :
    ownDebits i debits ≠ [] ↔ ∃ d ∈ debits, d.stream = i := by
  rw [ownDebits, ne_eq, List.filter_eq_nil_iff]
  simp

omit [DecidableEq ι] in
theorem sum_amount_pos_iff {debits : List (Debit ι)} (h : ∀ d ∈ debits, Price d.epsilon) :
    0 < (debits.map Debit.amount).sum ↔ debits ≠ [] := by
  rw [sum_pos_iff fun d hd => (h d hd).amount_pos.le]
  constructor
  · rintro ⟨d, hd, -⟩ rfl
    cases hd
  · intro hne
    obtain ⟨d, hd⟩ := List.exists_mem_of_ne_nil _ hne
    exact ⟨d, hd, (h d hd).amount_pos⟩

theorem Metered.debited_iff (hop : op.Valid) (h : Metered r op inputs (s, cell))
    (hfinished : s.Finished) (i : ι) : (∃ d ∈ s.debits, d.stream = i) ↔ op.Tags (inputs i) := by
  rw [← inputPrice_pos_iff hop, ← h.paid_eq hfinished i,
    sum_amount_pos_iff (forall_mem_ownDebits h.prices i), ownDebits_ne_nil_iff]

/-- The cell is empty exactly when nothing was debited; else it holds the sum of one stream. -/
theorem Metered.cell_cases (h : Metered r op inputs (s, cell)) (hfinished : s.Finished) :
    (cell = none ∧ s.debits = []) ∨
      ∃ i, cell = some (epsilonSum r (ownDebits i s.debits)) ∧ ∃ d ∈ s.debits, d.stream = i := by
  cases hcell : cell with
  | none =>
    refine .inl ⟨rfl, List.eq_nil_iff_forall_not_mem.mpr fun d hd => ?_⟩
    exact ownDebits_ne_nil_iff.mpr ⟨d, hd, rfl⟩
      (h.unreported hcell d.stream (hfinished d.stream).2.2 (hfinished d.stream).2.1)
  | some x =>
    obtain ⟨i, hi⟩ := h.reported x hcell
    obtain ⟨hown, hsum⟩ := hi (hfinished i).2.2
    exact .inr ⟨i, congrArg some (hsum (hfinished i).2.1), ownDebits_ne_nil_iff.mp hown⟩

/-- What one stream has spent, without rounding, is all that was spent only if all debits are
its own. -/
theorem sum_ownDebits_eq_iff {debits : List (Debit ι)} (h : ∀ d ∈ debits, Price d.epsilon) (i : ι) :
    ((ownDebits i debits).map Debit.amount).sum = (debits.map Debit.amount).sum ↔
      ∀ d ∈ debits, d.stream = i := by
  rw [ownDebits, ← spent_eq_sum_filter, spent_eq_sum_iff fun d hd => (h d hd).amount_pos]

end Metered

/-- At most one partition has a batch with a tagged column. -/
def OneBusy {ι : Type} (op : LaplaceNoiseExec)
    (inputs : ι → BatchStream DataFusionError RecordBatch) : Prop :=
  ∀ i j, op.Tags (inputs i) → op.Tags (inputs j) → i = j

/-- **When epsilon is reported in full**: whatever the order of turns, `epsilon_consumed`
ends as the sum of the debits if at most one partition has a batch with a tagged column,
however sums are rounded; without rounding, only then. -/
theorem reported_iff {ι : Type} [DecidableEq ι] {serde : SerdeJson} {bundle : ContractBundleHandle}
    {tenantId : String} {budget : PrivacyBudgetTracker} {inner : ExecutionPlan}
    {op : LaplaceNoiseExec}
    (hbuild : ExecutionPlan.newWithBudget serde bundle tenantId budget inner =
      .ok (.laplaceNoise op inner)) (r : F64.Rounding)
    {inputs : ι → BatchStream DataFusionError RecordBatch} {schedule : List (ι × (Nat → Draw))}
    {s : System ι} {epsilonConsumed : Option F64}
    (hrun : (metered r op inputs).Runs schedule (s, epsilonConsumed)) (hfinished : s.Finished) :
    (OneBusy op inputs → epsilonConsumed = s.epsilonDebited r) ∧
      (r = .exact → epsilonConsumed = s.epsilonDebited r → OneBusy op inputs) := by
  have hvalid := valid_of_newWithBudget hbuild
  have h := metered_run hvalid hrun
  simp only [OneBusy, ← h.debited_iff hvalid hfinished]
  obtain ⟨hcell, hnone⟩ | ⟨i, hcell, hi⟩ := h.cell_cases hfinished
  · refine ⟨fun _ => by rw [hcell, System.epsilonDebited, hnone], fun _ _ => ?_⟩
    rw [hnone]
    exact fun i j ⟨d, hd, _⟩ => absurd hd List.not_mem_nil
  · have hdebited : s.epsilonDebited r = some (epsilonSum r s.debits) := by
      obtain ⟨d, hd, -⟩ := hi
      rw [System.epsilonDebited]
      split
      · rename_i hnil
        exact absurd hd (by simp [hnil])
      · rfl
    rw [hcell, hdebited, Option.some.injEq]
    constructor
    · intro hone
      have hall : ownDebits i s.debits = s.debits :=
        List.filter_eq_self.mpr fun d hd => decide_eq_true (hone d.stream i ⟨d, hd, rfl⟩ hi)
      rw [hall]
    · rintro rfl heq j k ⟨d, hd, hj⟩ ⟨d', hd', hk⟩
      rw [epsilonSum_exact (forall_mem_ownDebits h.prices i), epsilonSum_exact h.prices,
        F64.fin.injEq, sum_ownDebits_eq_iff h.prices] at heq
      rw [← hj, ← hk, heq d hd, heq d' hd']

/-! ### A salary in one partition and in two -/

/-- A stream at its end, as a check. -/
def NoiseStream.finished (st : NoiseStream) : Bool :=
  st.input.isEmpty && st.work.isNone && st.output.all Except.isOk

theorem System.finished_of {ι : Type} {s : System ι} (h : ∀ i, (s.streams i).finished = true) :
    s.Finished := by
  intro i
  have hi := h i
  simp only [NoiseStream.finished, Bool.and_eq_true, List.isEmpty_iff, Option.isNone_iff_eq_none,
    List.all_eq_true] at hi
  exact ⟨hi.1.1, hi.1.2, fun e he => Bool.false_ne_true (hi.2 _ he)⟩

/-- A batch of `salary` for some of two partitions. -/
def salaryInputs (busy : Bool → Bool) (i : Bool) : BatchStream DataFusionError RecordBatch :=
  if busy i then [.ok salaryBatch] else []

/-- Two partitions of one batch each, one after the other. -/
def salaryTurns : List (Bool × (Nat → Draw)) :=
  (List.replicate 3 true ++ List.replicate 3 false).map fun i => (i, fun _ => (.fin 0, .fin 0))

/-- What is left of the run. -/
def salaryEnd (busy : Bool → Bool) : System Bool × Option F64 :=
  salaryTurns.foldl
    (fun s turn => (s.1.step .nearest (fun _ => salaryExec) turn.1 turn.2, publish turn s.1 s.2))
    (System.start salaryExec.budget (salaryInputs busy), none)

theorem salaryEnd_runs (busy : Bool → Bool) :
    (metered .nearest salaryExec (salaryInputs busy)).Runs salaryTurns (salaryEnd busy) := rfl

theorem salaryEnd_finished (busy : Bool → Bool) : (salaryEnd busy).1.Finished := by
  have hcheck : ∀ first second, ∀ i,
      ((salaryEnd fun j => if j then first else second).1.streams i).finished = true := by
    decide +kernel
  have hbusy : busy = fun j => if j then busy true else busy false := by
    funext j
    cases j <;> rfl
  rw [hbusy]
  exact System.finished_of (hcheck _ _)

theorem salary_oneBusy : OneBusy salaryExec (salaryInputs id) := by
  have hbusy : ∀ i, salaryExec.Tags (salaryInputs id i) → i = true := by
    intro i ⟨batch, hbatch, _⟩
    cases i with
    | true => rfl
    | false => cases hbatch
  exact fun i j hi hj => (hbusy i hi).trans (hbusy j hj).symm

/-- One busy partition is reported in full. -/
theorem reported_iff_salary : (salaryEnd id).2 = (salaryEnd id).1.epsilonDebited .nearest :=
  (reported_iff salaryExec_build .nearest (salaryEnd_runs id) (salaryEnd_finished id)).1
    salary_oneBusy

/-- Two busy partitions debit two epsilons, of which one is reported. -/
theorem second_partition_hides_first :
    ExecutionPlan.newWithBudget salarySerde salaryBundle "acme" (.withEnforcement true salarySeeds)
      salarySource = .ok (.laplaceNoise salaryExec salarySource) ∧
    ∃ s epsilonConsumed,
      (metered .nearest salaryExec (salaryInputs fun _ => true)).Runs salaryTurns (s, epsilonConsumed) ∧
        s.Finished ∧ epsilonConsumed = some (.fin 1) ∧
        s.epsilonDebited .nearest = some (.fin 2) :=
  ⟨salaryExec_build, _, _, salaryEnd_runs _, salaryEnd_finished _, by decide +kernel,
    by decide +kernel⟩

end Griot.Physical
