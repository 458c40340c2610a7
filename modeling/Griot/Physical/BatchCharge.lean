import Griot.Budget.Debits
import Griot.Physical.LaplaceNoise

/-! What a batch costs.

The tagged columns of a batch are debited in order, each before it is noised. A batch that
fails gives nothing back, so it has cost nothing only if what was debited before is free
(`failed_unspent_iff`). One that succeeds debits every tagged column once, a name that
two columns share twice (`succeeded_charged`). -/
namespace Griot.Physical.LaplaceNoiseExec

open Lib Budget

variable (op : LaplaceNoiseExec)

def tagged (c : String) : Bool := (op.dpColumns.lookup c).isSome

/-- What a debit for a column is. -/
def price (c : String) : F64 := ((op.dpColumns.lookup c).map Prod.fst).getD (.fin 0)

/-- The columns that are debited, in order. -/
def charged (fields : List (Field × ArrayRef)) : List String :=
  (fields.map (fun p => p.1.name)).filter op.tagged

/-- The epsilon of debits on top of what was spent. -/
def owed (r : F64.Rounding) (cs : List String) (total : F64) : F64 :=
  cs.foldl (fun total c => r.add total (op.price c)) total

/-- The types the noise is for. -/
def Noisable (col : ArrayRef) : Prop := col.dataType = .float64 ∨ col.dataType = .int64

theorem charged_cons (field : Field) (col : ArrayRef) (rest : List (Field × ArrayRef)) :
    op.charged ((field, col) :: rest) =
      if op.tagged field.name then field.name :: op.charged rest else op.charged rest := by
  simp [charged, List.filter_cons]

/-! ### One column -/

/-- What becomes of a column: its type, its nulls and, if it is not tagged, its cells stay. -/
structure Kept (p : Field × ArrayRef) (col : ArrayRef) : Prop where
  type_eq : col.dataType = p.2.dataType
  nulls : col.cells.map Value.isNull = p.2.cells.map Value.isNull
  untagged : op.tagged p.1.name = false → col = p.2

theorem map_isNull_mapIdx (cells : List Value) (f : Nat → Value → Value)
    (h : ∀ i, ∀ v ∈ cells, (f i v).isNull = v.isNull) :
    (cells.mapIdx f).map Value.isNull = cells.map Value.isNull := by
  apply List.ext_getElem
  · simp
  · intro i hi hi'
    simp only [List.getElem_map, List.getElem_mapIdx]
    exact h i _ (List.getElem_mem _)

theorem applyLaplaceNoiseToColumn_noisable (r : F64.Rounding) {col : ArrayRef} (h : Noisable col)
    (draws : Nat → Draw) (colName : String) (scale : F64) : ∃ noised,
      applyLaplaceNoiseToColumn r draws col colName scale = .ok noised ∧
        noised.dataType = col.dataType ∧
        noised.cells.map Value.isNull = col.cells.map Value.isNull := by
  unfold applyLaplaceNoiseToColumn
  obtain hfloat | hint := h
  · rw [hfloat]
    refine ⟨_, rfl, rfl, map_isNull_mapIdx _ _ fun i v hv => ?_⟩
    have htyped := col.typed v hv
    rw [hfloat] at htyped
    cases v <;> first | rfl | simp [Value.hasType] at htyped
  · rw [hint]
    refine ⟨_, rfl, rfl, map_isNull_mapIdx _ _ fun i v hv => ?_⟩
    have htyped := col.typed v hv
    rw [hint] at htyped
    cases v <;> first | rfl | simp [Value.hasType] at htyped

theorem applyLaplaceNoiseToColumn_not_noisable (r : F64.Rounding) {col : ArrayRef}
    (h : ¬ Noisable col) (draws : Nat → Draw) (colName : String) (scale : F64) :
    ∃ e, applyLaplaceNoiseToColumn r draws col colName scale = .error e := by
  unfold applyLaplaceNoiseToColumn
  split
  · exact absurd (.inl ‹_›) h
  · exact absurd (.inr ‹_›) h
  · exact ⟨_, rfl⟩

variable {op} {r : F64.Rounding} {draws : Nat → Draw} {field : Field} {col : ArrayRef} {s : Spending}

theorem noiseField_untagged (h : op.tagged field.name = false) :
    op.noiseField r draws field col s = (.ok col, s) := by
  have hnone : op.dpColumns.lookup field.name = none := by simpa [tagged] using h
  rw [noiseField, hnone]

theorem lookup_of_tagged (h : op.tagged field.name = true) :
    ∃ sensitivity, op.dpColumns.lookup field.name = some (op.price field.name, sensitivity) := by
  obtain ⟨⟨epsilon, sensitivity⟩, hlookup⟩ := Option.isSome_iff_exists.1 h
  exact ⟨sensitivity, by simp [price, hlookup]⟩

variable (draws col s) in
theorem noiseField_refused (h : op.tagged field.name = true)
    (hrefuses : s.budget.Refuses r op.tenantId op.price field.name) :
    ∃ e, op.noiseField r draws field col s = (.error e, s) := by
  obtain ⟨sensitivity, hlookup⟩ := lookup_of_tagged h
  rw [noiseField, hlookup]
  simp only [PrivacyBudgetTracker.consume_of_refuses hrefuses]
  exact ⟨_, rfl⟩

variable (draws col s) in
/-- A granted debit is taken, whether the noise then works or not. -/
theorem noiseField_granted (h : op.tagged field.name = true)
    (hgrants : ¬ s.budget.Refuses r op.tenantId op.price field.name) :
    ∃ budget, s.budget.consume r op.tenantId field.name (op.price field.name) = (.ok (), budget) ∧
      PrivacyBudgetTracker.Debited r op.tenantId op.price field.name s.budget budget ∧
      ((Noisable col ∧ ∃ noised, op.Kept (field, col) noised ∧ op.noiseField r draws field col s =
          (.ok noised, ⟨budget, r.add s.totalEpsilon (op.price field.name)⟩)) ∨
        ¬ Noisable col ∧ ∃ e, op.noiseField r draws field col s = (.error e, {s with budget})) := by
  obtain ⟨sensitivity, hlookup⟩ := lookup_of_tagged h
  obtain ⟨budget, hconsume, hdebited⟩ := PrivacyBudgetTracker.consume_of_not_refuses hgrants
  refine ⟨budget, hconsume, hdebited, ?_⟩
  rw [noiseField, hlookup]
  simp only [hconsume]
  by_cases hnoisable : Noisable col
  · obtain ⟨noised, hnoised, htype, hnulls⟩ := applyLaplaceNoiseToColumn_noisable r
      hnoisable draws field.name (r.div sensitivity (op.price field.name))
    refine .inl ⟨hnoisable, noised, ⟨htype, hnulls, fun hnot => ?_⟩, by simp only [hnoised]⟩
    rw [h] at hnot
    cases hnot
  · obtain ⟨e, he⟩ := applyLaplaceNoiseToColumn_not_noisable r
      hnoisable draws field.name (r.div sensitivity (op.price field.name))
    exact .inr ⟨hnoisable, e, by simp only [he]⟩

/-! ### All columns -/

variable {draws : Nat → Nat → Draw} {fields : List (Field × ArrayRef)} {s s' : Spending}

theorem noiseFields_cons_ok {i : Nat} {field : Field} {col noised : ArrayRef} {s₁ : Spending}
    (h : op.noiseField r (draws i) field col s = (.ok noised, s₁)) (rest : List (Field × ArrayRef)) :
    op.noiseFields r draws i ((field, col) :: rest) s =
      ((op.noiseFields r draws (i + 1) rest s₁).1.map (noised :: ·),
        (op.noiseFields r draws (i + 1) rest s₁).2) := by
  rw [noiseFields, h]

theorem noiseFields_cons_error {i : Nat} {field : Field} {col : ArrayRef} {e : PhysicalError}
    {s₁ : Spending} (h : op.noiseField r (draws i) field col s = (.error e, s₁))
    (rest : List (Field × ArrayRef)) :
    op.noiseFields r draws i ((field, col) :: rest) s = (.error e, s₁) := by
  rw [noiseFields, h]

/-- A first column that is noised, or not tagged, and the others after it. -/
theorem noiseFields_cons_of_ok {i : Nat} {field : Field} {col noised : ArrayRef} {s₁ : Spending}
    (h : op.noiseField r (draws i) field col s = (.ok noised, s₁)) {rest : List (Field × ArrayRef)}
    {columns : List ArrayRef} (hall : op.noiseFields r draws i ((field, col) :: rest) s =
      (.ok columns, s')) : ∃ columns', columns = noised :: columns' ∧
        op.noiseFields r draws (i + 1) rest s₁ = (.ok columns', s') := by
  rw [noiseFields_cons_ok h] at hall
  rcases hrest : op.noiseFields r draws (i + 1) rest s₁ with ⟨e | columns', s₂⟩
  · simp [hrest, Except.map] at hall
  · simp only [hrest, Except.map, Prod.mk.injEq, Except.ok.injEq] at hall
    obtain ⟨rfl, rfl⟩ := hall
    exact ⟨columns', rfl, rfl⟩

theorem noiseFields_cons_of_error {i : Nat} {field : Field} {col noised : ArrayRef} {s₁ : Spending}
    (h : op.noiseField r (draws i) field col s = (.ok noised, s₁)) {rest : List (Field × ArrayRef)}
    {e : PhysicalError} (hall : op.noiseFields r draws i ((field, col) :: rest) s = (.error e, s')) :
    op.noiseFields r draws (i + 1) rest s₁ = (.error e, s') := by
  rw [noiseFields_cons_ok h] at hall
  rcases hrest : op.noiseFields r draws (i + 1) rest s₁ with ⟨e' | columns', s₂⟩
  · simp only [hrest, Except.map, Prod.mk.injEq, Except.error.injEq] at hall
    obtain ⟨rfl, rfl⟩ := hall
    rfl
  · simp [hrest, Except.map] at hall

/-- All columns noised: all of them debited. -/
theorem noiseFields_ok {columns : List ArrayRef} {i : Nat}
    (h : op.noiseFields r draws i fields s = (.ok columns, s')) :
    List.Forall₂ op.Kept fields columns ∧
      PrivacyBudgetTracker.chargeAll r op.tenantId op.price (op.charged fields) s.budget =
        (s'.budget, []) ∧
      s'.totalEpsilon = op.owed r (op.charged fields) s.totalEpsilon := by
  induction fields generalizing i s columns with
  | nil =>
    obtain ⟨hcolumns, rfl⟩ := Prod.mk.inj h
    obtain rfl := Except.ok.inj hcolumns
    exact ⟨.nil, rfl, rfl⟩
  | cons p rest ih =>
    obtain ⟨field, col⟩ := p
    rw [charged_cons]
    cases htagged : op.tagged field.name with
    | false =>
      obtain ⟨columns', rfl, hrest⟩ := noiseFields_cons_of_ok (noiseField_untagged htagged) h
      obtain ⟨hkept, hcharge, htotal⟩ := ih hrest
      exact ⟨.cons ⟨rfl, rfl, fun _ => rfl⟩ hkept, hcharge, htotal⟩
    | true =>
      by_cases hrefuses : s.budget.Refuses r op.tenantId op.price field.name
      · obtain ⟨e, he⟩ := noiseField_refused (draws i) col s htagged hrefuses
        rw [noiseFields_cons_error he] at h
        simp at h
      · obtain ⟨budget, hconsume, -, hfield⟩ :=
          noiseField_granted (draws i) col s htagged hrefuses
        obtain ⟨-, noised, hnoised, hfield⟩ | ⟨-, e, hfield⟩ := hfield
        · obtain ⟨columns', rfl, hrest⟩ := noiseFields_cons_of_ok hfield h
          obtain ⟨hkept, hcharge, htotal⟩ := ih hrest
          refine ⟨.cons hnoised hkept, ?_, htotal⟩
          rw [if_pos rfl, PrivacyBudgetTracker.chargeAll, hconsume]
          exact hcharge
        · rw [noiseFields_cons_error hfield] at h
          simp at h

/-- A column that fails: the ones before it debited, and it too unless its debit was refused. -/
theorem noiseFields_error {e : PhysicalError} {i : Nat}
    (h : op.noiseFields r draws i fields s = (.error e, s')) :
    ∃ before field col after budget, fields = before ++ (field, col) :: after ∧
      (∀ p ∈ before, op.tagged p.1.name = true → Noisable p.2) ∧ op.tagged field.name = true ∧
      PrivacyBudgetTracker.chargeAll r op.tenantId op.price (op.charged before) s.budget =
        (budget, []) ∧
      s'.totalEpsilon = op.owed r (op.charged before) s.totalEpsilon ∧
      (budget.Refuses r op.tenantId op.price field.name ∧ s'.budget = budget ∨
        ¬ budget.Refuses r op.tenantId op.price field.name ∧ ¬ Noisable col ∧
          budget.consume r op.tenantId field.name (op.price field.name) = (.ok (), s'.budget)) := by
  induction fields generalizing i s with
  | nil => cases (Prod.mk.inj h).1
  | cons p rest ih =>
    obtain ⟨field, col⟩ := p
    cases htagged : op.tagged field.name with
    | false =>
      have hrest := noiseFields_cons_of_error (noiseField_untagged htagged) h
      obtain ⟨before, field', col', after, budget, rfl, hnoisable, htagged', hcharge, htotal,
        hfails⟩ := ih hrest
      refine ⟨(field, col) :: before, field', col', after, budget, rfl, ?_, htagged', ?_, ?_, hfails⟩
      · rw [List.forall_mem_cons]
        exact ⟨fun hnot => absurd hnot (by simp [htagged]), hnoisable⟩
      · rw [charged_cons, htagged]
        exact hcharge
      · rw [charged_cons, htagged]
        exact htotal
    | true =>
      by_cases hrefuses : s.budget.Refuses r op.tenantId op.price field.name
      · obtain ⟨e', he'⟩ := noiseField_refused (draws i) col s htagged hrefuses
        rw [noiseFields_cons_error he'] at h
        obtain ⟨-, rfl⟩ := Prod.mk.inj h
        exact ⟨[], field, col, rest, s.budget, rfl, by simp, htagged, rfl, rfl, .inl ⟨hrefuses, rfl⟩⟩
      · obtain ⟨budget₁, hconsume, -, hfield⟩ :=
          noiseField_granted (draws i) col s htagged hrefuses
        obtain ⟨hcol, noised, -, hfield⟩ | ⟨hcol, e', hfield⟩ := hfield
        · have hrest := noiseFields_cons_of_error hfield h
          obtain ⟨before, field', col', after, budget, rfl, hnoisable, htagged', hcharge, htotal,
            hfails⟩ := ih hrest
          refine ⟨(field, col) :: before, field', col', after, budget, rfl, ?_, htagged', ?_, ?_,
            hfails⟩
          · rw [List.forall_mem_cons]
            exact ⟨fun _ => hcol, hnoisable⟩
          · rw [charged_cons, htagged, if_pos rfl, PrivacyBudgetTracker.chargeAll, hconsume]
            exact hcharge
          · rw [charged_cons, htagged]
            exact htotal
        · rw [noiseFields_cons_error hfield] at h
          obtain ⟨-, rfl⟩ := Prod.mk.inj h
          exact ⟨[], field, col, rest, s.budget, rfl, by simp, htagged, rfl, rfl,
            .inr ⟨hrefuses, hcol, hconsume⟩⟩

variable (draws) in
/-- Where the first columns are free and can be noised, the others are taken with the balances
as they were. -/
theorem noiseFields_of_free {before : List (Field × ArrayRef)}
    (h : ∀ p ∈ before, op.tagged p.1.name = true →
      s.budget.Free r op.tenantId op.price p.1.name ∧ Noisable p.2)
    (rest : List (Field × ArrayRef)) (i : Nat) : ∃ budget, s.budget.Same budget ∧
      (op.noiseFields r draws i (before ++ rest) s).2 =
        (op.noiseFields r draws (i + before.length) rest
          ⟨budget, op.owed r (op.charged before) s.totalEpsilon⟩).2 := by
  induction before generalizing i s with
  | nil => exact ⟨s.budget, .refl _, rfl⟩
  | cons p before ih =>
    obtain ⟨field, col⟩ := p
    obtain ⟨hp, hbefore⟩ := List.forall_mem_cons.1 h
    have hlength : i + ((field, col) :: before).length = i + 1 + before.length := by
      rw [List.length_cons]
      omega
    rw [charged_cons, hlength, List.cons_append]
    cases htagged : op.tagged field.name with
    | false =>
      obtain ⟨budget, hsame, heq⟩ := ih hbefore (i + 1)
      rw [noiseFields_cons_ok (noiseField_untagged htagged)]
      exact ⟨budget, hsame, heq⟩
    | true =>
      obtain ⟨hfree, hcol⟩ := hp htagged
      obtain ⟨t, -, hdebited, hfield⟩ :=
        noiseField_granted (draws i) col s htagged hfree.1
      have hsame₁ := hdebited.same hfree
      obtain ⟨-, noised, -, hfield⟩ | ⟨hnot, -⟩ := hfield
      · obtain ⟨budget, hsame, heq⟩ := ih (s := ⟨t, r.add s.totalEpsilon (op.price field.name)⟩)
          (fun p hp htagged' =>
            ⟨(hsame₁.free_iff p.1.name).2 (hbefore p hp htagged').1, (hbefore p hp htagged').2⟩)
          (i + 1)
        rw [noiseFields_cons_ok hfield]
        exact ⟨budget, hsame₁.trans hsame, heq⟩
      · exact absurd hcol hnot

/-! ### A batch that fails -/

/-- Nothing was spent. -/
structure Unspent (s s' : Spending) : Prop where
  budget : ∀ key, s'.budget.balance key = s.budget.balance key
  total : s'.totalEpsilon = s.totalEpsilon

/-- The first column that is not free, or cannot be noised, fails without a debit that costs
something: it is refused, or free and of a type that cannot be noised. -/
def FailsFree (op : LaplaceNoiseExec) (r : F64.Rounding) (fields : List (Field × ArrayRef))
    (s : Spending) : Prop :=
  ∃ before field col after, fields = before ++ (field, col) :: after ∧
    (∀ p ∈ before, op.tagged p.1.name = true →
      s.budget.Free r op.tenantId op.price p.1.name ∧ Noisable p.2) ∧
    op.owed r (op.charged before) s.totalEpsilon = s.totalEpsilon ∧ op.tagged field.name = true ∧
    (s.budget.Refuses r op.tenantId op.price field.name ∨
      s.budget.Free r op.tenantId op.price field.name ∧ ¬ Noisable col)

theorem Kept.admits {numRows : Nat} {field : Field} {col col' : ArrayRef}
    (h : op.Kept (field, col) col') (hcol : Admits numRows field col) :
    Admits numRows field col' := by
  have hlength := congrArg List.length h.nulls
  rw [List.length_map, List.length_map] at hlength
  refine ⟨hlength.trans hcol.length_eq, ?_, h.type_eq.trans hcol.type_eq⟩
  intro hnullable hnull
  have htrue : true ∈ col.cells.map Value.isNull := by
    rw [← h.nulls]
    exact List.mem_map.2 ⟨.null, hnull, rfl⟩
  obtain ⟨v, hv, hisNull⟩ := List.mem_map.1 htrue
  obtain rfl := (Value.isNull_iff v).1 hisNull
  exact hcol.no_nulls hnullable hv

theorem kept_fits {numRows : Nat} {schema : Schema} {columns columns' : List ArrayRef}
    (hfits : List.Forall₂ (Admits numRows) schema columns)
    (h : List.Forall₂ op.Kept (schema.zip columns) columns') :
    List.Forall₂ (Admits numRows) schema columns' := by
  induction hfits generalizing columns' with
  | nil =>
    cases h
    exact .nil
  | cons hcol _ ih =>
    cases h with
    | cons hkept hrest => exact .cons (hkept.admits hcol) (ih hrest)

/-- The columns of a batch fit its schema after the noise. -/
theorem rebuild_ok {batch : RecordBatch} {columns : List ArrayRef}
    (h : List.Forall₂ op.Kept (batch.schema.zip batch.columns) columns)
    (hne : batch.schema.zip batch.columns ≠ []) :
    ∃ b, rebuild batch columns = .ok b ∧ b.columns = columns := by
  have hfits := kept_fits batch.fits h
  cases columns with
  | nil =>
    obtain hnil := List.forall₂_nil_right_iff.1 h
    exact absurd hnil hne
  | cons first rest =>
    cases hschema : batch.schema with
    | nil =>
      rw [hschema] at hfits
      cases hfits
    | cons field fields =>
      rw [hschema] at hfits
      have hlength : first.cells.length = batch.numRows := (List.forall₂_cons.1 hfits).1.length_eq
      have hok : RecordBatch.tryNew (field :: fields) (first :: rest) =
          .ok ⟨field :: fields, first :: rest, first.cells.length, hlength ▸ hfits⟩ :=
        dif_pos (hlength ▸ hfits)
      rw [rebuild, hschema, hok]
      exact ⟨_, rfl, rfl⟩

/-- What an error leaves is what the columns left. -/
theorem applyDpToBatch_error {batch : RecordBatch} {e : PhysicalError}
    (h : op.applyDpToBatch r draws batch s = (.error e, s')) :
    (batch.schema.zip batch.columns = [] ∧ s' = s) ∨
      ∃ e', op.noiseFields r draws 0 (batch.schema.zip batch.columns) s = (.error e', s') := by
  rw [applyDpToBatch] at h
  rcases hfields : op.noiseFields r draws 0 (batch.schema.zip batch.columns) s with ⟨e' | columns, s₁⟩
  · simp only [hfields, Prod.mk.injEq] at h
    obtain ⟨-, rfl⟩ := h
    exact .inr ⟨e', rfl⟩
  · simp only [hfields, Prod.mk.injEq] at h
    obtain ⟨hrebuild, rfl⟩ := h
    by_cases hne : batch.schema.zip batch.columns = []
    · rw [hne] at hfields
      exact .inl ⟨hne, (Prod.mk.inj hfields).2.symm⟩
    · obtain ⟨b, hb, -⟩ := rebuild_ok (noiseFields_ok hfields).1 hne
      rw [hb] at hrebuild
      cases hrebuild

theorem failsFree_of_unspent {e : PhysicalError} {i : Nat}
    (h : op.noiseFields r draws i fields s = (.error e, s')) (hunspent : Unspent s s') :
    FailsFree op r fields s := by
  obtain ⟨before, field, col, after, budget, hsplit, hnoisable, htagged, hcharge, htotal, hfails⟩ :=
    noiseFields_error h
  have hmem : ∀ p ∈ before, op.tagged p.1.name = true → p.1.name ∈ op.charged before :=
    fun p hp hp' => List.mem_filter.2 ⟨List.mem_map.2 ⟨p, hp, rfl⟩, hp'⟩
  refine ⟨before, field, col, after, hsplit, ?_⟩
  obtain ⟨hrefuses, hbudget⟩ | ⟨hgrants, hcol, hconsume⟩ := hfails
  · have hbalance : ∀ key, budget.balance key = s.budget.balance key :=
      fun key => hbudget ▸ hunspent.budget key
    have hfree := PrivacyBudgetTracker.all_free_of_unspent hcharge hbalance
    have hsame := PrivacyBudgetTracker.same_of_chargeAll hcharge hbalance
    exact ⟨fun p hp hp' => ⟨hfree _ (hmem p hp hp'), hnoisable p hp hp'⟩,
      htotal.symm.trans hunspent.total, htagged, .inl ((hsame.refuses_iff _).1 hrefuses)⟩
  · have hcharge' : PrivacyBudgetTracker.chargeAll r op.tenantId op.price
        (op.charged before ++ [field.name]) s.budget = (s'.budget, []) := by
      rw [PrivacyBudgetTracker.chargeAll_append, hcharge]
      simp only [PrivacyBudgetTracker.chargeAll, hconsume]
    have hfree := PrivacyBudgetTracker.all_free_of_unspent hcharge' hunspent.budget
    exact ⟨fun p hp hp' => ⟨hfree _ (List.mem_append_left _ (hmem p hp hp')), hnoisable p hp hp'⟩,
      htotal.symm.trans hunspent.total, htagged, .inr ⟨hfree _ (by simp), hcol⟩⟩

theorem unspent_of_failsFree {e : PhysicalError} {i : Nat}
    (h : op.noiseFields r draws i fields s = (.error e, s')) (hfails : FailsFree op r fields s) :
    Unspent s s' := by
  obtain ⟨before, field, col, after, hsplit, hfree, htotal, htagged, hfails⟩ := hfails
  have hstate := congrArg Prod.snd h
  obtain ⟨budget, hsame, heq⟩ := noiseFields_of_free draws hfree ((field, col) :: after) i
  rw [hsplit, heq, htotal] at hstate
  obtain hrefuses | ⟨hfreeField, hcol⟩ := hfails
  · obtain ⟨e', he'⟩ := noiseField_refused (draws (i + before.length)) col
      ⟨budget, s.totalEpsilon⟩ htagged ((hsame.refuses_iff _).2 hrefuses)
    rw [noiseFields_cons_error he'] at hstate
    subst hstate
    exact ⟨hsame.balance, rfl⟩
  · have hgrants : ¬ budget.Refuses r op.tenantId op.price field.name :=
      fun hrefuses => hfreeField.1 ((hsame.refuses_iff _).1 hrefuses)
    obtain ⟨t, -, hdebited, hfield⟩ := noiseField_granted (draws (i + before.length)) col
      ⟨budget, s.totalEpsilon⟩ htagged hgrants
    have hsame' := hsame.trans (hdebited.same ((hsame.free_iff _).2 hfreeField))
    obtain ⟨hnoisable, -⟩ | ⟨-, e', he'⟩ := hfield
    · exact absurd hnoisable hcol
    · rw [noiseFields_cons_error he'] at hstate
      subst hstate
      exact ⟨hsame'.balance, rfl⟩

/-- **A batch that fails has cost nothing exactly when it fails free.** -/
theorem failed_unspent_iff {batch : RecordBatch} {e : PhysicalError}
    (h : op.applyDpToBatch r draws batch s = (.error e, s')) :
    Unspent s s' ↔ batch.schema.zip batch.columns = [] ∨
      FailsFree op r (batch.schema.zip batch.columns) s := by
  obtain ⟨hnil, rfl⟩ | ⟨e', hfields⟩ := applyDpToBatch_error h
  · exact iff_of_true ⟨fun _ => rfl, rfl⟩ (.inl hnil)
  constructor
  · intro hunspent
    exact .inr (failsFree_of_unspent hfields hunspent)
  · intro hfails
    obtain hnil | hfails := hfails
    · rw [hnil] at hfields
      cases (Prod.mk.inj hfields).1
    · exact unspent_of_failsFree hfields hfails

/-! ### A batch that succeeds -/

theorem applyDpToBatch_ok {batch b : RecordBatch}
    (h : op.applyDpToBatch r draws batch s = (.ok b, s')) :
    op.noiseFields r draws 0 (batch.schema.zip batch.columns) s = (.ok b.columns, s') := by
  rw [applyDpToBatch] at h
  rcases hfields : op.noiseFields r draws 0 (batch.schema.zip batch.columns) s with ⟨e | columns, s₁⟩
  · simp [hfields] at h
  · simp only [hfields, Prod.mk.injEq] at h
    obtain ⟨hrebuild, rfl⟩ := h
    rw [rebuild] at hrebuild
    cases hnew : RecordBatch.tryNew batch.schema columns with
    | error e => simp [hnew, Except.mapError] at hrebuild
    | ok b' =>
      obtain rfl : b' = b := by simpa [hnew, Except.mapError] using hrebuild
      rw [(RecordBatch.tryNew_ok hnew).2]

/-- What a batch that succeeds has to do, by the sums of `q`: each tagged column's budget went down
by its epsilon and no other, the epsilon spent went up by all of theirs, and of the cells nothing
changed but those of tagged columns that are not null. -/
structure Charged (q : F64.Rounding) (op : LaplaceNoiseExec) (batch : RecordBatch) (s : Spending)
    (b : RecordBatch) (s' : Spending) : Prop where
  spent : ∀ c ∈ op.charged (batch.schema.zip batch.columns),
    s'.budget.remaining op.tenantId c = q.sub (s.budget.remaining op.tenantId c) (op.price c)
  others : ∀ key, (∀ c ∈ op.charged (batch.schema.zip batch.columns), key ≠ (op.tenantId, c)) →
    s'.budget.balance key = s.budget.balance key
  total : s'.totalEpsilon = op.owed q (op.charged (batch.schema.zip batch.columns)) s.totalEpsilon
  kept : List.Forall₂ op.Kept (batch.schema.zip batch.columns) b.columns

/-- No two columns of the batch share the name, or a second debit for it changes nothing. Without
enforcement the budget has no end, and an epsilon that is a number takes nothing off it. -/
def DebitedOnce (op : LaplaceNoiseExec) (r : F64.Rounding) (fields : List (Field × ArrayRef))
    (s : Spending) (c : String) : Prop :=
  if s.budget.enabled then
    (op.charged fields).count c = 1 ∨
      r.sub (r.sub (s.budget.balance (op.tenantId, c)) (op.price c)) (op.price c) =
        r.sub (s.budget.balance (op.tenantId, c)) (op.price c)
  else r.sub (.inf false) (op.price c) = .inf false

/-- No sum that a batch comes to is rounded. -/
structure Unrounded (op : LaplaceNoiseExec) (r : F64.Rounding) (fields : List (Field × ArrayRef))
    (s : Spending) : Prop where
  debits : ∀ c ∈ op.charged fields, r.sub (s.budget.remaining op.tenantId c) (op.price c) =
    F64.Rounding.exact.sub (s.budget.remaining op.tenantId c) (op.price c)
  total : op.owed r (op.charged fields) s.totalEpsilon =
    op.owed .exact (op.charged fields) s.totalEpsilon

/-- What is left for a tagged column after a batch that succeeds. -/
theorem remaining_after {batch b : RecordBatch} (h : op.applyDpToBatch r draws batch s = (.ok b, s'))
    (c : String) : s'.budget.remaining op.tenantId c =
      if s.budget.enabled then (fun z => r.sub z (op.price c))^[
        (op.charged (batch.schema.zip batch.columns)).count c] (s.budget.balance (op.tenantId, c))
      else .inf false := by
  have hcharge := (noiseFields_ok (applyDpToBatch_ok h)).2.1
  have henabled := PrivacyBudgetTracker.chargeAll_enabled r op.tenantId op.price
    (op.charged (batch.schema.zip batch.columns)) s.budget
  rw [hcharge] at henabled
  change s'.budget.enabled = s.budget.enabled at henabled
  rw [PrivacyBudgetTracker.remaining, henabled]
  cases hen : s.budget.enabled with
  | false => rfl
  | true => exact PrivacyBudgetTracker.chargeAll_balance hcharge hen c

/-- What is left is what one debit leaves, by the sums of the machine. -/
theorem spent_iff {batch b : RecordBatch} (h : op.applyDpToBatch r draws batch s = (.ok b, s'))
    {c : String} (hc : c ∈ op.charged (batch.schema.zip batch.columns)) :
    s'.budget.remaining op.tenantId c = r.sub (s.budget.remaining op.tenantId c) (op.price c) ↔
      DebitedOnce op r (batch.schema.zip batch.columns) s c := by
  obtain ⟨k, hk⟩ := Nat.exists_eq_add_of_lt (List.count_pos_iff.2 hc)
  rw [Nat.zero_add] at hk
  rw [remaining_after h, PrivacyBudgetTracker.remaining, DebitedOnce, hk]
  cases s.budget.enabled with
  | false => exact eq_comm
  | true =>
    simp only [Bool.not_true, Bool.false_eq_true, if_false, if_true]
    cases k with
    | zero => simp
    | succ k =>
      rw [Function.iterate_succ_apply, r.sub_iterate_eq_iff]
      simp

/-- What is left is what exactly one debit leaves. -/
theorem spent_exactly_iff {batch b : RecordBatch}
    (h : op.applyDpToBatch r draws batch s = (.ok b, s')) {c : String}
    (hc : c ∈ op.charged (batch.schema.zip batch.columns)) :
    s'.budget.remaining op.tenantId c =
        F64.Rounding.exact.sub (s.budget.remaining op.tenantId c) (op.price c) ↔
      r.sub (s.budget.remaining op.tenantId c) (op.price c) =
          F64.Rounding.exact.sub (s.budget.remaining op.tenantId c) (op.price c) ∧
        DebitedOnce op r (batch.schema.zip batch.columns) s c := by
  obtain ⟨k, hk⟩ := Nat.exists_eq_add_of_lt (List.count_pos_iff.2 hc)
  rw [Nat.zero_add] at hk
  rw [remaining_after h, PrivacyBudgetTracker.remaining, DebitedOnce, hk]
  cases s.budget.enabled with
  | false =>
    have hexact := r.sub_eq_exact (x := .inf false) (y := op.price c) (.inl rfl)
    simp only [Bool.not_false, if_true, Bool.false_eq_true, if_false]
    rw [hexact, eq_comm]
    exact (and_iff_right rfl).symm
  | true =>
    simp only [Bool.not_true, Bool.false_eq_true, if_false, if_true]
    rw [r.sub_iterate_eq_exact_iff]
    simp

/-- **A batch that succeeds debits what it has to** when it debits every name once, by the sums of
the machine; and exactly that when no sum is rounded besides. -/
theorem succeeded_charged {batch b : RecordBatch}
    (h : op.applyDpToBatch r draws batch s = (.ok b, s')) :
    (Charged r op batch s b s' ↔ ∀ c ∈ op.charged (batch.schema.zip batch.columns),
      DebitedOnce op r (batch.schema.zip batch.columns) s c) ∧
    (Charged .exact op batch s b s' ↔ Unrounded op r (batch.schema.zip batch.columns) s ∧
      ∀ c ∈ op.charged (batch.schema.zip batch.columns),
        DebitedOnce op r (batch.schema.zip batch.columns) s c) := by
  obtain ⟨hkept, hcharge, htotal⟩ := noiseFields_ok (applyDpToBatch_ok h)
  have hothers : ∀ key, (∀ c ∈ op.charged (batch.schema.zip batch.columns),
      key ≠ (op.tenantId, c)) → s'.budget.balance key = s.budget.balance key := by
    intro key hkey
    have hbalance := PrivacyBudgetTracker.chargeAll_balance_of_notMem r op.price hkey
      s.budget
    rwa [hcharge] at hbalance
  constructor
  · constructor
    · intro hcharged c hc
      exact (spent_iff h hc).1 (hcharged.spent c hc)
    · intro honce
      exact ⟨fun c hc => (spent_iff h hc).2 (honce c hc), hothers, htotal, hkept⟩
  · constructor
    · intro hcharged
      have hspent := fun c hc => (spent_exactly_iff h hc).1 (hcharged.spent c hc)
      exact ⟨⟨fun c hc => (hspent c hc).1, htotal.symm.trans hcharged.total⟩,
        fun c hc => (hspent c hc).2⟩
    · intro ⟨hunrounded, honce⟩
      exact ⟨fun c hc => (spent_exactly_iff h hc).2 ⟨hunrounded.debits c hc, honce c hc⟩, hothers,
        htotal.trans hunrounded.total, hkept⟩

/-- **A batch costs what it has to** when it fails exactly if it fails free, and when it succeeds
exactly if it debits every name once; to the last bit, if no sum is rounded besides. -/
theorem batch_charge_iff (op : LaplaceNoiseExec) (r : F64.Rounding) (draws : Nat → Nat → Draw)
    (batch : RecordBatch) (s : Spending) :
    match op.applyDpToBatch r draws batch s with
    | (.error _, s') => Unspent s s' ↔ batch.schema.zip batch.columns = [] ∨
        FailsFree op r (batch.schema.zip batch.columns) s
    | (.ok b, s') =>
      (Charged r op batch s b s' ↔ ∀ c ∈ op.charged (batch.schema.zip batch.columns),
        DebitedOnce op r (batch.schema.zip batch.columns) s c) ∧
      (Charged .exact op batch s b s' ↔ Unrounded op r (batch.schema.zip batch.columns) s ∧
        ∀ c ∈ op.charged (batch.schema.zip batch.columns),
          DebitedOnce op r (batch.schema.zip batch.columns) s c) := by
  rcases h : op.applyDpToBatch r draws batch s with ⟨e | b, s'⟩
  · exact failed_unspent_iff h
  · exact succeeded_charged h

/-! ### A column of text -/

/-- An operator that tags `grade`, with budget for one debit. -/
def gradeExec : LaplaceNoiseExec :=
  ⟨⟨[], "grades", "acme"⟩, .withEnforcement true (.ofList [(("acme", "grade"), .fin 1)]), "acme",
    .ofList [("grade", (.fin 1, .fin 1))]⟩

/-- One column, of text. -/
def gradeBatch : RecordBatch :=
  ⟨[⟨"grade", .utf8, true⟩], [⟨.utf8, [.utf8 "B"], by decide⟩], 1, by decide⟩

theorem gradeExec_applyDpToBatch :
    gradeExec.applyDpToBatch .nearest (fun _ _ => (.fin 0, .fin 0)) gradeBatch ⟨gradeExec.budget, .fin 0⟩ =
      (.error (.dpTypeUnsupported "grade" "Utf8"),
        ⟨gradeExec.budget.record ("acme", "grade") (F64.Rounding.nearest.sub (.fin 1) (.fin 1)),
          .fin 0⟩) := by
  have hgrants : ¬ gradeExec.budget.Refuses .nearest "acme" (fun _ => .fin 1) "grade" := by
    intro ⟨_, hlt⟩
    exact absurd hlt (by decide +kernel)
  have hconsume : gradeExec.budget.consume .nearest "acme" "grade" (.fin 1) =
      (.ok (), gradeExec.budget.record ("acme", "grade") (F64.Rounding.nearest.sub (.fin 1) (.fin 1))) := by
    obtain ⟨hlt, -⟩ | ⟨-, hgranted⟩ :=
      PrivacyBudgetTracker.consume_cases .nearest (t := gradeExec.budget) rfl "acme" "grade" (.fin 1)
    · exact absurd ⟨rfl, hlt⟩ hgrants
    · exact hgranted
  have hlookup : gradeExec.dpColumns.lookup "grade" = some (.fin 1, .fin 1) := rfl
  have htenant : gradeExec.tenantId = "acme" := rfl
  simp only [applyDpToBatch, gradeBatch, List.zip_cons_cons, List.zip_nil_right, noiseFields,
    noiseField, hlookup, htenant, hconsume]
  rfl

/-- **A batch that gives no row has paid for it.** -/
theorem failed_charged :
    ¬ ∀ (op : LaplaceNoiseExec) draws batch s, match op.applyDpToBatch .nearest draws batch s with
      | (.error _, s') => Unspent s s'
      | (.ok b, s') => Charged .nearest op batch s b s' := by
  intro h
  have hunspent := h gradeExec (fun _ _ => (.fin 0, .fin 0)) gradeBatch ⟨gradeExec.budget, .fin 0⟩
  rw [gradeExec_applyDpToBatch] at hunspent
  have hbalance := hunspent.budget ("acme", "grade")
  exact absurd hbalance (by decide +kernel)

end Griot.Physical.LaplaceNoiseExec
