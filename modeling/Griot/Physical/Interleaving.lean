import Griot.Budget.Account
import Griot.Physical.Plan

/-! Streams that share one tracker.

Any number of streams, each executed from the noise operator or from a copy of
it, take turns in any order. A turn polls a batch, pays for and noises one
column, or puts a batch together and emits it; a debit is one turn, since the
tracker is locked for it. Every granted debit is logged with the place it was
made for.

Over all runs whose sums are exact the tracker mirrors the log, so no key is overspent,
and a batch is emitted only when every tagged column of it was paid for
(`budget_conserved`). A stream that nothing interrupts does to a batch what
`apply_dp_to_batch` does (`run_batch`). -/
namespace Griot.Physical

open Lib Budget LaplaceNoiseExec

/-! ### Turns -/

/-- A granted debit: for which column of which batch of which stream, and what of. -/
structure Debit (ι : Type) where
  stream : ι
  batch : Nat
  field : Nat
  key : Key
  epsilon : F64

def Debit.amount {ι : Type} (d : Debit ι) : ℚ := d.epsilon.toRat?.getD 0

/-- A batch in the making: the columns to do and those done. -/
structure Work where
  batch : RecordBatch
  todo : List (Field × ArrayRef)
  done : List ArrayRef

structure NoiseStream where
  input : BatchStream DataFusionError RecordBatch
  work : Option Work
  totalEpsilon : F64
  output : BatchStream DataFusionError RecordBatch

namespace NoiseStream

/-- A stream that has not been polled yet. -/
def start (input : BatchStream DataFusionError RecordBatch) : NoiseStream :=
  ⟨input, none, .fin 0, []⟩

def emit (st : NoiseStream) (item : Except DataFusionError RecordBatch) : NoiseStream :=
  {st with work := none, output := st.output ++ [item]}

/-- Take the next item: errors pass through, and so does everything when nothing is tagged. -/
def poll (op : LaplaceNoiseExec) (st : NoiseStream) : NoiseStream :=
  match st.input with
  | [] => st
  | .error e :: rest => {st.emit (.error e) with input := rest}
  | .ok batch :: rest =>
    if op.dpColumns.isEmpty then {st.emit (.ok batch) with input := rest}
    else {st with input := rest, work := some ⟨batch, batch.schema.zip batch.columns, []⟩}

/-- One column is done, or failed and the batch with it. -/
def advance (w : Work) (result : Except PhysicalError ArrayRef) (totalEpsilon : F64)
    (st : NoiseStream) : NoiseStream :=
  match result with
  | .ok noised => {st with work := some {w with done := w.done ++ [noised]}, totalEpsilon}
  | .error e => {st.emit (.error (.operator "LaplaceNoiseExec" e)) with totalEpsilon}

end NoiseStream

structure System (ι : Type) where
  budget : PrivacyBudgetTracker
  streams : ι → NoiseStream
  /-- Newest first. -/
  debits : List (Debit ι)

namespace System
variable {ι : Type} [DecidableEq ι]

def start (budget : PrivacyBudgetTracker)
    (inputs : ι → BatchStream DataFusionError RecordBatch) : System ι :=
  ⟨budget, fun i => .start (inputs i), []⟩

def put (s : System ι) (i : ι) (st : NoiseStream) : System ι :=
  {s with streams := Function.update s.streams i st}

/-- The debit granted for a column, if it is tagged and the budget allows it. -/
def granted (r : F64.Rounding) (op : LaplaceNoiseExec) (i : ι) (batch number : Nat) (field : Field)
    (budget : PrivacyBudgetTracker) : List (Debit ι) :=
  match op.dpColumns.lookup field.name with
  | none => []
  | some (epsilon, _) => match (budget.consume r op.tenantId field.name epsilon).1 with
    | .ok () => [⟨i, batch, number, (op.tenantId, field.name), epsilon⟩]
    | .error _ => []

/-- One turn of stream `i`, which was executed from the operator `ops i`. -/
def step (r : F64.Rounding) (ops : ι → LaplaceNoiseExec) (i : ι) (draws : Nat → Draw)
    (s : System ι) : System ι :=
  let st := s.streams i
  match st.work with
  | none => s.put i (st.poll (ops i))
  | some ⟨batch, [], done⟩ =>
    s.put i (st.emit ((rebuild batch done).mapError (.operator "LaplaceNoiseExec")))
  | some ⟨batch, (field, col) :: todo, done⟩ =>
    let (result, spending) := (ops i).noiseField r draws field col ⟨s.budget, st.totalEpsilon⟩
    { budget := spending.budget
      streams := Function.update s.streams i
        (st.advance ⟨batch, todo, done⟩ result spending.totalEpsilon)
      debits := granted r (ops i) i st.output.length done.length field s.budget ++ s.debits }

/-- A run: whose turn it is, with the samples for its column. -/
def run (r : F64.Rounding) (ops : ι → LaplaceNoiseExec) (schedule : List (ι × (Nat → Draw)))
    (s : System ι) : System ι :=
  schedule.foldl (fun s turn => s.step r ops turn.1 turn.2) s

theorem run_append (r : F64.Rounding) (ops : ι → LaplaceNoiseExec)
    (first second : List (ι × (Nat → Draw))) (s : System ι) :
    s.run r ops (first ++ second) = (s.run r ops first).run r ops second := by
  simp [run]

end System

/-! ### Paid batches -/

section Paid
variable {ι : Type} (op : LaplaceNoiseExec) (i : ι)

/-- The tagged ones of the first `upTo` columns of a batch are paid for. -/
def Paid (n : Nat) (schema : Schema) (upTo : Nat) (debits : List (Debit ι)) : Prop :=
  ∀ k field epsilon sensitivity, k < upTo → schema[k]? = some field →
    op.dpColumns.lookup field.name = some (epsilon, sensitivity) →
    ⟨i, n, k, (op.tenantId, field.name), epsilon⟩ ∈ debits

/-- What a stream has emitted is paid for, and so is what it has done of a batch. -/
structure Covered (st : NoiseStream) (debits : List (Debit ι)) : Prop where
  emitted : ∀ n batch, st.output[n]? = some (.ok batch) →
    Paid op i n batch.schema batch.schema.length debits
  working : ∀ w, st.work = some w → w.batch.schema.drop w.done.length = w.todo.map Prod.fst ∧
    Paid op i st.output.length w.batch.schema w.done.length debits

variable {op i} {st : NoiseStream} {debits debits' : List (Debit ι)}

theorem Paid.mono {n upTo : Nat} {schema : Schema} (h : Paid op i n schema upTo debits)
    (hsub : debits ⊆ debits') : Paid op i n schema upTo debits' :=
  fun k field epsilon sensitivity hk hfield hlookup =>
    hsub (h k field epsilon sensitivity hk hfield hlookup)

theorem Covered.mono (h : Covered op i st debits) (hsub : debits ⊆ debits') :
    Covered op i st debits' where
  emitted := fun n batch hn => (h.emitted n batch hn).mono hsub
  working := fun w hw => ⟨(h.working w hw).1, (h.working w hw).2.mono hsub⟩

theorem Covered.start (input : BatchStream DataFusionError RecordBatch) :
    Covered op i (.start input) debits where
  emitted := fun n batch hn => absurd hn (by simp [NoiseStream.start])
  working := fun w hw => absurd hw (by simp [NoiseStream.start])

theorem Covered.emit (h : Covered op i st debits) (item : Except DataFusionError RecordBatch)
    (hitem : ∀ batch, item = .ok batch →
      Paid op i st.output.length batch.schema batch.schema.length debits) :
    Covered op i (st.emit item) debits where
  emitted := fun n batch hn => by
    rw [NoiseStream.emit, List.getElem?_append] at hn
    split at hn
    · exact h.emitted n batch hn
    · obtain ⟨hlt, hbatch⟩ := List.getElem?_eq_some_iff.mp hn
      rw [List.length_singleton] at hlt
      obtain rfl : n = st.output.length := by omega
      exact hitem batch (by simpa using hbatch)
  working := fun w hw => absurd hw (by simp [NoiseStream.emit])

theorem Covered.poll (h : Covered op i st debits) : Covered op i (st.poll op) debits := by
  rw [NoiseStream.poll]
  split
  · exact h
  · rename_i e rest _
    have hemit := h.emit (.error e) fun batch hbatch => absurd hbatch (by simp)
    exact ⟨hemit.emitted, hemit.working⟩
  · rename_i batch rest _
    split
    · rename_i hempty
      have hemit := h.emit (.ok batch) fun b _ k field epsilon sensitivity _ _ hlookup => by
        rw [Dict.isEmpty_iff.mp hempty] at hlookup
        exact absurd hlookup (by simp)
      exact ⟨hemit.emitted, hemit.working⟩
    · refine ⟨h.emitted, fun w hw => ?_⟩
      obtain rfl := Option.some.inj hw
      refine ⟨?_, fun k field epsilon sensitivity hk => absurd hk (by simp)⟩
      rw [List.map_fst_zip batch.fits.length_eq.le]
      rfl

/-- Rebuilding changes no field. -/
theorem rebuild_schema {batch batch' : RecordBatch} {columns : List ArrayRef}
    (h : rebuild batch columns = .ok batch') : batch'.schema = batch.schema := by
  rw [rebuild] at h
  cases htry : RecordBatch.tryNew batch.schema columns with
  | error e => exact absurd h (by simp [htry, Except.mapError])
  | ok b =>
    obtain rfl : b = batch' := by simpa [htry, Except.mapError] using h
    exact (RecordBatch.tryNew_ok htry).1

theorem Covered.finish (h : Covered op i st debits) {batch : RecordBatch} {done : List ArrayRef}
    (hwork : st.work = some ⟨batch, [], done⟩) :
    Covered op i (st.emit ((rebuild batch done).mapError (.operator "LaplaceNoiseExec"))) debits := by
  obtain ⟨hdrop, hpaid⟩ := h.working _ hwork
  refine h.emit _ fun batch' hbatch' => ?_
  cases hrebuild : rebuild batch done with
  | error e => exact absurd hbatch' (by simp [hrebuild, Except.mapError])
  | ok rebuilt =>
    obtain rfl : rebuilt = batch' := by simpa [hrebuild, Except.mapError] using hbatch'
    rw [rebuild_schema hrebuild]
    have hlength : batch.schema.length ≤ done.length := List.drop_eq_nil_iff.mp hdrop
    exact fun k field epsilon sensitivity hk =>
      hpaid k field epsilon sensitivity (hk.trans_le hlength)

theorem Covered.advance (h : Covered op i st debits) {batch : RecordBatch} {field : Field}
    {col : ArrayRef} {todo : List (Field × ArrayRef)} {done : List ArrayRef}
    (hwork : st.work = some ⟨batch, (field, col) :: todo, done⟩) (hsub : debits ⊆ debits')
    (hfield : ∀ epsilon sensitivity, op.dpColumns.lookup field.name = some (epsilon, sensitivity) →
      ⟨i, st.output.length, done.length, (op.tenantId, field.name), epsilon⟩ ∈ debits')
    (noised : ArrayRef) (totalEpsilon : F64) :
    Covered op i (st.advance ⟨batch, todo, done⟩ (.ok noised) totalEpsilon) debits' := by
  obtain ⟨hdrop, hpaid⟩ := h.working _ hwork
  have hcons : batch.schema.drop done.length = field :: todo.map Prod.fst := hdrop
  refine ⟨(h.mono hsub).emitted, fun w hw => ?_⟩
  obtain rfl := Option.some.inj hw
  refine ⟨?_, fun k f epsilon sensitivity hk hf hlookup => ?_⟩
  · show batch.schema.drop (done ++ [noised]).length = todo.map Prod.fst
    rw [List.length_append, List.length_singleton, ← List.tail_drop, hcons, List.tail_cons]
  · rcases Nat.lt_or_ge k done.length with hlt | hge
    · exact hsub (hpaid k f epsilon sensitivity hlt hf hlookup)
    · obtain rfl : k = done.length := by
        simp only [List.length_append, List.length_singleton] at hk
        omega
      -- The next field of the schema is the one that was just done.
      have hhead : batch.schema[done.length]? = some field := by
        have := congrArg List.head? hcons
        rwa [List.head?_drop, List.head?_cons] at this
      obtain rfl : field = f := Option.some.inj (hhead.symm.trans hf)
      exact hfield epsilon sensitivity hlookup

theorem Covered.fail (h : Covered op i st debits) (hsub : debits ⊆ debits') (w : Work)
    (e : PhysicalError) (totalEpsilon : F64) :
    Covered op i (st.advance w (.error e) totalEpsilon) debits' := by
  have hemit := (h.mono hsub).emit (.error (.operator "LaplaceNoiseExec" e))
    fun batch hbatch => absurd hbatch (by simp)
  exact ⟨hemit.emitted, hemit.working⟩

end Paid

/-! ### Runs -/

namespace System
variable {ι : Type} [DecidableEq ι] {op : LaplaceNoiseExec} {seeds : Dict Key F64} {s : System ι}

/-- What holds over every run of streams of one operator. -/
structure Invariant (op : LaplaceNoiseExec) (seeds : Dict Key F64) (s : System ι) : Prop where
  mirrors : Mirrors Debit.key Debit.amount seeds s.budget s.debits
  covered : ∀ i, Covered op i (s.streams i) s.debits

/-- Replace one stream, and log debits. -/
theorem Invariant.update (h : Invariant op seeds s) {i : ι} {st : NoiseStream}
    {budget : PrivacyBudgetTracker} {debits : List (Debit ι)} (hsub : s.debits ⊆ debits)
    (hmirrors : Mirrors Debit.key Debit.amount seeds budget debits)
    (hst : Covered op i st debits) :
    Invariant op seeds ⟨budget, Function.update s.streams i st, debits⟩ where
  mirrors := hmirrors
  covered := fun j => by
    show Covered op j (Function.update s.streams i st j) debits
    rcases eq_or_ne j i with rfl | hj
    · rw [Function.update_self]
      exact hst
    · rw [Function.update_of_ne hj]
      exact (h.covered j).mono hsub

/-- What a turn may do to the tracker and the log, where sums are exact. -/
structure Turn (op : LaplaceNoiseExec) (i : ι) (s s' : System ι) : Prop where
  /-- At most one debit is granted. -/
  grows : s'.debits = s.debits ∨ ∃ d, s'.debits = d :: s.debits
  /-- Nothing changes without a granted debit. -/
  kept : s'.debits = s.debits → s'.budget = s.budget
  /-- A refused debit is not granted. -/
  refused : ∀ batch field col todo done epsilon sensitivity remaining budget,
    (s.streams i).work = some ⟨batch, (field, col) :: todo, done⟩ →
    op.dpColumns.lookup field.name = some (epsilon, sensitivity) →
    s.budget.consume .exact op.tenantId field.name epsilon = (.error remaining, budget) →
    s'.debits = s.debits
  /-- Other keys are not touched. -/
  others : ∀ d key, s'.debits = d :: s.debits → key ≠ d.key →
    s'.budget.balance key = s.budget.balance key

omit [DecidableEq ι] in
/-- A turn that leaves the tracker and the log alone. -/
theorem Turn.idle {i : ι} {s s' : System ι} (hbudget : s'.budget = s.budget)
    (hdebits : s'.debits = s.debits) : Turn op i s s' where
  grows := .inl hdebits
  kept := fun _ => hbudget
  refused := fun _ _ _ _ _ _ _ _ _ _ _ _ => hdebits
  others := fun d key hd _ => by
    rw [hdebits] at hd
    exact absurd hd List.ne_cons_self

/-- **One turn**: the invariant is kept, and the tracker changes by one granted debit at most. -/
theorem step_spec {ops : ι → LaplaceNoiseExec} (hops : ∀ i, ops i = op)
    (hepsilon : ∀ column epsilon sensitivity,
      op.dpColumns.lookup column = some (epsilon, sensitivity) → ∃ q, epsilon.toRat? = some q)
    (h : Invariant op seeds s) (i : ι) (draws : Nat → Draw) :
    Invariant op seeds (s.step .exact ops i draws) ∧ Turn op i s (s.step .exact ops i draws) := by
  have hcovered := h.covered i
  rw [step, hops i]
  cases hwork : (s.streams i).work with
  | none =>
    exact ⟨h.update (List.Subset.refl _) h.mirrors hcovered.poll, .idle rfl rfl⟩
  | some w =>
    obtain ⟨batch, todo, done⟩ := w
    cases todo with
    | nil => exact ⟨h.update (List.Subset.refl _) h.mirrors (hcovered.finish hwork), .idle rfl rfl⟩
    | cons column todo =>
      obtain ⟨field, col⟩ := column
      rcases op.noiseField_cases .exact draws field col ⟨s.budget, (s.streams i).totalEpsilon⟩ with
        ⟨hlookup, hnoise⟩ | ⟨epsilon, sensitivity, hlookup,
          ⟨remaining, budget, hconsume, hnoise⟩ | ⟨budget, result, total, hconsume, hnoise, -⟩⟩
      · -- An untagged column is taken as it is.
        have hgranted : granted .exact op i (s.streams i).output.length done.length field s.budget = [] := by
          rw [granted, hlookup]
        simp only [hnoise, hgranted, List.nil_append]
        refine ⟨h.update (List.Subset.refl _) h.mirrors
          (hcovered.advance hwork (List.Subset.refl _) ?_ _ _), .idle rfl rfl⟩
        intro epsilon sensitivity hsome
        exact absurd (hlookup.symm.trans hsome) (by simp)
      · -- A refused debit fails the batch.
        obtain ⟨q, hq⟩ := hepsilon _ _ _ hlookup
        have hgranted : granted .exact op i (s.streams i).output.length done.length field s.budget = [] := by
          simp only [granted, hlookup, hconsume]
        have hbudget : budget = s.budget := by
          rcases s.budget.consume_cases .exact h.mirrors.enabled op.tenantId field.name epsilon with
            ⟨-, hcase⟩ | ⟨-, hcase⟩
          · rw [hconsume] at hcase
            exact (Prod.mk.inj hcase).2
          · rw [hconsume] at hcase
            exact absurd (Prod.mk.inj hcase).1 (by simp)
        subst hbudget
        simp only [hnoise, hgranted, List.nil_append]
        exact ⟨h.update (List.Subset.refl _) h.mirrors (hcovered.fail (List.Subset.refl _) _ _ _),
          .idle rfl rfl⟩
      · -- A granted debit is logged, whether or not the noise succeeds.
        obtain ⟨q, hq⟩ := hepsilon _ _ _ hlookup
        let d : Debit ι :=
          ⟨i, (s.streams i).output.length, done.length, (op.tenantId, field.name), epsilon⟩
        have hgranted :
            granted .exact op i (s.streams i).output.length done.length field s.budget = [d] := by
          simp only [granted, hlookup, hconsume]
          rfl
        have hamount : epsilon.toRat? = some d.amount := by
          show _ = some (epsilon.toRat?.getD 0)
          rw [hq]
          rfl
        simp only [hnoise, hgranted, List.singleton_append]
        rcases h.mirrors.consume op.tenantId field.name (a := d) rfl hamount with
          ⟨remaining, hrefused⟩ | ⟨budget', hconsume', hmirrors, hothers⟩
        · exact absurd (hconsume.symm.trans hrefused) (by simp)
        obtain rfl : budget = budget' := by
          rw [hconsume] at hconsume'
          exact (Prod.mk.inj hconsume').2
        have hsub : s.debits ⊆ d :: s.debits := List.subset_cons_self ..
        constructor
        · refine h.update hsub hmirrors ?_
          cases result with
          | error e => exact hcovered.fail hsub _ e total
          | ok noised =>
            refine hcovered.advance hwork hsub (fun epsilon' sensitivity' hsome => ?_) noised total
            obtain ⟨rfl, -⟩ := Prod.mk.inj (Option.some.inj (hlookup.symm.trans hsome))
            exact List.mem_cons_self ..
        · refine ⟨.inr ⟨d, rfl⟩, fun heq => absurd heq.symm List.ne_cons_self, ?_, ?_⟩
          · intro batch' field' col' todo' done' epsilon' sensitivity' remaining budget' hwork'
              hlookup' hrefused
            rw [hwork] at hwork'
            obtain ⟨-, ⟨⟨rfl, -⟩, -⟩, -⟩ := by simpa using hwork'
            obtain ⟨rfl, -⟩ := Prod.mk.inj (Option.some.inj (hlookup.symm.trans hlookup'))
            exact absurd (hconsume.symm.trans hrefused) (by simp)
          · intro d' key hd hkey
            obtain ⟨rfl, -⟩ := List.cons.inj hd
            exact hothers key hkey

theorem run_invariant {ops : ι → LaplaceNoiseExec} (hops : ∀ i, ops i = op)
    (hepsilon : ∀ column epsilon sensitivity,
      op.dpColumns.lookup column = some (epsilon, sensitivity) → ∃ q, epsilon.toRat? = some q)
    (schedule : List (ι × (Nat → Draw))) (h : Invariant op seeds s) :
    Invariant op seeds (s.run .exact ops schedule) := by
  induction schedule generalizing s with
  | nil => exact h
  | cons turn schedule ih => exact ih (step_spec hops hepsilon h turn.1 turn.2).1

omit [DecidableEq ι] in
theorem start_invariant (hseeds : NonNegative seeds)
    (inputs : ι → BatchStream DataFusionError RecordBatch) :
    Invariant op seeds (start (.withEnforcement true seeds) inputs) where
  mirrors := .start hseeds
  covered := fun i => .start (inputs i)

end System

/-! ### A stream that nothing interrupts -/

namespace System
variable {ι : Type} [DecidableEq ι] (r : F64.Rounding) (ops : ι → LaplaceNoiseExec) (i : ι)

/-- The stream after its columns are done or one has failed. -/
def settled (st : NoiseStream) (batch : RecordBatch) (done : List ArrayRef)
    (outcome : Except PhysicalError (List ArrayRef) × Spending) : NoiseStream :=
  match outcome with
  | (.ok columns, spending) =>
    {st with work := some ⟨batch, [], done ++ columns⟩, totalEpsilon := spending.totalEpsilon}
  | (.error e, spending) =>
    {st.emit (.error (.operator "LaplaceNoiseExec" e)) with totalEpsilon := spending.totalEpsilon}

/-- Only stream `i` takes turns. -/
def Alone (schedule : List (ι × (Nat → Draw))) : Prop := ∀ turn ∈ schedule, turn.1 = i

theorem run_fields (draws : Nat → Nat → Draw) (batch : RecordBatch) (todo : List (Field × ArrayRef)) :
    ∀ (done : List ArrayRef) (s : System ι), (s.streams i).work = some ⟨batch, todo, done⟩ →
      ∃ schedule, Alone i schedule ∧ (∀ turn ∈ schedule, ∃ k, turn.2 = draws k) ∧
        (s.run r ops schedule).budget = ((ops i).noiseFields r draws done.length todo
          ⟨s.budget, (s.streams i).totalEpsilon⟩).2.budget ∧
        (s.run r ops schedule).streams = Function.update s.streams i (settled (s.streams i) batch done
          ((ops i).noiseFields r draws done.length todo ⟨s.budget, (s.streams i).totalEpsilon⟩)) := by
  induction todo with
  | nil =>
    intro done s hwork
    refine ⟨[], fun turn hturn => absurd hturn (by simp), fun turn hturn => absurd hturn (by simp),
      rfl, ?_⟩
    have hsettled : settled (s.streams i) batch done
        ((ops i).noiseFields r draws done.length [] ⟨s.budget, (s.streams i).totalEpsilon⟩) =
        s.streams i := by
      rw [noiseFields, settled, List.append_nil, ← hwork]
    rw [hsettled, Function.update_eq_self]
    rfl
  | cons column todo ih =>
    obtain ⟨field, col⟩ := column
    intro done s hwork
    rcases hnoise : (ops i).noiseField r (draws done.length) field col
      ⟨s.budget, (s.streams i).totalEpsilon⟩ with ⟨e | noised, spending⟩
    · refine ⟨[(i, draws done.length)], by simp [Alone], by simp, ?_, ?_⟩
      · simp only [run, List.foldl_cons, List.foldl_nil, step, hwork, noiseFields, hnoise]
      · simp only [run, List.foldl_cons, List.foldl_nil, step, hwork, noiseFields, hnoise]
        rfl
    · -- One turn for this column; the rest is the induction hypothesis.
      have hstep : ((s.step r ops i (draws done.length)).streams i).work =
          some ⟨batch, todo, done ++ [noised]⟩ := by
        simp only [step, hwork, hnoise, Function.update_self]
        rfl
      obtain ⟨schedule, halone, hdrawn, hbudget, hstreams⟩ := ih (done ++ [noised]) _ hstep
      refine ⟨(i, draws done.length) :: schedule, List.forall_mem_cons.mpr ⟨rfl, halone⟩,
        List.forall_mem_cons.mpr ⟨⟨_, rfl⟩, hdrawn⟩, ?_, ?_⟩
      · show ((s.step r ops i (draws done.length)).run r ops schedule).budget = _
        rw [hbudget]
        simp only [step, hwork, hnoise, Function.update_self, NoiseStream.advance, noiseFields,
          List.length_append, List.length_singleton]
      · show ((s.step r ops i (draws done.length)).run r ops schedule).streams = _
        rw [hstreams]
        simp only [step, hwork, hnoise, Function.update_self, Function.update_idem,
          NoiseStream.advance, noiseFields, List.length_append, List.length_singleton]
        rcases (ops i).noiseFields r draws (done.length + 1) todo spending with ⟨e | columns, spending'⟩
        · rfl
        · simp [settled, Except.map]

/-- **A batch alone**: with turns of one stream only, a polled batch is noised as
`apply_dp_to_batch` noises it, the debits of a failed batch included; the turns take no
other samples. -/
theorem run_batch (draws : Nat → Nat → Draw) (s : System ι) {batch : RecordBatch}
    {rest : BatchStream DataFusionError RecordBatch} (hidle : (s.streams i).work = none)
    (hinput : (s.streams i).input = .ok batch :: rest)
    (htagged : (ops i).dpColumns.isEmpty = false) :
    ∃ schedule, Alone i schedule ∧ (∀ turn ∈ schedule, ∃ k, turn.2 = draws k) ∧
      (s.run r ops schedule).budget =
        ((ops i).applyDpToBatch r draws batch ⟨s.budget, (s.streams i).totalEpsilon⟩).2.budget ∧
      (s.run r ops schedule).streams = Function.update s.streams i
        ⟨rest, none, ((ops i).applyDpToBatch r draws batch
            ⟨s.budget, (s.streams i).totalEpsilon⟩).2.totalEpsilon,
          (s.streams i).output ++ [((ops i).applyDpToBatch r draws batch
            ⟨s.budget, (s.streams i).totalEpsilon⟩).1.mapError (.operator "LaplaceNoiseExec")]⟩ := by
  let polled : NoiseStream := {s.streams i with
    input := rest, work := some ⟨batch, batch.schema.zip batch.columns, []⟩}
  have hpoll : ∀ d, s.step r ops i d = s.put i polled := fun d => by
    simp only [step, hidle, NoiseStream.poll, hinput, htagged, Bool.false_eq_true, if_false]
    rfl
  have hstream : (s.put i polled).streams i = polled := Function.update_self ..
  obtain ⟨schedule, halone, hdrawn, hbudget, hstreams⟩ := run_fields r ops i draws batch
    (batch.schema.zip batch.columns) [] (s.put i polled) (by rw [hstream])
  rw [hstream] at hbudget hstreams
  have hidem : ∀ st, Function.update (s.put i polled).streams i st = Function.update s.streams i st :=
    fun st => Function.update_idem ..
  rw [hidem] at hstreams
  -- The poll, the columns and, if none of them failed, the turn that emits the batch.
  have hstart : ∀ tail, s.run r ops ((i, draws 0) :: (schedule ++ tail)) =
      ((s.put i polled).run r ops schedule).run r ops tail := fun tail => by
    rw [← hpoll (draws 0)]
    exact run_append r ops ((i, draws 0) :: schedule) tail s
  rw [applyDpToBatch]
  rcases hfields : (ops i).noiseFields r draws 0 (batch.schema.zip batch.columns)
    ⟨s.budget, (s.streams i).totalEpsilon⟩ with ⟨e | columns, spending⟩
  · rw [show (ops i).noiseFields r draws ([] : List ArrayRef).length (batch.schema.zip batch.columns)
      ⟨(s.put i polled).budget, polled.totalEpsilon⟩ = (.error e, spending) from hfields]
      at hbudget hstreams
    refine ⟨(i, draws 0) :: (schedule ++ []), ?_, ?_, ?_, ?_⟩
    · rw [List.append_nil]
      exact List.forall_mem_cons.mpr ⟨rfl, halone⟩
    · rw [List.append_nil]
      exact List.forall_mem_cons.mpr ⟨⟨0, rfl⟩, hdrawn⟩
    · rw [hstart]
      exact hbudget
    · rw [hstart]
      exact hstreams
  · rw [show (ops i).noiseFields r draws ([] : List ArrayRef).length (batch.schema.zip batch.columns)
      ⟨(s.put i polled).budget, polled.totalEpsilon⟩ = (.ok columns, spending) from hfields]
      at hbudget hstreams
    have hemit : (((s.put i polled).run r ops schedule).streams i) =
        {polled with work := some ⟨batch, [], columns⟩, totalEpsilon := spending.totalEpsilon} := by
      rw [hstreams, Function.update_self]
      rfl
    refine ⟨(i, draws 0) :: (schedule ++ [(i, draws 0)]), ?_, ?_, ?_, ?_⟩
    · refine List.forall_mem_cons.mpr ⟨rfl, fun turn hturn => ?_⟩
      rcases List.mem_append.mp hturn with hmem | hmem
      · exact halone turn hmem
      · rw [List.mem_singleton.mp hmem]
    · refine List.forall_mem_cons.mpr ⟨⟨0, rfl⟩, fun turn hturn => ?_⟩
      rcases List.mem_append.mp hturn with hmem | hmem
      · exact hdrawn turn hmem
      · rw [List.mem_singleton.mp hmem]
        exact ⟨0, rfl⟩
    · rw [hstart, run, List.foldl_cons, List.foldl_nil, step, hemit]
      exact hbudget
    · rw [hstart, run, List.foldl_cons, List.foldl_nil, step, hemit]
      show Function.update _ i _ = _
      rw [hstreams, Function.update_idem]
      rfl

end System

/-! ### Conservation -/

/-- The plan and the copies that exchanging its input makes, one after the other. -/
inductive CopyOf (plan : ExecutionPlan) : ExecutionPlan → Prop
  | self : CopyOf plan plan
  | copy {p q : ExecutionPlan} {children : List ExecutionPlan} :
    CopyOf plan p → p.withNewChildren children = .ok q → CopyOf plan q

/-- Copies of the noise operator debit the same tracker for the same tenant and columns. -/
theorem CopyOf.laplaceNoise {op : LaplaceNoiseExec} {inner q : ExecutionPlan}
    (h : CopyOf (.laplaceNoise op inner) q) : ∃ inner', q = .laplaceNoise op inner' := by
  induction h with
  | self => exact ⟨inner, rfl⟩
  | copy _ hq ih =>
    obtain ⟨inner', rfl⟩ := ih
    obtain ⟨child, -, hq⟩ := bind_eq_ok.mp hq
    exact ⟨child, (Except.ok.inj hq).symm⟩

/-- The budget is conserved: no key is debited more than its seed and one tolerance, what
remains is not below the tolerance, and what is emitted is paid for. -/
structure Conserved {ι : Type} (op : LaplaceNoiseExec) (seeds : Dict Key F64) (s : System ι) :
    Prop where
  spent_le : ∀ key, (F64.fin (spent Debit.key Debit.amount key s.debits)).le
    (F64.Rounding.exact.add ((seeds.lookup key).getD (.fin 0)) (.fin F64.epsilon)) = true
  remaining_ge : ∀ tenantId column,
    (F64.fin (-F64.epsilon)).le (s.budget.remaining tenantId column) = true
  emitted : ∀ i n batch, (s.streams i).output[n]? = some (.ok batch) →
    Paid op i n batch.schema batch.schema.length s.debits

theorem System.Invariant.conserved {ι : Type} {op : LaplaceNoiseExec} {seeds : Dict Key F64}
    {s : System ι} (hseeds : NonNegative seeds) (h : s.Invariant op seeds) :
    Conserved op seeds s where
  spent_le := h.mirrors.spent_le hseeds
  remaining_ge := h.mirrors.remaining_ge hseeds
  emitted := fun i => (h.covered i).emitted

/-- **Budget conservation**: over every run of any streams of the operator and its copies the
budget is conserved, and every turn changes it by one granted debit at most. -/
theorem budget_conserved {ι : Type} [DecidableEq ι] {serde : SerdeJson}
    {bundle : ContractBundleHandle} {tenantId : String} {seeds : Dict Key F64}
    {inner : ExecutionPlan} {op : LaplaceNoiseExec}
    (hbuild : ExecutionPlan.newWithBudget serde bundle tenantId (.withEnforcement true seeds) inner =
      .ok (.laplaceNoise op inner))
    (hseeds : NonNegative seeds) {ops : ι → LaplaceNoiseExec} {inners : ι → ExecutionPlan}
    (hcopies : ∀ i, CopyOf (.laplaceNoise op inner) (.laplaceNoise (ops i) (inners i)))
    (inputs : ι → BatchStream DataFusionError RecordBatch) (schedule : List (ι × (Nat → Draw))) :
    Conserved op seeds ((System.start op.budget inputs).run .exact ops schedule) ∧
      ∀ i draws, System.Turn op i ((System.start op.budget inputs).run .exact ops schedule)
        (((System.start op.budget inputs).run .exact ops schedule).step .exact ops i draws) := by
  obtain ⟨⟨⟩, -, hbuild⟩ := bind_eq_ok.mp hbuild
  obtain ⟨built, hop, hbuild⟩ := bind_eq_ok.mp hbuild
  obtain ⟨rfl, -⟩ := by simpa using Except.ok.inj hbuild
  have hops : ∀ i, ops i = op := fun i => by
    obtain ⟨_, heq⟩ := (hcopies i).laplaceNoise
    exact (ExecutionPlan.laplaceNoise.inj heq).1
  have hepsilon : ∀ column epsilon sensitivity,
      op.dpColumns.lookup column = some (epsilon, sensitivity) → ∃ q, epsilon.toRat? = some q := by
    intro column epsilon sensitivity hcolumn
    obtain ⟨⟨q, hq, -⟩, -⟩ := ofBundle_epsilon hop hcolumn
    exact ⟨q, hq⟩
  have hbudget : op.budget = .withEnforcement true seeds := by
    obtain ⟨dpColumns, -, -, rfl⟩ := ofBundle_ok_iff.mp hop
    rfl
  have hrun := System.run_invariant hops hepsilon schedule
    (System.start_invariant hseeds inputs : System.Invariant op seeds _)
  rw [hbudget]
  exact ⟨hrun.conserved hseeds, fun i draws => (System.step_spec hops hepsilon hrun i draws).2⟩

/-! ### Two streams of one salary -/

/-- One epsilon a batch of `salary`. -/
def salaryDocument : Json :=
  .object [("dp_columns", .object [("salary",
    .object [("sensitivity", .number 1), ("epsilon", .number 1)])])]

def salaryText : String :=
  "\x7b\"dp_columns\":\x7b\"salary\":\x7b\"sensitivity\":1.0,\"epsilon\":1.0\x7d\x7d\x7d"

theorem salaryText_ne : salaryText ≠ "" := by decide +kernel

def salarySerde : SerdeJson := .just salaryText salaryDocument salaryText_ne

def salaryBundle : ContractBundleHandle := ⟨utf8 salaryText, "salary-contract", "acme"⟩

/-- Two epsilons for `salary`. -/
def salarySeeds : Dict Key F64 := .ofList [(("acme", "salary"), .fin 2)]

def salaryExec : LaplaceNoiseExec :=
  ⟨salaryBundle, .withEnforcement true salarySeeds, "acme",
    (Dict.ofList [("salary", (⟨.fin 1, .fin 1⟩ : DpColumnConfig))]).map fun cfg =>
      (cfg.epsilon, cfg.sensitivity)⟩

def salarySource : ExecutionPlan := .contractApproved salaryBundle (.dataSource [] [])

def salaryBatch : RecordBatch :=
  ⟨[⟨"salary", .float64, true⟩], [⟨.float64, [.float64 (.fin 100)], by decide⟩], 1, by decide⟩

theorem salaryExec_parse : parseDpBundle salarySerde salaryBundle = .ok salaryExec.dpColumns := by
  have hnumber : (Json.number 1).asF64 = some (.fin 1) := by
    rw [Json.asF64, F64.round_one]
    rfl
  have hconfig : DpColumnConfig.ofJson (.object [("sensitivity", .number 1),
      ("epsilon", .number 1)]) = some ⟨.fin 1, .fin 1⟩ := by
    simp [DpColumnConfig.ofJson, Json.fits, Json.fieldOr, Json.field, Json.valuesOf, hnumber, guard]
  have hdata : DpBundleData.ofJson salaryDocument =
      some ⟨.ofList [("salary", ⟨.fin 1, .fin 1⟩)]⟩ := by
    simp [DpBundleData.ofJson, salaryDocument, Json.fits, Json.fieldOr, Json.field, Json.valuesOf,
      Json.asMap, hconfig, guard]
  rw [parseDpBundle, bundleData_of_document (SerdeJson.just_fromSlice ..) hdata]
  rfl

theorem salaryExec_build : ExecutionPlan.newWithBudget salarySerde salaryBundle "acme"
    (.withEnforcement true salarySeeds) salarySource = .ok (.laplaceNoise salaryExec salarySource) := by
  have hvalid : validateColumns salaryExec.dpColumns = .ok () := by
    rw [validateColumns_ok_iff]
    intro column epsilon sensitivity hcolumn
    simp only [salaryExec, Dict.lookup_map, Dict.ofList, List.foldl_cons, List.foldl_nil,
      Dict.lookup_insert] at hcolumn
    split at hcolumn
    · obtain ⟨rfl, rfl⟩ := by simpa using hcolumn
      rfl
    · exact absurd hcolumn (by simp)
  have hop : ofBundle salarySerde salaryBundle "acme" (.withEnforcement true salarySeeds) =
      .ok salaryExec := ofBundle_ok_iff.mpr ⟨_, salaryExec_parse, hvalid, rfl⟩
  exact bind_eq_ok.mpr ⟨(), rfl, bind_eq_ok.mpr ⟨_, hop, rfl⟩⟩

/-- Two streams, one of a copy, take turns at one batch each. -/
theorem budget_conserved_salary :
    Conserved salaryExec salarySeeds ((System.start salaryExec.budget fun _ : Bool =>
      [.ok salaryBatch]).run .exact (fun _ => salaryExec) [(true, fun _ => (.fin 0, .fin 0)),
        (false, fun _ => (.fin 0, .fin 0)), (true, fun _ => (.fin 0, .fin 0))]) :=
  (budget_conserved salaryExec_build
    (fun k x hk => by
      simp only [salarySeeds, Dict.ofList, List.foldl_cons, List.foldl_nil, Dict.lookup_insert] at hk
      split at hk
      · obtain rfl := Option.some.inj hk
        decide
      · exact absurd hk (by simp))
    (fun _ => (.self : CopyOf (.laplaceNoise salaryExec salarySource)
      (.laplaceNoise salaryExec salarySource))) _ _).1

end Griot.Physical
