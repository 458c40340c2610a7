import Griot.Data.Rounding
import Griot.Governed.Declarations

/-! Filters that compare a numeric column with a number.

The type of the literal follows from its spelling alone, a 64-bit integer if it can be read
as one and a double if not, and nothing coerces it to the type of the column. So the filter
works on the columns of that one type, and among them on a double column up to what rounding
the literal and the total order of doubles change (`keepsMatching_iff`). -/
namespace Griot.Governed

open Lib Sql Physical
open Logical (Operator ScalarValue Column Expr)

/-! ### Numeric columns -/

/-- The integer and float types of Arrow. -/
inductive NumericType where
  | int8
  | int16
  | int32
  | int64
  | uint8
  | uint16
  | uint32
  | uint64
  | float16
  | float32
  | float64
  deriving DecidableEq

/-- Bytes as they are stored, the lowest first. -/
def littleEndian (raw : Bytes) : Nat := raw.foldr (fun b n => b.toNat + 256 * n) 0

/-- Two's complement. -/
def signed (width bits : Nat) : ℤ := if bits < 2 ^ (width - 1) then bits else bits - 2 ^ width

/-- A binary interchange format of IEEE 754. -/
def ieee (exponentBits fractionBits bits : Nat) : F64 :=
  let fraction := bits % 2 ^ fractionBits
  let exponent := bits / 2 ^ fractionBits % 2 ^ exponentBits
  let negative : Bool := bits / 2 ^ (fractionBits + exponentBits) % 2 = 1
  let bias : ℤ := 2 ^ (exponentBits - 1) - 1
  if exponent = 2 ^ exponentBits - 1 then (if fraction = 0 then .inf negative else .nan)
  else
    let magnitude : ℚ :=
      if exponent = 0 then fraction * 2 ^ (1 - bias - fractionBits)
      else (2 ^ fractionBits + fraction) * 2 ^ (exponent - bias - fractionBits)
    if magnitude = 0 then F64.zero negative
    else .fin (if negative then -magnitude else magnitude)

namespace NumericType

def dataType : NumericType → DataType
  | int8 => .other "Int8"
  | int16 => .other "Int16"
  | int32 => .other "Int32"
  | int64 => .int64
  | uint8 => .other "UInt8"
  | uint16 => .other "UInt16"
  | uint32 => .other "UInt32"
  | uint64 => .other "UInt64"
  | float16 => .other "Float16"
  | float32 => .other "Float32"
  | float64 => .float64

/-- The number in a cell; a null has none. -/
def number : NumericType → Value → Option F64
  | int64, .int64 i => some (.fin i.toInt)
  | float64, .float64 x => some x
  | int8, .other raw => some (.fin (signed 8 (littleEndian raw)))
  | int16, .other raw => some (.fin (signed 16 (littleEndian raw)))
  | int32, .other raw => some (.fin (signed 32 (littleEndian raw)))
  | uint8, .other raw => some (.fin (littleEndian raw))
  | uint16, .other raw => some (.fin (littleEndian raw))
  | uint32, .other raw => some (.fin (littleEndian raw))
  | uint64, .other raw => some (.fin (littleEndian raw))
  | float16, .other raw => some (ieee 5 10 (littleEndian raw))
  | float32, .other raw => some (ieee 8 23 (littleEndian raw))
  | _, _ => none

theorem dataType_eq_int64 {t : NumericType} : t.dataType = .int64 ↔ t = .int64 := by
  cases t <;> simp [dataType]

theorem dataType_eq_float64 {t : NumericType} : t.dataType = .float64 ↔ t = .float64 := by
  cases t <;> simp [dataType]

end NumericType

/-! ### Comparisons -/

/-- The operators that compare. -/
def compares (op : Operator) : Bool := op ∈ [.eq, .notEq, .lt, .ltEq, .gt, .gtEq]

/-- What an operator asks of an order. -/
def orderHolds (order : Ordering) : Operator → Bool
  | .eq => order = .eq
  | .notEq => order ≠ .eq
  | .lt => order = .lt
  | .ltEq => order ≠ .gt
  | .gt => order = .gt
  | .gtEq => order ≠ .lt
  | _ => false

/-- The number satisfies the comparison with `d`; NaN is only unequal to it. -/
def satisfies (op : Operator) (d : ℚ) (x : F64) : Bool :=
  match x.exactCmp d with
  | some order => orderHolds order op
  | none => op = .notEq

def ScalarValue.dataType : ScalarValue → DataType
  | .null => .other "Null"
  | .boolean _ => .boolean
  | .int64 _ => .int64
  | .float64 _ => .float64
  | .utf8 _ => .utf8

/-- Arrow's comparison kernels on two values of one type: integers by value, doubles by the
total order, null for null. -/
def kernel (op : Operator) : Value → ScalarValue → Value
  | .int64 i, .int64 j => .boolean (orderHolds (compare i.toInt j.toInt) op)
  | .float64 x, .float64 y => .boolean (orderHolds (x.totalCmp y) op)
  | _, _ => .null

/-- The column a name stands for: the first one called so. -/
def columnIndex (schema : Schema) (col : Column) : Option Nat :=
  if col.relation = none then schema.findIdx? (·.name = col.name) else none

/-- Planning coerces nothing, and the kernels reject two types that differ. -/
structure Uncoerced (engine : Engine) : Prop where
  comparison : ∀ schema col op literal k field, columnIndex schema col = some k →
    schema[k]? = some field → compares op = true →
    ScalarValue.dataType literal ∈ [DataType.int64, .float64] → ∃ predicate,
      engine.createPhysicalExpr (.binaryExpr (.column col) op (.literal literal)) schema =
        .ok predicate ∧
      (field.dataType ≠ ScalarValue.dataType literal →
        ∀ rows, (predicate.fails rows).isSome = true) ∧
      (field.dataType = ScalarValue.dataType literal → predicate.dataType = .boolean ∧
        (∀ rows, predicate.fails rows = none) ∧
        ∀ row, predicate.valueAt row = kernel op (row.getD k .null) literal)

/-! ### Literals -/

theorem exists_digit_of_decimalValue {s : Text} (hsign : takeSign s = (false, s)) {d : ℚ}
    (h : decimalValue s = some d) : ∃ c ∈ s, c.isDigit = true := by
  by_contra hnone
  have hdigit : ∀ c ∈ s, ¬c.isDigit = true := fun c hc hc' => hnone ⟨c, hc, hc'⟩
  have htake : ∀ t : Text, (∀ c ∈ t, c ∈ s) → t.takeWhile Char.isDigit = [] := fun t ht => by
    cases t with
    | nil => rfl
    | cons c t => exact List.takeWhile_cons_of_neg (hdigit c (ht c List.mem_cons_self))
  have hdrop : ∀ c ∈ s.dropWhile Char.isDigit, c ∈ s := fun c hc =>
    (List.dropWhile_sublist _).subset hc
  rw [decimalValue, hsign] at h
  simp only [htake s fun _ hc => hc] at h
  split at h
  · rename_i r hrest
    rw [hrest] at hdrop
    have hfraction := htake r fun c hc => hdrop c (List.mem_cons_of_mem _ hc)
    simp [hfraction] at h
  · simp at h

/-- Without a sign, a text that denotes a number is read as the double nearest to it. -/
theorem parseF64_eq {s : Text} (hsign : takeSign s = (false, s)) {d : ℚ}
    (h : decimalValue s = some d) : parseF64 s = some (F64.round d) ∧ 0 ≤ d := by
  obtain ⟨c, hc, hdigit⟩ := exists_digit_of_decimalValue hsign h
  have hlower : c.toLower = c := by
    have hnine : c.val ≤ '9'.val := of_decide_eq_true (Bool.and_eq_true_iff.mp hdigit).2
    exact dif_neg fun hupper => absurd (UInt32.le_trans hupper.1 hnine) (by decide)
  have hname : ∀ name : Text, name.any Char.isDigit = false → s.map Char.toLower ≠ name :=
    fun name hletters heq =>
      List.any_eq_false.mp hletters c (heq ▸ hlower ▸ List.mem_map_of_mem hc) hdigit
  rw [decimalValue, hsign] at h
  rw [parseF64, hsign]
  simp only [hname _ (by decide : "inf".toList.any Char.isDigit = false),
    hname _ (by decide : "infinity".toList.any Char.isDigit = false),
    hname _ (by decide : "nan".toList.any Char.isDigit = false), or_self, if_false,
    Bool.false_eq_true] at h ⊢
  split at h <;> split at h
  case isTrue => cases h
  case isTrue => cases h
  all_goals
    rename_i hsome
    obtain ⟨exponent, hexponent, rfl⟩ := Option.map_eq_some_iff.mp h
    rw [if_neg hsome, hexponent]
    exact ⟨rfl, mul_nonneg (Nat.cast_nonneg _) (zpow_nonneg (by norm_num) _)⟩

/-! ### Where the kernel and the comparison part -/

/-- The cell is judged wrongly: it is a NaN, which counts as large; it is the negative zero,
which counts as less than zero; or it is the double the literal is rounded to. -/
inductive Misjudged (op : Operator) (d : ℚ) (x : F64) : Prop
  | nan (hx : x = .nan) (h : op ∈ [Operator.gt, .gtEq])
  | negZero (hx : x = .negZero) (hd : d = 0) (h : op ∈ [Operator.eq, .notEq, .lt, .gtEq])
  | below (hx : x = F64.round d) (hexact : x.exactCmp d = some .lt)
    (h : op ∈ [Operator.eq, .notEq, .lt, .gtEq])
  | above (hx : x = F64.round d) (hexact : x.exactCmp d = some .gt)
    (h : op ∈ [Operator.eq, .notEq, .ltEq, .gt])

/-- A literal without a sign becomes a finite double that is not the negative zero, or
infinity. -/
theorem round_cases {d : ℚ} (hd : 0 ≤ d) :
    F64.round d = .inf false ∨ ∃ m, F64.round d = .fin m ∧ 0 ≤ m := by
  rw [F64.round_of_nonneg hd]
  split
  · exact .inl rfl
  · exact .inr ⟨_, rfl, F64.magnitude_nonneg d⟩

theorem totalCmp_self (x : F64) : x.totalCmp x = .eq := by
  have hirrefl : x.totalLt x = false := by
    cases x with
    | fin q => simp [F64.totalLt, F64.lt, F64.toRat?]
    | inf s => cases s <;> rfl
    | _ => rfl
  simp [F64.totalCmp, hirrefl]

theorem round_ne {d : ℚ} (hd : 0 ≤ d) : F64.round d ≠ .nan ∧ F64.round d ≠ .negZero := by
  obtain h | ⟨m, h, -⟩ := round_cases hd <;> rw [h] <;> exact ⟨nofun, nofun⟩

/-- The literal's double against a finite one: the total order is the plain one. -/
theorem totalLt_round {d : ℚ} (hd : 0 ≤ d) (v : ℚ) :
    (F64.fin v).totalLt (F64.round d) = (F64.fin v).lt (F64.round d) ∧
      (F64.round d).totalLt (.fin v) = (F64.round d).lt (.fin v) := by
  obtain h | ⟨m, h, -⟩ := round_cases hd <;> rw [h] <;> exact ⟨rfl, rfl⟩

theorem exactCmp_fin (v d : ℚ) :
    (F64.fin v).exactCmp d = some (if v < d then .lt else if d < v then .gt else .eq) := by
  rw [F64.exactCmp, if_neg (by simp), F64.lt_finite (x := .fin v) (y := .fin d) rfl rfl,
    F64.lt_finite (x := .fin d) (y := .fin v) rfl rfl]
  simp only [decide_eq_true_eq, apply_ite some]

theorem order_cases_fin {d : ℚ} (hd : 0 ≤ d) {v : ℚ} (hv : (F64.fin v).IsDouble) :
    .fin v = F64.round d ∨ (F64.fin v).exactCmp d = some ((F64.fin v).totalCmp (F64.round d)) := by
  rw [exactCmp_fin, F64.totalCmp, (totalLt_round hd v).1, (totalLt_round hd v).2]
  by_cases hbelow : (F64.fin v).lt (F64.round d) = true
  · right
    rw [if_pos hbelow, if_pos (F64.lt_of_lt_round hv hd hbelow)]
  by_cases habove : (F64.round d).lt (.fin v) = true
  · right
    have hlt := F64.lt_of_round_lt hv hd habove
    rw [if_neg hbelow, if_pos habove, if_neg hlt.not_gt, if_pos hlt]
  · left
    obtain h | ⟨m, h, -⟩ := round_cases hd
    · rw [h] at hbelow
      exact absurd rfl hbelow
    · rw [h] at hbelow habove ⊢
      rw [F64.lt_finite (x := .fin v) (y := .fin m) rfl rfl, decide_eq_true_eq] at hbelow
      rw [F64.lt_finite (x := .fin m) (y := .fin v) rfl rfl, decide_eq_true_eq] at habove
      rw [le_antisymm (not_lt.mp habove) (not_lt.mp hbelow)]

/-- Apart from NaN, the negative zero and the double the literal became, a double stands to
that double as it stands to the literal. -/
theorem order_cases {d : ℚ} (hd : 0 ≤ d) {x : F64} (hx : x.IsDouble) :
    x = .nan ∨ (x = .negZero ∧ d = 0) ∨ x = F64.round d ∨
      x.exactCmp d = some (x.totalCmp (F64.round d)) := by
  have hround := round_cases hd
  cases x with
  | nan => exact .inl rfl
  | negZero =>
    obtain hzero | hpos := hd.eq_or_lt
    · exact .inr (.inl ⟨rfl, hzero.symm⟩)
    · right; right; right
      have hexact : F64.negZero.exactCmp d = some .lt := by
        simp [F64.exactCmp, F64.lt, F64.toRat?, hpos]
      rw [hexact]
      obtain h | ⟨m, h, hm⟩ := hround <;> rw [h]
      · rfl
      · simp [F64.totalCmp, F64.totalLt, hm]
  | inf s =>
    cases s with
    | true =>
      right; right; right
      obtain h | ⟨m, h, -⟩ := hround <;> rw [h] <;> rfl
    | false =>
      obtain h | ⟨m, h, -⟩ := hround
      · exact .inr (.inr (.inl h.symm))
      · right; right; right
        rw [h]
        rfl
  | fin v => exact .inr (.inr (order_cases_fin hd hx))

/-- Which operators tell the two orders apart. -/
theorem orderHolds_eq_iff {op : Operator} (hop : compares op = true) :
    (orderHolds .lt op = orderHolds .eq op ↔ op ∉ [Operator.eq, .notEq, .lt, .gtEq]) ∧
    (orderHolds .eq op = orderHolds .gt op ↔ op ∉ [Operator.eq, .notEq, .ltEq, .gt]) ∧
    (orderHolds .gt op = decide (op = .notEq) ↔ op ∉ [Operator.gt, .gtEq]) := by
  cases op <;> first | decide | exact absurd hop (by simp [compares])

theorem exists_exactCmp {x : F64} (hx : x ≠ .nan) (d : ℚ) :
    ∃ order, x.exactCmp d = some order := by
  rw [F64.exactCmp, if_neg hx]
  split
  · exact ⟨_, rfl⟩
  · split <;> exact ⟨_, rfl⟩

section Literal
variable {op : Operator} {d : ℚ}

/-- A cell that the kernel orders as the numbers stand is judged rightly. -/
theorem not_misjudged {x : F64} (hsame : x.exactCmp d = some (x.totalCmp (F64.round d))) :
    ¬Misjudged op d x := by
  intro h
  cases h with
  | nan hx =>
    rw [hx] at hsame
    cases hsame
  | negZero hx hzero =>
    rw [hx, hzero, F64.round, if_pos rfl] at hsame
    exact absurd hsame (by decide)
  | below hx hexact =>
    rw [hexact, hx, totalCmp_self] at hsame
    cases hsame
  | above hx hexact =>
    rw [hexact, hx, totalCmp_self] at hsame
    cases hsame

variable (hd : 0 ≤ d)
include hd

theorem misjudged_nan : Misjudged op d .nan ↔ op ∈ [Operator.gt, .gtEq] := by
  refine ⟨fun h => ?_, .nan rfl⟩
  cases h with
  | nan _ h => exact h
  | negZero hx => cases hx
  | below hx => exact absurd hx.symm (round_ne hd).1
  | above hx => exact absurd hx.symm (round_ne hd).1

theorem misjudged_negZero :
    Misjudged op d .negZero ↔ d = 0 ∧ op ∈ [Operator.eq, .notEq, .lt, .gtEq] := by
  refine ⟨fun h => ?_, fun h => .negZero rfl h.1 h.2⟩
  cases h with
  | nan hx => cases hx
  | negZero _ hzero h => exact ⟨hzero, h⟩
  | below hx => exact absurd hx.symm (round_ne hd).2
  | above hx => exact absurd hx.symm (round_ne hd).2

/-- The double of the literal is misjudged if it is not the literal. -/
theorem misjudged_round : Misjudged op d (F64.round d) ↔
    (F64.round d).exactCmp d = some .lt ∧ op ∈ [Operator.eq, .notEq, .lt, .gtEq] ∨
      (F64.round d).exactCmp d = some .gt ∧ op ∈ [Operator.eq, .notEq, .ltEq, .gt] := by
  constructor
  · intro h
    cases h with
    | nan hx => exact absurd hx (round_ne hd).1
    | negZero hx => exact absurd hx (round_ne hd).2
    | below _ hexact h => exact .inl ⟨hexact, h⟩
    | above _ hexact h => exact .inr ⟨hexact, h⟩
  · intro h
    exact h.elim (fun h => .below rfl h.1 h.2) fun h => .above rfl h.1 h.2

/-- The kernel judges a cell as the comparison does unless the cell is one of those. -/
theorem kernel_agrees_iff (hop : compares op = true) {x : F64} (hx : x.IsDouble) :
    orderHolds (x.totalCmp (F64.round d)) op = satisfies op d x ↔ ¬Misjudged op d x := by
  obtain ⟨hlt, hgt, hnan⟩ := orderHolds_eq_iff hop
  obtain rfl | ⟨rfl, rfl⟩ | rfl | hsame := order_cases hd hx
  · have hkernel : F64.nan.totalCmp (F64.round d) = .gt := by
      obtain h | ⟨m, h, -⟩ := round_cases hd <;> rw [h] <;> rfl
    rw [hkernel, misjudged_nan hd]
    exact hnan
  · have hkernel : F64.negZero.totalCmp (F64.round 0) = .lt := by
      rw [F64.round, if_pos rfl]
      rfl
    rw [hkernel, misjudged_negZero hd, eq_self_iff_true, true_and]
    exact hlt
  · rw [totalCmp_self, misjudged_round hd]
    obtain ⟨order, hexact⟩ := exists_exactCmp (round_ne hd).1 d
    rw [satisfies, hexact]
    cases order with
    | lt => simpa using eq_comm.trans hlt
    | eq => simp
    | gt => simpa using hgt
  · rw [satisfies, hsame]
    exact iff_of_true rfl (not_misjudged hsame)

end Literal

theorem filter_eq_filter_iff {α : Type} {p q : α → Bool} {l : List α} :
    l.filter p = l.filter q ↔ ∀ a ∈ l, p a = q a := by
  refine ⟨fun h a ha => Bool.eq_iff_iff.mpr ?_, fun h => List.filter_congr h⟩
  have hmem : a ∈ l.filter p ↔ a ∈ l.filter q := by rw [h]
  simpa [ha] using hmem

theorem compare_eq_ite (i j : ℤ) :
    compare i j = if (i : ℚ) < j then .lt else if (j : ℚ) < i then .gt else .eq := by
  simp only [Int.cast_lt]
  obtain h | rfl | h := lt_trichotomy i j
  · rw [if_pos h, compare_lt_iff_lt.mpr h]
  · rw [if_neg (lt_irrefl i), if_neg (lt_irrefl i), compare_eq_iff_eq]
  · rw [if_neg h.not_gt, if_pos h, compare_gt_iff_gt.mpr h]

/-- Integers are compared by value, and an integer literal is what it says. -/
theorem kernel_int64 (op : Operator) (v : Value) (j : Int64) :
    decide (kernel op v (.int64 j) = .boolean true) =
      (NumericType.int64.number v).any (satisfies op j.toInt) := by
  cases v with
  | int64 i =>
    simp only [kernel, NumericType.number, Option.any_some, satisfies, exactCmp_fin,
      compare_eq_ite, Value.boolean.injEq, Bool.decide_eq_true]
  | _ => rfl

theorem kernel_float64 (op : Operator) (v : Value) (y : F64) :
    decide (kernel op v (.float64 y) = .boolean true) =
      (NumericType.float64.number v).any fun x => orderHolds (x.totalCmp y) op := by
  cases v with
  | float64 x => simp only [kernel, NumericType.number, Option.any_some, Value.boolean.injEq,
      Bool.decide_eq_true]
  | _ => rfl

/-! ### Filters on a numeric column -/

/-- A comparison of a numeric column with a number. -/
structure NumericFilter (engine : Engine) (batch : RecordBatch) (exprStr : String) where
  column : String
  quoteStyle : Option Char
  sqlOp : BinaryOperator
  literal : String
  op : Operator
  number : ℚ
  index : Nat
  field : Field
  type : NumericType
  selection : filterSelection engine.sql exprStr =
    .ok (.binaryOp (.identifier column quoteStyle) sqlOp (.value (.number literal)))
  operator : comparisonToDf sqlOp = .ok op
  comparison : compares op = true
  /-- A number has no sign: a minus in front of it is an operator. -/
  unsigned : takeSign literal.toList = (false, literal.toList)
  denotes : decimalValue literal.toList = some number
  names : columnIndex batch.schema (engine.sql.col column) = some index
  schema : batch.schema[index]? = some field
  numeric : field.dataType = type.dataType
  doubles : ∀ row ∈ batch.rows, ∀ x, row.getD index .null = .float64 x → x.IsDouble

namespace NumericFilter
variable {engine : Engine} {batch : RecordBatch} {exprStr : String}

/-- The value of the column satisfies the comparison; a null does not. -/
def satisfied (f : NumericFilter engine batch exprStr) (row : Row) : Bool :=
  (f.type.number (row.getD f.index .null)).any (satisfies f.op f.number)

/-- The filter succeeds and keeps exactly the rows that satisfy it. -/
def KeepsMatching (f : NumericFilter engine batch exprStr) : Prop :=
  ∃ kept, RowFilterExec.applyFilterToBatch engine batch exprStr = .ok kept ∧
    kept.rows = batch.rows.filter f.satisfied

/-- The literal as the translator spells it. -/
def scalar (f : NumericFilter engine batch exprStr) : ScalarValue :=
  match parseI64 f.literal.toList with
  | some i => .int64 i
  | none => .float64 (F64.round f.number)

theorem scalar_numeric (f : NumericFilter engine batch exprStr) :
    ScalarValue.dataType f.scalar ∈ [DataType.int64, .float64] := by
  rw [scalar]
  split <;> simp [ScalarValue.dataType]

theorem translated (f : NumericFilter engine batch exprStr) :
    RowFilterExec.parseFilterExprToDf engine exprStr =
      .ok (.binaryExpr (.column (engine.sql.col f.column)) f.op (.literal f.scalar)) := by
  have hliteral : literalToDf "unsupported literal " (.number f.literal) =
      .ok (.literal f.scalar) := by
    rw [literalToDf, scalar]
    cases parseI64 f.literal.toList with
    | some i => rfl
    | none => rw [(parseF64_eq f.unsigned f.denotes).1]
  rw [RowFilterExec.parseFilterExprToDf, filterToDf, f.selection]
  simp only [sqlAstToDfExpr, bind, Except.bind, f.operator, hliteral]
  rfl

/-- **The filter succeeds where the schema is one the engine takes and the literal is of the
type of the column; it then keeps what the kernel is true of.** -/
theorem applyFilterToBatch_eq_ok (huncoerced : Uncoerced engine)
    (f : NumericFilter engine batch exprStr) {kept : RecordBatch} :
    RowFilterExec.applyFilterToBatch engine batch exprStr = .ok kept ↔
      engine.dfSchema batch.schema = .ok () ∧ f.field.dataType = ScalarValue.dataType f.scalar ∧
        batch.filterRows (fun row =>
          kernel f.op (row.getD f.index .null) f.scalar = .boolean true) = kept := by
  obtain ⟨predicate, hplan, hdiffer, hsame⟩ := huncoerced.comparison batch.schema
    (engine.sql.col f.column) f.op f.scalar f.index f.field f.names f.schema f.comparison
    f.scalar_numeric
  have hcompile : RowFilterExec.applyFilterToBatch engine batch exprStr = .ok kept ↔
      engine.dfSchema batch.schema = .ok () ∧ RowFilterExec.evaluate predicate batch = .ok kept := by
    simp only [RowFilterExec.applyFilterToBatch, RowFilterExec.compileFilter, bind_eq_ok,
      mapError_ok, f.translated, Except.ok.injEq, exists_eq_left', hplan]
    constructor
    · intro h
      obtain ⟨_, ⟨_, hschema, rfl⟩, heval⟩ := h
      exact ⟨hschema, heval⟩
    · intro h
      exact ⟨predicate, ⟨(), h.1, rfl⟩, h.2⟩
  rw [hcompile, RowFilterExec.evaluate]
  refine and_congr_right fun _ => ?_
  by_cases htype : f.field.dataType = ScalarValue.dataType f.scalar
  · obtain ⟨hboolean, hfails, hvalue⟩ := hsame htype
    have hholds : predicate.holds = fun row =>
        decide (kernel f.op (row.getD f.index .null) f.scalar = .boolean true) := by
      funext row
      rw [PhysicalExpr.holds, hvalue]
    simp [hfails, hboolean, htype, hholds]
  · obtain ⟨reason, hreason⟩ := Option.isSome_iff_exists.mp (hdiffer htype batch.rows)
    simp [hreason, htype]

theorem keepsMatching_iff_forall (huncoerced : Uncoerced engine)
    (f : NumericFilter engine batch exprStr) :
    f.KeepsMatching ↔
      engine.dfSchema batch.schema = .ok () ∧ f.field.dataType = ScalarValue.dataType f.scalar ∧
        ∀ row ∈ batch.rows,
          decide (kernel f.op (row.getD f.index .null) f.scalar = .boolean true) =
            f.satisfied row := by
  rw [KeepsMatching]
  simp only [applyFilterToBatch_eq_ok huncoerced f, and_assoc, exists_and_left, exists_eq_left',
    RecordBatch.rows_filterRows]
  refine and_congr_right fun _ => and_congr_right fun _ => ?_
  exact filter_eq_filter_iff

/-- **A filter keeps the rows it should exactly where its literal is spelled as the column is
typed**: an integer of 64 bits for such a column, and for a column of doubles a number that is
not one, unless the column holds a double the comparison misjudges. -/
theorem keepsMatching_iff (huncoerced : Uncoerced engine) (f : NumericFilter engine batch exprStr) :
    f.KeepsMatching ↔ engine.dfSchema batch.schema = .ok () ∧
      (f.type = .int64 ∧ (parseI64 f.literal.toList).isSome = true ∨
        f.type = .float64 ∧ parseI64 f.literal.toList = none ∧
          ∀ row ∈ batch.rows, ∀ x, row.getD f.index .null = .float64 x →
            ¬Misjudged f.op f.number x) := by
  rw [keepsMatching_iff_forall huncoerced f, f.numeric]
  refine and_congr_right fun _ => ?_
  cases hparse : parseI64 f.literal.toList with
  | some i =>
    have hscalar : f.scalar = .int64 i := by rw [scalar, hparse]
    have hnumber : f.number = i.toInt :=
      Option.some.inj (f.denotes.symm.trans (decimalValue_of_parseI64 hparse))
    have hrows : f.type = .int64 → ∀ row ∈ batch.rows,
        decide (kernel f.op (row.getD f.index .null) (.int64 i) = .boolean true) =
          f.satisfied row := fun htype row _ => by
      rw [kernel_int64, satisfied, htype, hnumber]
    simp only [hscalar, ScalarValue.dataType, NumericType.dataType_eq_int64, Option.isSome_some,
      and_true, reduceCtorEq, false_and, and_false, or_false]
    exact ⟨And.left, fun htype => ⟨htype, hrows htype⟩⟩
  | none =>
    have hscalar : f.scalar = .float64 (F64.round f.number) := by rw [scalar, hparse]
    have hrow : f.type = .float64 → ∀ row ∈ batch.rows,
        (decide (kernel f.op (row.getD f.index .null) (.float64 (F64.round f.number)) =
          .boolean true) = f.satisfied row ↔
        ∀ x, row.getD f.index .null = .float64 x → ¬Misjudged f.op f.number x) :=
      fun htype row hrow => by
        rw [kernel_float64, satisfied, htype]
        have hcells := f.doubles row hrow
        have hpos := (parseF64_eq f.unsigned f.denotes).2
        cases hcell : row.getD f.index .null with
        | float64 x =>
          simp only [NumericType.number, Option.any_some, Value.float64.injEq, forall_eq']
          exact kernel_agrees_iff hpos f.comparison (hcells x hcell)
        | _ => exact iff_of_true rfl nofun
    simp only [hscalar, ScalarValue.dataType, NumericType.dataType_eq_float64, Option.isSome_none,
      Bool.false_eq_true, and_false, false_or, true_and]
    exact and_congr_right fun htype => forall₂_congr (hrow htype)

end NumericFilter

/-! ### `c > 1` -/

/-- An engine that reads `c > 1` and plans comparisons. -/
def comparisonEngine : Engine where
  sql := ⟨fun text =>
    if text = "SELECT 1 WHERE c > 1" then
      .ok [.query (.select (some (.binaryOp (.identifier "c" none) .gt (.value (.number "1")))))]
    else .error "sql parser error", fun name => ⟨none, name⟩, fun _ => ""⟩
  dfSchema := fun _ => .ok ()
  createPhysicalExpr := fun expr schema =>
    match expr with
    | .binaryExpr (.column col) op (.literal literal) =>
      match columnIndex schema col with
      | some k => .ok ⟨.boolean, fun row => kernel op (row.getD k .null) literal, fun _ =>
          if (schema[k]?.map Field.dataType) = some (ScalarValue.dataType literal) then none
          else some "Invalid comparison operation"⟩
      | none => .error "no such column"
    | _ => .error "unsupported expression"
  castFails := fun _ _ => none
  render := fun _ _ => none
  sha256Hex := fun _ => ""
  rounding := .nearest

theorem comparisonEngine_uncoerced : Uncoerced comparisonEngine where
  comparison := by
    intro schema col op literal k field hindex hfield _ _
    refine ⟨_, by simp only [comparisonEngine, hindex]; rfl, fun hdiffer rows => ?_,
      fun hsame => ⟨rfl, fun rows => ?_, fun row => rfl⟩⟩
    · simp [hfield, hdiffer]
    · simp [hfield, hsame]

/-- One column, called `c`. -/
def oneColumn (type : NumericType) (cells : List Value)
    (typed : ∀ v ∈ cells, v.hasType type.dataType = true) : RecordBatch where
  schema := [⟨"c", type.dataType, true⟩]
  columns := [⟨type.dataType, cells, typed⟩]
  numRows := cells.length
  fits := .cons ⟨rfl, nofun, rfl⟩ .nil

theorem oneColumn_no_doubles {type : NumericType} (htype : type ≠ .float64) {cells : List Value}
    (typed : ∀ v ∈ cells, v.hasType type.dataType = true) :
    ∀ row ∈ (oneColumn type cells typed).rows, ∀ x, row.getD 0 .null = .float64 x →
      x.IsDouble := by
  intro row hrow x hcell
  have hfits := fits_of_mem hrow
  cases hfits with
  | cons hv _ =>
    rw [List.getD_cons_zero] at hcell
    rw [hcell] at hv
    cases type with
    | float64 => exact absurd rfl htype
    | _ => exact absurd hv.1 Bool.false_ne_true

/-- `c > 1` on a column that is not one of doubles. -/
def aboveOne (type : NumericType) (htype : type ≠ .float64) (cells : List Value)
    (typed : ∀ v ∈ cells, v.hasType type.dataType = true) :
    NumericFilter comparisonEngine (oneColumn type cells typed) "c > 1" where
  column := "c"
  quoteStyle := none
  sqlOp := .gt
  literal := "1"
  op := .gt
  number := 1
  index := 0
  field := ⟨"c", type.dataType, true⟩
  type := type
  selection := rfl
  operator := rfl
  comparison := rfl
  unsigned := rfl
  denotes := decimalValue_of_parseI64 (i := 1) (by decide)
  names := rfl
  schema := rfl
  numeric := rfl
  doubles := oneColumn_no_doubles htype typed

theorem longs_typed : ∀ v ∈ [Value.int64 0, .int64 2, .null],
    v.hasType NumericType.int64.dataType = true := by decide

theorem ints_typed : ∀ v ∈ [Value.other [2, 0, 0, 0]],
    v.hasType NumericType.int32.dataType = true := by decide

/-- A column of 64-bit integers is filtered. -/
theorem longs_above_one_kept : (aboveOne .int64 nofun _ longs_typed).KeepsMatching :=
  ((aboveOne .int64 nofun _ longs_typed).keepsMatching_iff comparisonEngine_uncoerced).mpr
    ⟨rfl, .inl ⟨rfl, by decide⟩⟩

/-- A column of 32-bit integers is not. -/
theorem ints_above_one_refused : ¬∀ engine batch exprStr
    (f : NumericFilter engine batch exprStr), Uncoerced engine →
      engine.dfSchema batch.schema = .ok () → f.KeepsMatching := fun h => by
  have hkeeps := h _ _ _ (aboveOne .int32 nofun _ ints_typed) comparisonEngine_uncoerced rfl
  rw [NumericFilter.keepsMatching_iff_forall comparisonEngine_uncoerced] at hkeeps
  exact absurd hkeeps.2.1 (by decide)

end Griot.Governed
