import Griot.Lib.Like
import Griot.Lib.ThreeValued
import Griot.Logical.Plan

/-! The value of an expression on one row.

The engine evaluates the expressions that the optimizer rules and the operators build. A
number is its value, whatever its type; comparing and what the engine's functions and casts
do are its own (`Evaluator`). An operand that is null makes a comparison unknown. An
aggregate and a subquery have no value on a row. -/
namespace Griot.Logical

open Lib

inductive Datum where
  | null
  | boolean (b : Bool)
  | number (q : ℚ)
  /-- A double that is no number: an infinity, a NaN, the negative zero. -/
  | double (x : F64)
  | text (s : String)
  | binary (bytes : Bytes)
  | list (items : List Datum)

namespace Datum

def isNull : Datum → Bool
  | null => true
  | _ => false

/-- What a condition with this value comes to. -/
def truth : Datum → Truth
  | boolean b => .ofBool b
  | _ => .unknown

def ofTruth : Truth → Datum
  | .true => boolean true
  | .unknown => null
  | .false => boolean false

def ofF64 : F64 → Datum
  | .fin q => number q
  | x => double x

end Datum

def ScalarValue.datum : ScalarValue → Datum
  | null => .null
  | boolean b => .boolean b
  | int64 i => .number i.toInt
  | float64 x => .ofF64 x
  | utf8 none => .null
  | utf8 (some s) => .text s

/-- The datum in a cell. -/
def datumOf : Value → Datum
  | .null => .null
  | .boolean b => .boolean b
  | .int64 i => .number i.toInt
  | .float64 x => .ofF64 x
  | .utf8 s => .text s
  | .other raw => .binary raw

/-- A text matches a pattern; neither a null nor another value does, or fails to. -/
def like (escape : Option Char) : Datum → Datum → Truth
  | .text s, .text pattern => .ofBool (likeMatches escape pattern.toList s.toList)
  | _, _ => .unknown

/-- What the engine below does with data. -/
structure Evaluator where
  /-- A comparison of data that are not null. -/
  compare : Operator → Datum → Datum → Truth
  function : String → List Datum → Option Datum
  cast : DataType → Datum → Option Datum

namespace Evaluator

/-- A comparison; with a null it is unknown. -/
def comparison (E : Evaluator) (op : Operator) (left right : Datum) : Truth :=
  if left.isNull || right.isNull then .unknown else E.compare op left right

def binary (E : Evaluator) (left : Datum) (op : Operator) (right : Datum) : Option Datum :=
  match op with
  | .and => some (.ofTruth (left.truth.and right.truth))
  | .or => some (.ofTruth (left.truth.or right.truth))
  | .likeMatch => some (.ofTruth (like (some '\\') left right))
  | .notLikeMatch => some (.ofTruth (like (some '\\') left right).not)
  | .other _ => none
  | op => some (.ofTruth (E.comparison op left right))

/-- One of the list equals the value. -/
def within (E : Evaluator) (d : Datum) (ds : List Datum) : Truth :=
  .any (ds.map (E.comparison .eq d))

/-- The expressions without a constructor of their own. -/
def operation (E : Evaluator) : String → List Datum → Option Datum
  | "Not", [d] => some (.ofTruth d.truth.not)
  | "IsNull", [d] => some (.boolean d.isNull)
  | "IsNotNull", [d] => some (.boolean !d.isNull)
  | "InList", d :: ds => some (.ofTruth (E.within d ds))
  | "NotInList", d :: ds => some (.ofTruth (E.within d ds).not)
  | func, ds => E.function func ds

section
variable (E : Evaluator) (row : Column → Datum)

mutual

def eval : Expr → Option Datum
  | .column c => some (row c)
  | .literal v => some v.datum
  | .alias expr _ => eval expr
  | .binaryExpr left op right => do E.binary (← eval left) op (← eval right)
  | .cast expr dataType => do E.cast dataType (← eval expr)
  | .other op args => do E.operation op (← evalAll args)
  | .aggregateFunction _ _ _ _ _ | .subquery _ _ _ _ => none

def evalAll : List Expr → Option (List Datum)
  | [] => some []
  | expr :: exprs => do return (← eval expr) :: (← evalAll exprs)

end

end
end Evaluator
end Griot.Logical
