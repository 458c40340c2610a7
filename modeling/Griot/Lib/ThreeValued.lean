import Mathlib.Data.List.Basic

/-! Three-valued logic.

A truth value is false, unknown or true. `and`, `or` and `not` are Kleene's; whether a list
has a true one is told by what is in it (`any`), which is what comparing one after the other
comes to (`foldr_or`). -/
namespace Griot.Lib

inductive Truth where
  | false
  | unknown
  | true
  deriving DecidableEq

namespace Truth

def ofBool (b : Bool) : Truth := if b then true else false

def not : Truth → Truth
  | false => true
  | unknown => unknown
  | true => false

def and : Truth → Truth → Truth
  | false, _ => false
  | _, false => false
  | true, true => true
  | _, _ => unknown

def or : Truth → Truth → Truth
  | true, _ => true
  | _, true => true
  | false, false => false
  | _, _ => unknown

/-- True where one is, else unknown where one is. -/
def any (ts : List Truth) : Truth :=
  if true ∈ ts then true else if unknown ∈ ts then unknown else false

@[simp] theorem any_nil : any [] = false := rfl

theorem any_cons (t : Truth) (ts : List Truth) : any (t :: ts) = t.or (any ts) := by
  have hfalse : true ≠ false := nofun
  have hunknown : true ≠ unknown := nofun
  have hunknown' : unknown ≠ false := nofun
  unfold any
  by_cases htrue : true ∈ ts
  · cases t <;> simp [htrue, or]
  · by_cases hunk : unknown ∈ ts
    · cases t <;> simp [htrue, hunk, or, hfalse, hunknown]
    · cases t <;> simp [htrue, hunk, or, hfalse, hunknown, hunknown']

/-- One `or` after the other. -/
theorem foldr_or (ts : List Truth) : ts.foldr or false = any ts := by
  induction ts with
  | nil => rfl
  | cons t ts ih => rw [List.foldr_cons, ih, any_cons]

end Truth
end Griot.Lib
