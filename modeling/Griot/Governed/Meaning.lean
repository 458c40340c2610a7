import Griot.Provider
import Griot.Readback

/-! What a policy means, row by row.

A policy keeps the rows its filter is true of and replaces the cells its masks
name; a query then sees its columns of the first rows (`governedRows`). Masking a
column replaces each of its cells by the masked one (`applyMaskToColumn_cells`). -/
namespace Griot

open Lib Physical
open Logical (MaskPolicy)

/-! ### The meaning of a policy -/

section Meaning
variable (engine : Engine)

/-- The text of a value: a string is its own. -/
def rendering : DataType → Value → Option String
  | .utf8, v => MaskingExec.textOf v
  | .largeUtf8, v => MaskingExec.textOf v
  | dataType, v => engine.render dataType v

def lastFour (s : String) : String := String.ofList (s.toList.drop (s.length - 4))

/-- A text under an action that makes texts. -/
def maskedText (action : MaskAction) (s : String) : String :=
  match action with
  | .redact => "***"
  | .hashSha256 => engine.sha256Hex (utf8 s)
  | .tokenize => engine.sha256Hex (utf8 s)
  | .partialMask => "***" ++ lastFour s
  | .null => ""
  | .noop => s

/-- What stands for a value of a type that is redacted or nulled. -/
def blank (action : MaskAction) : DataType → Value
  | .utf8 => .utf8 (maskedText engine action "")
  | .largeUtf8 => .utf8 (maskedText engine action "")
  | .int64 => .int64 0
  | .float64 => .float64 (.fin 0)
  | .boolean => .boolean false
  | .other _ => .null

/-- The masked value of a value that is not null. -/
def maskedValue (dataType : DataType) (action : MaskAction) (v : Value) : Value :=
  match action with
  | .noop => v
  | .redact => blank engine .redact dataType
  | .null => blank engine .null dataType
  | action => match rendering engine dataType v with
    | some s => .utf8 (maskedText engine action s)
    | none => .null

/-- Nulls stay. -/
def maskedCell (dataType : DataType) (action : MaskAction) (v : Value) : Value :=
  if v.isNull then .null else maskedValue engine dataType action v

variable (p : ResolvedPolicy) (schema : Schema)

def maskedRow (row : Row) : Row :=
  List.zipWith (fun field v => maskedCell engine field.dataType (p.actionFor field.name) v) schema row

/-- The filter is true of the row; no filter keeps every row. -/
def keeps (row : Row) : Bool :=
  match p.rowFilter with
  | none => true
  | some filter =>
    if filter = "" then true
    else match RowFilterExec.compileFilter engine schema filter with
      | .ok predicate => predicate.holds row
      | .error _ => false

/-- The columns and the number of rows a query asks for. -/
structure Selection where
  projection : Option (List Nat)
  limit : Option Nat

def Selection.project (sel : Selection) (row : Row) : Row := sel.projection.elim row (select · row)

def Selection.first (sel : Selection) (rows : List Row) : List Row :=
  sel.limit.elim rows (rows.take ·)

/-- **The governed rows**: filter, mask, project, limit. -/
def governedRows (sel : Selection) (rows : List Row) : List Row :=
  sel.first (((rows.filter (keeps engine p schema)).map (maskedRow engine p schema)).map sel.project)

end Meaning

/-! ### Masked columns -/

theorem maskStringValue_eq (engine : Engine) (action : MaskAction) (s : String) :
    MaskingExec.maskStringValue engine s action.toPolicy = maskedText engine action s := by
  cases action <;> rfl

/-- A typed value of a string type is null or a string. -/
theorem textOf_of_typed {dataType : DataType} {v : Value}
    (hstring : dataType = .utf8 ∨ dataType = .largeUtf8) (htyped : v.hasType dataType = true) :
    v = .null ∨ ∃ s, v = .utf8 s := by
  rcases hstring with rfl | rfl <;> cases v <;> simp_all [Value.hasType]

theorem blank_of_substitute (engine : Engine) (action : MaskAction) {dataType : DataType}
    {v : {v : Value // v.hasType dataType = true}} (h : MaskingExec.substitute dataType = some v) :
    blank engine action dataType = v := by
  cases dataType with
  | int64 | float64 | boolean =>
    obtain rfl := Option.some.inj h
    rfl
  | utf8 | largeUtf8 | other => exact absurd h (by simp [MaskingExec.substitute])

/-- **One column**: masking replaces its cells by their masked values. -/
theorem applyMaskToColumn_cells {engine : Engine} {col col' : ArrayRef} {colName : String}
    {action : MaskAction}
    (h : MaskingExec.applyMaskToColumn engine col colName action.toPolicy = .ok col') :
    col'.cells = col.cells.map (maskedCell engine col.dataType action) := by
  rw [MaskingExec.applyMaskToColumn] at h
  split at h
  · -- `noop`
    rename_i hnoop
    obtain rfl : action = .noop := by cases action <;> simp_all [MaskAction.toPolicy]
    obtain rfl := Except.ok.inj h
    rw [List.map_congr_left (g := id), List.map_id]
    intro v _
    cases v <;> rfl
  · rename_i hnoop
    split at h
    · -- strings
      rename_i hstring
      obtain rfl := Except.ok.inj h
      refine List.map_congr_left fun v hv => ?_
      rcases textOf_of_typed hstring (col.typed v hv) with rfl | ⟨s, rfl⟩
      · rfl
      · show Value.utf8 (MaskingExec.maskStringValue engine s action.toPolicy) =
          maskedValue engine col.dataType action (.utf8 s)
        rw [maskStringValue_eq]
        rcases hstring with hstring | hstring <;> rw [hstring] <;> cases action <;> rfl
    · rename_i hstring
      split at h
      · -- a cast to text
        rename_i hproducing
        rw [MaskingExec.maskViaUtf8Cast] at h
        split at h
        · exact absurd h (by simp)
        · obtain rfl := Except.ok.inj h
          refine List.map_congr_left fun v _ => ?_
          have hrender : rendering engine col.dataType v = engine.render col.dataType v := by
            cases hdt : col.dataType <;> simp_all [rendering]
          cases hv : v.isNull with
          | true => simp [maskedCell, MaskingExec.castText, MaskingExec.maskText, hv]
          | false =>
            cases hr : engine.render col.dataType v <;> cases action <;>
              simp_all [maskedCell, maskedValue, MaskingExec.castText, MaskingExec.maskText,
                MaskingExec.isStringProducing, MaskAction.toPolicy, MaskingExec.maskStringValue,
                maskedText, lastFour]
      · -- a value of the type itself
        rename_i hproducing
        split at h
        · rename_i w hw
          obtain rfl := Except.ok.inj h
          refine List.map_congr_left fun v _ => ?_
          have hblank := blank_of_substitute engine action hw
          cases hv : v.isNull with
          | true => simp [maskedCell, hv]
          | false =>
            cases action <;>
              simp_all [maskedCell, maskedValue, MaskingExec.isStringProducing,
                MaskAction.toPolicy]
        · exact absurd h (by simp)

end Griot
