import Griot.Data.F64
import Griot.Lib.Dict
import Griot.Lib.Framing
import Mathlib.Data.String.Basic

/-! JSON documents and what a derived reader makes of them.

`Json` is a parsed document: an object keeps its members in order, repeats
included, because a derived struct reader rejects a repeated field that it knows
and skips one that it does not. A number written without fraction and exponent is
an `integer`. `ill` is a token that only a skipping reader
accepts (a string whose escapes denote no text). Reading bytes and writing them
is `SerdeJson`, the third-party parser and printer. -/
namespace Griot

open Lib

inductive Json where
  | null
  | bool (b : Bool)
  | number (q : ℚ)
  | integer (n : ℤ)
  /-- `-0` and `-0.0`: a double, zero with its sign. -/
  | negZero
  | string (s : String)
  | array (items : List Json)
  | object (members : List (String × Json))
  | ill

/-- `serde_json::from_slice` up to the document, and `serde_json::to_vec`. -/
structure SerdeJson where
  fromSlice : Bytes → Option Json
  toVec : Json → Bytes
  /-- There is no document in no bytes. -/
  fromSlice_nil : fromSlice [] = none

/-- A reader and printer for one document, whose text is `text`. -/
def SerdeJson.just (text : String) (doc : Json) (h : text ≠ "") : SerdeJson where
  fromSlice := fun bytes => if bytes = utf8 text then some doc else none
  toVec := fun _ => utf8 text
  fromSlice_nil := if_neg (ne_utf8 h)

theorem SerdeJson.just_fromSlice (text : String) (doc : Json) (h : text ≠ "") :
    (SerdeJson.just text doc h).fromSlice (utf8 text) = some doc := by
  simp [just]

theorem SerdeJson.just_roundTrip (text : String) (doc : Json) (h : text ≠ "") :
    (SerdeJson.just text doc h).fromSlice ((SerdeJson.just text doc h).toVec doc) = some doc :=
  SerdeJson.just_fromSlice text doc h

theorem mem_of_mapM_some {α β : Type} {f : α → Option β} {l : List α} {bs : List β}
    (h : l.mapM f = some bs) {b : β} (hb : b ∈ bs) : ∃ a ∈ l, f a = some b := by
  induction l generalizing bs with
  | nil =>
    obtain rfl := Option.some.inj h
    cases hb
  | cons a l ih =>
    rw [List.mapM_cons] at h
    obtain ⟨b', hb', h⟩ := Option.bind_eq_some_iff.mp h
    obtain ⟨bs', hbs', h⟩ := Option.bind_eq_some_iff.mp h
    obtain rfl := Option.some.inj h
    obtain rfl | hb := List.mem_cons.mp hb
    · exact ⟨a, List.mem_cons_self .., hb'⟩
    · obtain ⟨x, hx, hxb⟩ := ih hbs' hb
      exact ⟨x, List.mem_cons_of_mem _ hx, hxb⟩

namespace Json

def asString : Json → Option String
  | .string s => some s
  | _ => none

/-- A number too large for a double is an error. -/
def asF64 : Json → Option F64
  | .number q => finite (F64.round q)
  | .integer n => finite (F64.round n)
  | .negZero => some .negZero
  | _ => none
where
  finite : F64 → Option F64
    | .inf _ => none
    | x => some x

/-- An unsigned number of the given width. -/
def asUnsigned (width : Nat) : Json → Option Nat
  | .integer n => if 0 ≤ n ∧ n < 2 ^ width then some n.toNat else none
  | _ => none

/-- `Option<T>`: `null` is `None`. -/
def asOption {α : Type} (read : Json → Option α) : Json → Option (Option α)
  | .null => some none
  | j => (read j).map some

/-- `Vec<T>`. -/
def asVec {α : Type} (read : Json → Option α) : Json → Option (List α)
  | .array items => items.mapM read
  | _ => none

/-- `HashMap<String, T>`: of repeated keys the last wins. -/
def asMap {α : Type} (read : Json → Option α) : Json → Option (Dict String α)
  | .object members => (members.mapM fun m => (read m.2).map (m.1, ·)).map Dict.ofList
  | _ => none

/-! ### Derived struct readers -/

/-- The values an object gives for a member. -/
def valuesOf (name : String) (members : List (String × Json)) : List Json :=
  (members.filter fun m => m.1 = name).map Prod.snd

/-- What a document gives for field number `i`, called `name`: by name in an
object, by position in an array. A repeated name is an error. -/
def field (i : Nat) (name : String) : Json → Option (Option Json)
  | .object members => match valuesOf name members with
    | [] => some none
    | [v] => some (some v)
    | _ => none
  | .array items => some items[i]?
  | _ => none

/-- A field read with `read`; `default` when it is absent, where `none` makes it required. -/
def fieldOr {α : Type} (i : Nat) (name : String) (read : Json → Option α) (default : Option α)
    (doc : Json) : Option α :=
  match doc.field i name with
  | none => none
  | some none => default
  | some (some v) => read v

theorem fieldOr_object {α : Type} (i : Nat) (name : String) (read : Json → Option α)
    (default : Option α) {members : List (String × Json)} (h : valuesOf name members = []) :
    fieldOr i name read default (.object members) = default := by
  simp [fieldOr, field, h]

theorem fieldOr_array {α : Type} (i : Nat) (name : String) (read : Json → Option α)
    (default : Option α) (items : List Json) :
    fieldOr i name read default (.array items) = (items[i]?).elim default read := by
  cases h : items[i]? <;> simp [fieldOr, field, h]

/-- An array has no more items than the struct has fields. -/
def fits (fields : Nat) : Json → Bool
  | .object _ => true
  | .array items => items.length ≤ fields
  | _ => false

/-! ### What was read -/

theorem asF64_finite {x y : F64} (h : asF64.finite x = some y) (hnan : x ≠ .nan) :
    y = x ∧ x.isFinite = true := by
  cases x with
  | fin q => exact ⟨(Option.some.inj h).symm, rfl⟩
  | negZero => exact ⟨(Option.some.inj h).symm, rfl⟩
  | inf negative => cases h
  | nan => exact absurd rfl hnan

/-- What is read as a double is one, and finite. -/
theorem asF64_isDouble {j : Json} {x : F64} (h : j.asF64 = some x) :
    x.IsDouble ∧ x.isFinite = true := by
  cases j with
  | number q =>
    obtain ⟨rfl, hfinite⟩ := asF64_finite h (F64.round_ne_nan q)
    exact ⟨F64.round_isDouble q, hfinite⟩
  | integer n =>
    obtain ⟨rfl, hfinite⟩ := asF64_finite h (F64.round_ne_nan n)
    exact ⟨F64.round_isDouble n, hfinite⟩
  | negZero =>
    obtain rfl := Option.some.inj h
    exact ⟨fun _ hq => absurd hq (by simp), rfl⟩
  | null | bool | string | array | object | ill => cases h

theorem fieldOr_eq_some {α : Type} {i : Nat} {name : String} {read : Json → Option α}
    {default : Option α} {doc : Json} {a : α} (h : doc.fieldOr i name read default = some a) :
    default = some a ∨ ∃ v, read v = some a := by
  rw [fieldOr] at h
  split at h
  · cases h
  · exact .inl h
  · exact .inr ⟨_, h⟩

theorem of_asMap {α : Type} {read : Json → Option α} {doc : Json} {d : Dict String α}
    (h : doc.asMap read = some d) {k : String} {a : α} (hk : d.lookup k = some a) :
    ∃ v, read v = some a := by
  cases doc with
  | object members =>
    obtain ⟨entries, hentries, rfl⟩ := Option.map_eq_some_iff.mp h
    have hmem := Dict.mem_of_lookup_ofList hk
    obtain ⟨m, -, hm⟩ := mem_of_mapM_some hentries hmem
    obtain ⟨a', ha', heq⟩ := Option.map_eq_some_iff.mp hm
    obtain ⟨-, rfl⟩ := Prod.mk.inj heq
    exact ⟨_, ha'⟩
  | null | bool | number | integer | negZero | string | array | ill => cases h

end Json
end Griot
