import Griot.Lib.Delimited
import Griot.Result.Formatter
import Griot.Lib.Text
import Mathlib.Data.Nat.Prime.Basic
import Mathlib.Data.Rat.Lemmas
import Mathlib.Tactic.FinCases

/-! How objects of scalars are printed.

Without white space a member ends at a comma or at the closing brace, and neither is in a number or a
word; a string shows its own end. So an object of scalars is told apart from every other of as many
members, and is on one line (`Compact.object_inj`, `Compact.object_line`). -/
namespace Griot.Result

open Lib

/-- The numbers that there are. -/
inductive IsNumber : Json → Prop
  | integer (n : ℤ) : IsNumber (.integer n)
  | number {q : ℚ} : (F64.fin q).IsDouble → IsNumber (.number q)
  | negZero : IsNumber .negZero

/-- A value that is no array and no object. -/
inductive Scalar : Json → Prop
  | null : Scalar .null
  | bool (b : Bool) : Scalar (.bool b)
  | number {v : Json} : IsNumber v → Scalar v
  | string (s : String) : Scalar (.string s)

/-- What `serde_json` prints without white space: a string shows its own end and has no raw line
break, a number has only the characters of numbers. -/
structure Compact (serde : SerdeJson) : Prop where
  object : ∀ members, (∀ m ∈ members, Scalar m.2) → serde.toVec (.object members) =
    123 :: ([44].intercalate
      (members.map fun m => serde.toVec (.string m.1) ++ 58 :: serde.toVec m.2) ++ [125])
  null : serde.toVec .null = utf8 "null"
  bool : ∀ b, serde.toVec (.bool b) = utf8 (if b then "true" else "false")
  string_selfDelimiting : SelfDelimiting (fun _ => True) fun s => serde.toVec (.string s)
  string_quoted : ∀ s, (serde.toVec (.string s)).head? = some 34
  string_line : ∀ s, 10 ∉ serde.toVec (.string s)
  number_inj : ∀ v v', IsNumber v → IsNumber v' → serde.toVec v = serde.toVec v' → v = v'
  number_bytes : ∀ v, IsNumber v → serde.toVec v ≠ [] ∧
    ∀ u ∈ serde.toVec v, u ∈ utf8 "+-.0123456789Ee"

/-- A comma or a closing brace. -/
def Stop (u : UInt8) : Prop := u = 44 ∨ u = 125

instance (u : UInt8) : Decidable (Stop u) := inferInstanceAs (Decidable (_ ∨ _))

theorem plain_of_all {bytes : Bytes}
    (h : bytes.all (fun u => !decide (Stop u) && u != 10) = true) :
    ∀ u ∈ bytes, ¬ Stop u ∧ u ≠ 10 := fun u hu => by
  simpa using List.all_eq_true.mp h u hu

section Print
variable {serde : SerdeJson} (h : Compact serde)

include h

/-- The first byte tells strings from other values. -/
theorem Compact.plain {v : Json} (hv : Scalar v) : (∃ s, v = .string s) ∨
    (serde.toVec v).head? ≠ some 34 ∧ ∀ u ∈ serde.toVec v, ¬ Stop u ∧ u ≠ 10 := by
  cases hv with
  | null =>
    refine .inr ?_
    rw [h.null]
    exact ⟨by decide, plain_of_all (by decide)⟩
  | bool b =>
    refine .inr ?_
    rw [h.bool]
    cases b <;> exact ⟨by decide, plain_of_all (by decide)⟩
  | number hnumber =>
    refine .inr ?_
    obtain ⟨hne, hbytes⟩ := h.number_bytes v hnumber
    have hquote : 34 ∉ utf8 "+-.0123456789Ee" := by decide
    have hplain : ∀ u ∈ utf8 "+-.0123456789Ee", ¬ Stop u ∧ u ≠ 10 := plain_of_all (by decide)
    refine ⟨fun hhead => ?_, fun u hu => hplain u (hbytes u hu)⟩
    exact hquote (hbytes 34 (List.mem_of_head? hhead))
  | string s => exact .inl ⟨s, rfl⟩

theorem Compact.scalar_line {v : Json} (hv : Scalar v) : 10 ∉ serde.toVec v := by
  obtain ⟨s, rfl⟩ | ⟨-, hplain⟩ := h.plain hv
  · exact h.string_line s
  · exact fun hmem => (hplain 10 hmem).2 rfl

/-- A word is no number. -/
theorem Compact.number_ne {v : Json} (hv : IsNumber v) {w : Bytes}
    (hw : ∃ u ∈ w, u ∉ utf8 "+-.0123456789Ee") : serde.toVec v ≠ w := by
  obtain ⟨u, hu, hword⟩ := hw
  intro heq
  exact hword ((h.number_bytes v hv).2 u (heq ▸ hu))

theorem Compact.plain_inj {v v' : Json} (hv : Scalar v) (hv' : Scalar v')
    (hne : ∀ s, v ≠ .string s) (hne' : ∀ s, v' ≠ .string s) (heq : serde.toVec v = serde.toVec v') :
    v = v' := by
  have hnull : ∃ u ∈ utf8 "null", u ∉ utf8 "+-.0123456789Ee" := by decide
  have hbool (b : Bool) : ∃ u ∈ utf8 (if b then "true" else "false"), u ∉ utf8 "+-.0123456789Ee" := by
    cases b <;> decide
  cases hv with
  | null =>
    rw [h.null] at heq
    cases hv' with
    | null => rfl
    | bool b =>
      rw [h.bool] at heq
      cases b <;> exact absurd heq (by decide)
    | number hnumber => exact absurd heq.symm (h.number_ne hnumber hnull)
    | string s => exact absurd rfl (hne' s)
  | bool b =>
    rw [h.bool] at heq
    cases hv' with
    | null =>
      rw [h.null] at heq
      cases b <;> exact absurd heq (by decide)
    | bool b' =>
      rw [h.bool] at heq
      cases b <;> cases b' <;> first | rfl | exact absurd heq (by decide)
    | number hnumber => exact absurd heq.symm (h.number_ne hnumber (hbool b))
    | string s => exact absurd rfl (hne' s)
  | number hnumber =>
    cases hv' with
    | null =>
      rw [h.null] at heq
      exact absurd heq (h.number_ne hnumber hnull)
    | bool b =>
      rw [h.bool] at heq
      exact absurd heq (h.number_ne hnumber (hbool b))
    | number hnumber' => exact h.number_inj v v' hnumber hnumber' heq
    | string s => exact absurd rfl (hne' s)
  | string s => exact absurd rfl (hne s)

/-- **Scalars can be read back** where a comma or a closing brace follows. -/
theorem Compact.scalar_delimited : Delimited Stop Scalar serde.toVec := by
  have hhead {v : Json} (hv : Scalar v) (hne : ∀ s, v ≠ .string s) {c : UInt8} (hc : Stop c)
      (s : Bytes) : (serde.toVec v ++ c :: s).head? ≠ some 34 := by
    obtain ⟨s, rfl⟩ | ⟨hplain, -⟩ := h.plain hv
    · exact absurd rfl (hne s)
    · rw [List.head?_append]
      cases hv : (serde.toVec v).head? with
      | none =>
        intro hquote
        obtain rfl := Option.some.inj hquote
        exact absurd hc (by decide)
      | some u => simpa [hv] using hplain
  have hquote (s : String) (rest : Bytes) : (serde.toVec (.string s) ++ rest).head? = some 34 := by
    rw [List.head?_append, h.string_quoted]
    rfl
  intro v v' c d s t hc hd hv hv' heq
  by_cases hstring : ∃ s, v = .string s
  · obtain ⟨x, rfl⟩ := hstring
    by_cases hstring' : ∃ s, v' = .string s
    · obtain ⟨y, rfl⟩ := hstring'
      obtain ⟨rfl, hrest⟩ := h.string_selfDelimiting x y _ _ trivial trivial heq
      exact ⟨rfl, hrest⟩
    · exact absurd (heq ▸ hquote x (c :: s)) (hhead hv' (not_exists.mp hstring') hd t)
  · have hne := not_exists.mp hstring
    by_cases hstring' : ∃ s, v' = .string s
    · obtain ⟨y, rfl⟩ := hstring'
      exact absurd (heq.symm ▸ hquote y (d :: t)) (hhead hv hne hc s)
    · have hne' := not_exists.mp hstring'
      have hfree {w : Json} (hw : Scalar w) (hnew : ∀ s, w ≠ .string s) :
          ∀ u ∈ serde.toVec w, ¬ Stop u := by
        obtain ⟨s, rfl⟩ | ⟨-, hplain⟩ := h.plain hw
        · exact absurd rfl (hnew s)
        · exact fun u hu => (hplain u hu).1
      obtain ⟨hbytes, hrest⟩ := stopFree_append_inj (hfree hv hne) (hfree hv' hne') hc hd heq
      exact ⟨h.plain_inj hv hv' hne hne' hbytes, hrest⟩

/-- **Objects of as many members are told apart.** -/
theorem Compact.object_inj {members members' : List (String × Json)}
    (hscalar : ∀ m ∈ members, Scalar m.2) (hscalar' : ∀ m ∈ members', Scalar m.2)
    (hlength : members.length = members'.length)
    (heq : serde.toVec (.object members) = serde.toVec (.object members')) : members = members' := by
  have hkey : SelfDelimiting (fun _ => True) fun s => serde.toVec (.string s) ++ [58] := by
    intro a b s t _ _ hab
    simp only [List.append_assoc, List.singleton_append] at hab
    obtain ⟨rfl, hrest⟩ := h.string_selfDelimiting a b _ _ trivial trivial hab
    exact ⟨rfl, (List.cons.inj hrest).2⟩
  have hmember := h.scalar_delimited.after hkey
  rw [h.object _ hscalar, h.object _ hscalar'] at heq
  have hsplit (ms : List (String × Json)) :
      (ms.map fun m => serde.toVec (.string m.1) ++ 58 :: serde.toVec m.2) =
        ms.map fun m => serde.toVec (.string m.1) ++ [58] ++ serde.toVec m.2 := by simp
  rw [hsplit, hsplit] at heq
  exact (hmember.join (.inl rfl) (fun m hm => ⟨trivial, hscalar m hm⟩)
    (fun m hm => ⟨trivial, hscalar' m hm⟩) hlength (.inr rfl) (.inr rfl) (List.cons.inj heq).2).1

theorem Compact.object_line {members : List (String × Json)} (hscalar : ∀ m ∈ members, Scalar m.2) :
    10 ∉ serde.toVec (.object members) := by
  rw [h.object _ hscalar]
  intro hmem
  obtain hbrace | hmem := List.mem_cons.mp hmem
  · exact absurd hbrace (by decide)
  · obtain hmem | hbrace := List.mem_append.mp hmem
    · obtain hcomma | ⟨part, hpart, hmem⟩ := mem_intercalate hmem
      · exact absurd hcomma (by decide)
      · obtain ⟨m, hm, rfl⟩ := List.mem_map.mp hpart
        obtain hname | hmem := List.mem_append.mp hmem
        · exact h.string_line m.1 hname
        · exact h.scalar_line (hscalar m hm) ((List.mem_cons.mp hmem).resolve_left (by decide))
    · exact absurd hbrace (by decide)

end Print

/-! ### A printer -/

/-- The digit of a half byte, in lower case. -/
def hexDigit (u : UInt8) : UInt8 := if u < 10 then 48 + u else 87 + u

/-- A byte inside a string. -/
def escapeByte (u : UInt8) : Bytes :=
  if u = 34 ∨ u = 92 then [92, u]
  else if u = 8 then [92, 98]
  else if u = 9 then [92, 116]
  else if u = 10 then [92, 110]
  else if u = 12 then [92, 102]
  else if u = 13 then [92, 114]
  else if u < 32 then [92, 117, 48, 48, hexDigit (u / 16), hexDigit (u % 16)]
  else [u]

def quoted (s : String) : Bytes := 34 :: ((utf8 s).flatMap escapeByte ++ [34])

def hexValue (u : UInt8) : UInt8 := if u < 58 then u - 48 else u - 87

/-- The byte that is printed at the front, none where the string ends. -/
def unescape (x : Bytes) : Option UInt8 :=
  if x.head? = some 34 then none
  else if x.head? = some 92 then
    let escape := x.getD 1 0
    if escape = 117 then some (16 * hexValue (x.getD 4 0) + hexValue (x.getD 5 0))
    else if escape = 98 then some 8
    else if escape = 116 then some 9
    else if escape = 110 then some 10
    else if escape = 102 then some 12
    else if escape = 114 then some 13
    else some escape
  else x.head?

/-- The control bytes, one by one. -/
theorem of_control {P : UInt8 → Prop} (h : ∀ n : Fin 32, P (UInt8.ofNat n)) {u : UInt8} (hu : u < 32) :
    P u := by
  have hlt : u.toNat < 32 := hu
  simpa using h ⟨u.toNat, hlt⟩

theorem hexValue_digits {u : UInt8} (hu : u < 32) :
    16 * hexValue (hexDigit (u / 16)) + hexValue (hexDigit (u % 16)) = u :=
  of_control (P := fun u => 16 * hexValue (hexDigit (u / 16)) + hexValue (hexDigit (u % 16)) = u)
    (by decide) hu

theorem unescape_escapeByte (u : UInt8) (x : Bytes) : unescape (escapeByte u ++ x) = some u := by
  rw [escapeByte]
  split_ifs with hspecial hback htab hline hfeed hreturn hcontrol
  · obtain rfl | rfl := hspecial <;> rfl
  · rw [hback]
    rfl
  · rw [htab]
    rfl
  · rw [hline]
    rfl
  · rw [hfeed]
    rfl
  · rw [hreturn]
    rfl
  · exact congrArg some (hexValue_digits hcontrol)
  · obtain ⟨hquote, hslash⟩ := not_or.mp hspecial
    simp [unescape, hquote, hslash]

theorem escapeByte_line (u : UInt8) : 10 ∉ escapeByte u := by
  rw [escapeByte]
  split_ifs with hspecial hback htab hline hfeed hreturn hcontrol
  · obtain rfl | rfl := hspecial <;> decide
  all_goals try decide
  · exact of_control (P := fun u => 10 ∉ [92, 117, 48, 48, hexDigit (u / 16), hexDigit (u % 16)])
      (by decide) hcontrol
  · exact fun h => hline (List.mem_singleton.mp h).symm

theorem escapes_inj {x y s t : Bytes}
    (h : x.flatMap escapeByte ++ 34 :: s = y.flatMap escapeByte ++ 34 :: t) : x = y ∧ s = t := by
  induction x generalizing y with
  | nil =>
    cases y with
    | nil => exact ⟨rfl, (List.cons.inj h).2⟩
    | cons v y =>
      rw [List.flatMap_cons, List.append_assoc] at h
      have hread := congrArg unescape h
      rw [unescape_escapeByte] at hread
      cases hread
  | cons u x ih =>
    rw [List.flatMap_cons, List.append_assoc] at h
    cases y with
    | nil =>
      have hread := congrArg unescape h
      rw [unescape_escapeByte] at hread
      cases hread
    | cons v y =>
      rw [List.flatMap_cons, List.append_assoc] at h
      have hread := congrArg unescape h
      rw [unescape_escapeByte, unescape_escapeByte] at hread
      obtain rfl := Option.some.inj hread
      obtain ⟨rfl, hrest⟩ := ih (List.append_cancel_left h)
      exact ⟨rfl, hrest⟩

theorem quoted_selfDelimiting : SelfDelimiting (fun _ => True) quoted := by
  intro a b s t _ _ h
  simp only [quoted, List.cons_append, List.append_assoc, List.nil_append] at h
  obtain ⟨hbytes, hrest⟩ := escapes_inj (List.cons.inj h).2
  exact ⟨utf8_inj hbytes, hrest⟩

theorem quoted_line (s : String) : 10 ∉ quoted s := by
  rw [quoted, List.mem_cons, List.mem_append, List.mem_flatMap]
  intro h
  obtain hquote | ⟨u, -, hu⟩ | hquote := h
  · exact absurd hquote (by decide)
  · exact escapeByte_line u hu
  · exact absurd hquote (by decide)

/-- The denominator of a double is a power of two. -/
theorem den_of_isDouble {q : ℚ} (h : (F64.fin q).IsDouble) : ∃ e, q.den = 2 ^ e := by
  have hround := h q rfl
  have hcases : q = 0 ∨ ∃ n : ℤ, q = n * (2 : ℚ) ^ F64.lastPlace q := by
    rw [F64.round_eq] at hround
    split_ifs at hround with hzero hlarge htiny hnegative hnegative
    · exact .inl hzero
    · exact .inl (F64.fin.inj hround).symm
    · refine .inr ⟨-F64.roundHalfEven (|q| / 2 ^ F64.lastPlace q), ?_⟩
      rw [Int.cast_neg, neg_mul]
      exact (F64.fin.inj hround).symm
    · exact .inr ⟨F64.roundHalfEven (|q| / 2 ^ F64.lastPlace q), (F64.fin.inj hround).symm⟩
  obtain rfl | ⟨n, hn⟩ := hcases
  · exact ⟨0, rfl⟩
  · obtain ⟨places, hplaces⟩ : ∃ places : ℕ, 0 ≤ F64.lastPlace q + places :=
      ⟨1074, by have := le_max_right (Int.log 2 |q| - 52) (-1074); unfold F64.lastPlace; omega⟩
    have hvalue : q = Rat.divInt (n * 2 ^ (F64.lastPlace q + places).toNat) (2 ^ places) := by
      rw [Rat.divInt_eq_div]
      push_cast
      rw [eq_div_iff (by positivity), ← zpow_natCast, ← zpow_natCast, Int.toNat_of_nonneg hplaces]
      conv_lhs => rw [hn]
      rw [mul_assoc, ← zpow_add₀ (by norm_num)]
    have hdvd : (q.den : ℤ) ∣ 2 ^ places := hvalue ▸ Rat.den_dvd _ _
    obtain ⟨e, -, he⟩ := (Nat.dvd_prime_pow Nat.prime_two).mp (by exact_mod_cast hdvd)
    exact ⟨e, he⟩

def intText (n : ℤ) : Text := (if n < 0 then ['-'] else []) ++ Nat.toDigits 10 n.natAbs

/-- The number in digits; doubles as decimal fractions, in full. -/
def numberText : Json → Text
  | .integer n => intText n
  | .number q => intText (q.num * 5 ^ Nat.log2 q.den) ++ 'e' :: '-' :: Nat.toDigits 10 (Nat.log2 q.den)
  | .negZero => ['-', '0', '.', '0']
  | _ => []

theorem mem_intText {n : ℤ} {c : Char} (h : c ∈ intText n) : c = '-' ∨ c.isDigit = true := by
  obtain hsign | hdigits := List.mem_append.mp h
  · split_ifs at hsign
    · exact .inl (List.mem_singleton.mp hsign)
    · cases hsign
  · exact .inr (Nat.isDigit_of_mem_toDigits (by decide) (by decide) hdigits)

theorem toDigits_inj {m n : Nat} (h : Nat.toDigits 10 m = Nat.toDigits 10 n) : m = n := by
  rw [← @Nat.ofDigitChars_ten_toDigits m, h, Nat.ofDigitChars_ten_toDigits]

theorem intText_inj {m n : ℤ} (h : intText m = intText n) : m = n := by
  have hsign (k : ℤ) : '-' ∈ intText k ↔ k < 0 := by
    have hdigits : '-' ∉ Nat.toDigits 10 k.natAbs := fun hmem =>
      absurd (Nat.isDigit_of_mem_toDigits (by decide) (by decide) hmem) (by decide)
    rw [intText, List.mem_append, or_iff_left hdigits]
    split_ifs with hk <;> simp [hk]
  have hsame : m < 0 ↔ n < 0 := by rw [← hsign, ← hsign, h]
  have habs : m.natAbs = n.natAbs := by
    have htexts : (if n < 0 then ['-'] else []) ++ Nat.toDigits 10 m.natAbs =
        (if n < 0 then ['-'] else []) ++ Nat.toDigits 10 n.natAbs := by
      simpa only [intText, hsame] using h
    exact toDigits_inj (List.append_cancel_left htexts)
  omega

theorem numberText_inj {v v' : Json} (hv : IsNumber v) (hv' : IsNumber v')
    (h : numberText v = numberText v') : v = v' := by
  have hint (n : ℤ) : 'e' ∉ numberText (.integer n) ∧ '.' ∉ numberText (.integer n) :=
    ⟨fun hmem => absurd (mem_intText hmem) (by decide), fun hmem => absurd (mem_intText hmem) (by decide)⟩
  have hdouble (q : ℚ) : 'e' ∈ numberText (.number q) := by simp [numberText]
  cases hv with
  | integer n =>
    cases hv' with
    | integer n' => exact congrArg _ (intText_inj h)
    | @number q' _ => exact absurd (h ▸ hdouble q') (hint n).1
    | negZero => exact absurd (h ▸ (by decide : '.' ∈ numberText .negZero)) (hint n).2
  | @number q hq =>
    cases hv' with
    | integer n' => exact absurd (h ▸ hdouble q) (hint n').1
    | @number q' hq' =>
      have hsplit : intText (q.num * 5 ^ Nat.log2 q.den) ++ 'e' :: '-' :: Nat.toDigits 10 (Nat.log2 q.den) =
          intText (q'.num * 5 ^ Nat.log2 q'.den) ++ 'e' :: '-' :: Nat.toDigits 10 (Nat.log2 q'.den) := h
      have hdigits : 'e' ∉ '-' :: Nat.toDigits 10 (Nat.log2 q.den) := by
        rw [List.mem_cons, not_or]
        exact ⟨by decide, fun hmem =>
          absurd (Nat.isDigit_of_mem_toDigits (by decide) (by decide) hmem) (by decide)⟩
      obtain ⟨hnum, -, hexponent⟩ := (List.append_cons_inj_of_notMem (hint _).1 hdigits).mp hsplit
      have hlog := toDigits_inj (List.cons.inj hexponent).2
      obtain ⟨e, he⟩ := den_of_isDouble hq
      obtain ⟨e', he'⟩ := den_of_isDouble hq'
      have hden : q.den = q'.den := by
        rw [he, he', Nat.log2_two_pow, Nat.log2_two_pow] at hlog
        rw [he, he', hlog]
      have hnum' : q.num = q'.num := by
        have hmul := intText_inj hnum
        rw [hlog] at hmul
        exact mul_right_cancel₀ (pow_ne_zero _ (by norm_num)) hmul
      exact congrArg _ (Rat.ext hnum' hden)
    | negZero => exact absurd (h ▸ hdouble q) (by decide)
  | negZero =>
    cases hv' with
    | integer n' => exact absurd (h ▸ (by decide : '.' ∈ numberText .negZero)) (hint n').2
    | @number q' _ => exact absurd (h ▸ hdouble q') (by decide)
    | negZero => rfl

theorem mem_numberText {v : Json} (hv : IsNumber v) {c : Char} (hc : c ∈ numberText v) :
    c ∈ "+-.0123456789Ee".toList := by
  have hdigit {c : Char} (h : c.isDigit = true) : c ∈ "+-.0123456789Ee".toList := by
    have hrange : 48 ≤ c.toNat ∧ c.toNat ≤ 57 := by
      simpa [Char.isDigit, UInt32.le_iff_toNat_le] using h
    obtain ⟨n, hn⟩ : ∃ n : Fin 10, c = Char.ofNat (48 + n) :=
      ⟨⟨c.toNat - 48, by omega⟩, by rw [Nat.add_sub_cancel' hrange.1, Char.ofNat_toNat]⟩
    rw [hn]
    fin_cases n <;> decide
  have hint {n : ℤ} (h : c ∈ intText n) : c ∈ "+-.0123456789Ee".toList := by
    obtain rfl | h := mem_intText h
    · decide
    · exact hdigit h
  cases hv with
  | integer n => exact hint hc
  | number =>
    obtain hc | hc := List.mem_append.mp hc
    · exact hint hc
    · obtain rfl | hc := List.mem_cons.mp hc
      · decide
      · obtain rfl | hc := List.mem_cons.mp hc
        · decide
        · exact hdigit (Nat.isDigit_of_mem_toDigits (by decide) (by decide) hc)
  | negZero =>
    have hall : (numberText .negZero).all (· ∈ "+-.0123456789Ee".toList) = true := by decide
    exact of_decide_eq_true (List.all_eq_true.mp hall c hc)

theorem numberText_ne_nil {v : Json} (hv : IsNumber v) : numberText v ≠ [] := by
  cases hv with
  | integer n => simp [numberText, intText, Nat.toDigits_ne_nil]
  | number => simp [numberText]
  | negZero => simp [numberText]

def scalarText : Json → Bytes
  | .null => utf8 "null"
  | .bool b => utf8 (if b then "true" else "false")
  | .string s => quoted s
  | v => utf8 (String.ofList (numberText v))

def readNothing (_ : Bytes) : Option Json := none

theorem readNothing_nil : readNothing [] = none := rfl

/-- A printer for objects of scalars. -/
def linePrinter : SerdeJson where
  fromSlice := readNothing
  toVec := fun
    | .object members => 123 :: ([44].intercalate
        (members.map fun m => scalarText (.string m.1) ++ 58 :: scalarText m.2) ++ [125])
    | v => scalarText v
  fromSlice_nil := readNothing_nil

theorem toVec_linePrinter {v : Json} (hv : Scalar v) : linePrinter.toVec v = scalarText v := by
  cases hv with
  | number hnumber => cases hnumber <;> simp only [linePrinter]
  | _ => rfl

theorem toVec_number {v : Json} (hv : IsNumber v) :
    linePrinter.toVec v = utf8 (String.ofList (numberText v)) := by
  rw [toVec_linePrinter (.number hv)]
  cases hv <;> simp only [scalarText]

theorem compact_linePrinter : Compact linePrinter where
  object := by
    intro members hscalar
    show 123 :: _ = _
    congr 3
    exact List.map_congr_left fun m hm => by rw [toVec_linePrinter (hscalar m hm)]; rfl
  null := rfl
  bool := fun _ => rfl
  string_selfDelimiting := quoted_selfDelimiting
  string_quoted := fun _ => rfl
  string_line := quoted_line
  number_inj := by
    intro v v' hv hv' h
    rw [toVec_number hv, toVec_number hv'] at h
    exact numberText_inj hv hv' (String.ofList_inj.mp (utf8_inj h))
  number_bytes := by
    intro v hv
    rw [toVec_number hv, utf8, String.toList_ofList]
    refine ⟨fun hnil => ?_, fun u hu => ?_⟩
    · obtain ⟨c, rest, hc⟩ := List.exists_cons_of_ne_nil (numberText_ne_nil hv)
      rw [hc, List.flatMap_cons] at hnil
      exact String.utf8EncodeChar_ne_nil (List.append_eq_nil_iff.mp hnil).1
    · obtain ⟨c, hc, hu⟩ := List.mem_flatMap.mp hu
      exact List.mem_flatMap.mpr ⟨c, mem_numberText hv hc, hu⟩

end Griot.Result
