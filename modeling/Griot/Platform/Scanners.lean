import Griot.Lib.ByteOffset
import Griot.Platform.MaskCalls
import Griot.Platform.PurposeGate

/-! The scanners of a bundle's texts, as they run.

A scanner looks for a needle, slices the text behind it and goes on with what is left.
Offsets are in bytes, and a slice that leaves the text or cuts a character is a panic.
A loop gets a number of rounds; more rounds than the text has characters are always
enough, no slice panics, and what comes out is what the scanner is for
(`scanners_finish`). -/
namespace Griot.Platform

open Lib

namespace Bytewise

/-- Why a scan comes to nothing. -/
inductive ScanError where
  /-- A slice that leaves the text or cuts a character. -/
  | panic (text : Text) (start stop : Nat)
  /-- The rounds are used up. -/
  | unfinished

def sliceRange (t : Text) (start stop : Nat) : Except ScanError Text :=
  match Text.slice t start stop with
  | some s => .ok s
  | none => .error (.panic t start stop)

/-- `&t[start..]` -/
def sliceFrom (t : Text) (start : Nat) : Except ScanError Text :=
  sliceRange t start (Text.byteLen t)

/-- `&t[..stop]` -/
def sliceTo (t : Text) (stop : Nat) : Except ScanError Text := sliceRange t 0 stop

/-! ### The scanners -/

def maskRounds (func : String) (action : MaskAction) :
    Nat → Text → Dict String MaskAction → Except ScanError (Dict String MaskAction)
  | 0, _, _ => .error .unfinished
  | rounds + 1, rest, masks => match Text.find func.toList rest with
    | none => .ok masks
    | some pos => do
      let after ← sliceFrom rest (pos + Text.byteLen func.toList)
      match Text.find [')'] after with
      | none => .ok masks
      | some close =>
        let argument ← sliceTo after close
        let col := String.ofList (Text.trimMatches (· = '"') (Text.trim argument))
        let rest ← sliceFrom after (close + 1)
        maskRounds func action rounds rest (if col = "" then masks else masks.insert col action)

def masksFromSql (rounds : Nat) (sql : String) : Except ScanError (Dict String MaskAction) :=
  maskFunctions.foldlM (fun masks f => maskRounds f.1 f.2 rounds sql.toList masks) .empty

/-- The offset is found in the upper-cased copy, and the text itself is sliced. -/
def rowFilterFromSql (sql : String) : Except ScanError (Option String) :=
  match Text.find " WHERE ".toList (Text.upper sql.toList) with
  | none => .ok none
  | some pos => do
    let found ← sliceFrom sql.toList (pos + Text.byteLen " WHERE ".toList)
    let clause := Text.trim found
    let normalised := clause.filter fun c => !Text.isWhitespace c
    return if normalised = [] ∨ normalised = "1=1".toList then none
      else some (String.ofList clause)

def purposeRounds : Nat → Text → List String → Except ScanError (List String)
  | 0, _, _ => .error .unfinished
  | rounds + 1, rest, out => match Text.find "declared_purpose".toList rest with
    | none => .ok out
    | some pos => do
      let after ← sliceFrom rest (pos + Text.byteLen "declared_purpose".toList)
      match Text.find ['"'] after with
      | none => purposeRounds rounds after out
      | some q1 =>
        let tail ← sliceFrom after (q1 + 1)
        match Text.find ['"'] tail with
        | none => purposeRounds rounds after out
        | some q2 =>
          let quoted ← sliceTo tail q2
          let rest ← sliceFrom tail (q2 + 1)
          purposeRounds rounds rest (out ++ [String.ofList quoted])

def allowedPurposes (rounds : Nat) (bundle : CompiledBundle) :
    Except ScanError (Option (List String)) :=
  match bundle.regoBundles.find? fun r => nameContains "purpose" r.name with
  | none => .ok none
  | some rego => (purposeRounds rounds rego.source.toList []).map some

/-! ### Slices at what was found -/

theorem sliceFrom_append (s t : Text) : sliceFrom (s ++ t) (Text.byteLen s) = .ok t := by
  have h := Text.slice_append s t []
  rw [List.append_nil] at h
  rw [sliceFrom, sliceRange, h]

theorem sliceTo_append (s t : Text) : sliceTo (s ++ t) (Text.byteLen s) = .ok s := by
  have h := Text.slice_append [] s t
  rw [sliceTo, sliceRange]
  simp only [List.nil_append, Text.byteLen_nil] at h
  rw [h]

theorem sliceFrom_cut {needle t before after : Text} (h : Text.cut needle t = some (before, after)) :
    sliceFrom t (Text.byteLen before + Text.byteLen needle) = .ok after := by
  rw [Text.cut_eq h, ← Text.byteLen_append]
  exact sliceFrom_append (before ++ needle) after

theorem sliceTo_cut {needle t before after : Text} (h : Text.cut needle t = some (before, after)) :
    sliceTo t (Text.byteLen before) = .ok before := by
  rw [Text.cut_eq h, List.append_assoc]
  exact sliceTo_append before (needle ++ after)

/-! ### What the scanners come to -/

theorem ok_bind {α β : Type} (a : α) (f : α → Except ScanError β) : (Except.ok a >>= f) = f a := rfl

/-- Behind a quote or a parenthesis, which take one byte. -/
theorem sliceFrom_cut_one {c : Char} (hc : Text.byteLen [c] = 1) {t before after : Text}
    (h : Text.cut [c] t = some (before, after)) :
    sliceFrom t (Text.byteLen before + 1) = .ok after := by
  rw [← hc]
  exact sliceFrom_cut h

/-- The rounds do what the loop over the text does, and never run out. -/
theorem maskRounds_eq {func : String} (hfunc : func.toList ≠ []) (action : MaskAction)
    (rounds : Nat) (rest : Text) (masks : Dict String MaskAction) (h : rest.length < rounds) :
    maskRounds func action rounds rest masks =
      .ok (((Text.scan (nextArgument func) rest).filter (· ≠ "")).foldl
        (fun masks col => masks.insert col action) masks) := by
  induction rounds generalizing rest masks with
  | zero => exact absurd h (by omega)
  | succ rounds ih =>
    rw [maskRounds, Text.find_eq hfunc, Text.scan_eq (nextArgument_shortens func)]
    cases hfirst : Text.cut func.toList rest with
    | none => simp [nextArgument, hfirst]
    | some p =>
      obtain ⟨before, after⟩ := p
      simp only [Option.map_some, sliceFrom_cut hfirst, ok_bind,
        Text.find_eq (List.cons_ne_nil ')' [])]
      cases hclose : Text.cut [')'] after with
      | none => simp [nextArgument, hfirst, hclose]
      | some q =>
        obtain ⟨argument, rest'⟩ := q
        have hnext : nextArgument func rest = some (String.ofList (bareColumn argument), rest') := by
          simp [nextArgument, hfirst, hclose, bareColumn]
        have hlt := nextArgument_shortens func rest _ _ hnext
        simp only [Option.map_some, sliceTo_cut hclose,
          sliceFrom_cut_one (c := ')') (by decide) hclose, ok_bind, hnext]
        rw [ih rest' _ (by omega)]
        by_cases hcol : String.ofList (bareColumn argument) = ""
        · rw [List.filter_cons_of_neg (by simp [hcol])]
          simp only [bareColumn] at hcol
          rw [if_pos hcol]
        · rw [List.filter_cons_of_pos (by simp [hcol]), List.foldl_cons]
          simp only [bareColumn] at hcol
          rw [if_neg hcol]
          rfl

theorem masksFromSql_eq {rounds : Nat} {sql : String} (h : sql.toList.length < rounds) :
    masksFromSql rounds sql = .ok (Platform.masksFromSql sql) := by
  have hfold : ∀ (fs : List (String × MaskAction)) (masks : Dict String MaskAction),
      (∀ f ∈ fs, f.1.toList ≠ []) →
      fs.foldlM (fun masks f => maskRounds f.1 f.2 rounds sql.toList masks) masks =
        .ok ((fs.flatMap fun f => ((Text.scan (nextArgument f.1) sql.toList).filter (· ≠ "")).map
          (·, f.2)).foldl (fun masks e => masks.insert e.1 e.2) masks) := by
    intro fs
    induction fs with
    | nil => exact fun _ _ => rfl
    | cons f fs ih =>
      intro masks hne
      rw [List.forall_mem_cons] at hne
      rw [List.foldlM_cons, maskRounds_eq hne.1 f.2 rounds sql.toList masks h, ok_bind,
        ih _ hne.2, List.flatMap_cons, List.foldl_append, List.foldl_map]
  rw [masksFromSql, hfold maskFunctions .empty (by decide)]
  rfl

/-- The upper-cased copy has its characters at the same offsets. -/
theorem byteLen_upper (t : Text) : Text.byteLen (Text.upper t) = Text.byteLen t := by
  have hletters : ∀ n < 123, 97 ≤ n →
      (Char.ofNat n).toUpper.utf8Size = (Char.ofNat n).utf8Size := by decide +kernel
  induction t with
  | nil => rfl
  | cons c t ih =>
    have hsize : c.toUpper.utf8Size = c.utf8Size := by
      obtain h | ⟨n, hn, hle, rfl⟩ := Text.toUpper_cases c
      · rw [h]
      · exact hletters n hn hle
    rw [Text.upper, List.map_cons, Text.byteLen_cons, Text.byteLen_cons, hsize]
    exact congrArg _ ih

/-- An offset found in the upper-cased copy is good for the text itself. -/
theorem sliceFrom_upper {needle t before after : Text}
    (h : Text.cut needle (Text.upper t) = some (before, after)) :
    sliceFrom t (Text.byteLen before + Text.byteLen needle) =
      .ok (t.drop (before.length + needle.length)) := by
  have htake : Text.upper (t.take (before.length + needle.length)) = before ++ needle := by
    rw [Text.upper, List.map_take, ← Text.upper, Text.cut_eq h, ← List.length_append,
      List.take_left]
  have hlen := byteLen_upper (t.take (before.length + needle.length))
  rw [htake, Text.byteLen_append] at hlen
  have hslice := sliceFrom_append (t.take (before.length + needle.length))
    (t.drop (before.length + needle.length))
  rwa [List.take_append_drop, ← hlen] at hslice

theorem rowFilterFromSql_eq (sql : String) :
    rowFilterFromSql sql = .ok (Platform.rowFilterFromSql sql) := by
  rw [rowFilterFromSql, Platform.rowFilterFromSql, Text.find_eq (by decide)]
  cases hcut : Text.cut " WHERE ".toList (Text.upper sql.toList) with
  | none => rfl
  | some p =>
    obtain ⟨before, after⟩ := p
    simp only [Option.map_some, sliceFrom_upper hcut]
    rfl

theorem purposeRounds_eq (rounds : Nat) (rest : Text) (out : List String)
    (h : rest.length < rounds) :
    purposeRounds rounds rest out = .ok (out ++ (Text.scan nextPurpose rest).filterMap id) := by
  induction rounds generalizing rest out with
  | zero => exact absurd h (by omega)
  | succ rounds ih =>
    rw [purposeRounds, Text.find_eq (by decide), Text.scan_eq nextPurpose_shortens]
    cases hfirst : Text.cut "declared_purpose".toList rest with
    | none =>
      have hnext : nextPurpose rest = none := by rw [nextPurpose, hfirst]
      simp [hnext]
    | some p =>
      obtain ⟨before, after⟩ := p
      have hquote : Text.byteLen ['"'] = 1 := by decide
      simp only [Option.map_some, sliceFrom_cut hfirst, ok_bind,
        Text.find_eq (List.cons_ne_nil '"' [])]
      cases hopen : Text.cut ['"'] after with
      | none =>
        have hnext : nextPurpose rest = some (none, after) := by
          rw [nextPurpose, hfirst]
          simp only [hopen]
        have hlt := nextPurpose_shortens rest _ _ hnext
        simp [hnext, ih after out (by omega)]
      | some q =>
        obtain ⟨gap, tail⟩ := q
        simp only [Option.map_some, sliceFrom_cut_one hquote hopen, ok_bind]
        cases hclose : Text.cut ['"'] tail with
        | none =>
          have hnext : nextPurpose rest = some (none, after) := by
            rw [nextPurpose, hfirst]
            simp only [hopen, hclose]
          have hlt := nextPurpose_shortens rest _ _ hnext
          simp [hnext, ih after out (by omega)]
        | some r =>
          obtain ⟨text, rest'⟩ := r
          have hnext : nextPurpose rest = some (some (String.ofList text), rest') := by
            rw [nextPurpose, hfirst]
            simp only [hopen, hclose]
          have hlt := nextPurpose_shortens rest _ _ hnext
          simp [hnext, sliceTo_cut hclose, sliceFrom_cut_one hquote hclose, ok_bind,
            ih rest' _ (by omega)]

theorem allowedPurposes_eq {rounds : Nat} {bundle : CompiledBundle}
    (h : ∀ rego ∈ bundle.regoBundles, rego.source.toList.length < rounds) :
    allowedPurposes rounds bundle = .ok (Platform.allowedPurposes bundle) := by
  rw [allowedPurposes, Platform.allowedPurposes]
  cases hfind : bundle.regoBundles.find? fun r => nameContains "purpose" r.name with
  | none => rfl
  | some rego =>
    simp only [purposeRounds_eq rounds _ [] (h rego (List.mem_of_find?_eq_some hfind))]
    rfl

/-- **The scanners end and never panic**: with more rounds than the text has characters each
comes to a result, whatever the texts, and it is the one the scanner is for. -/
theorem scanners_finish (sql : String) (bundle : CompiledBundle) (rounds : Nat)
    (hsql : sql.length < rounds)
    (hbundle : ∀ rego ∈ bundle.regoBundles, rego.source.length < rounds) :
    masksFromSql rounds sql = .ok (Platform.masksFromSql sql) ∧
      rowFilterFromSql sql = .ok (Platform.rowFilterFromSql sql) ∧
      allowedPurposes rounds bundle = .ok (Platform.allowedPurposes bundle) :=
  ⟨masksFromSql_eq hsql, rowFilterFromSql_eq sql, allowedPurposes_eq hbundle⟩

/-- Characters of two bytes in the masked column and before the filter. -/
def umlautTemplate : String :=
  "SELECT sha256_hex(\"größe\") AS größe FROM maße where ort = 'Zürich'"

theorem umlautTemplate_finishes :
    masksFromSql 100 umlautTemplate = .ok (Platform.masksFromSql umlautTemplate) ∧
      rowFilterFromSql umlautTemplate = .ok (Platform.rowFilterFromSql umlautTemplate) ∧
      allowedPurposes 100 (withGate analyticsGate).bundle =
        .ok (Platform.allowedPurposes (withGate analyticsGate).bundle) := by
  refine scanners_finish umlautTemplate (withGate analyticsGate).bundle 100 (by decide) ?_
  intro rego hrego
  obtain rfl := List.mem_singleton.mp hrego
  decide

end Bytewise
end Griot.Platform
