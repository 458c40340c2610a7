import Griot.Platform.Mapping
import Griot.Sql.Tokens

/-! Whether the row filter of a template is its `WHERE` clause.

The clause of a `SELECT` stands behind the keyword at the top of the text, in any case and
between any blanks, and ends at the next clause, a semicolon or the end. The mapping takes
the text behind the first `WHERE` that has one plain space on either side, wherever that is,
up to the end. So a filter is kept exactly where these are the same, where there is no filter
to be lost, or where the text behind some later `WHERE` happens to repeat the clause
(`keeps_iff`). -/
namespace Griot.Platform

open Lib Sql

/-! ### The clause of a statement -/

/-- A statement cut at its clause. -/
structure WhereClause where
  before : Text
  keyword : Text
  predicate : Text
  rest : Text
  deriving DecidableEq

/-- What can come after the predicate. -/
def laterClauses : List String :=
  ["GROUP", "HAVING", "WINDOW", "QUALIFY", "ORDER", "LIMIT", "OFFSET", "FETCH", "FOR", "UNION",
    "INTERSECT", "EXCEPT"]

def endsClause (seen : List Token) (t : Token) : Bool :=
  t.isSymbol ';' || startsClause laterClauses seen t

/-- Up to the end of the clause, and from there. -/
def predicateOf (keyword : Token) (found : List Token) : List Token × List Token :=
  match cutTop endsClause 0 [keyword] found with
  | some (predicate, t, rest) => (predicate, t :: rest)
  | none => (found, [])

/-- The clause at the top of a statement; a keyword without a predicate is none. -/
def whereClause (d : Dialect) (s : Text) : Option WhereClause :=
  match cutTop (startsClause ["WHERE"]) 0 [] (tokens d s) with
  | none => none
  | some (before, keyword, found) =>
    let (predicate, rest) := predicateOf keyword found
    let clause := ⟨before.flatMap Token.text, keyword.text, predicate.flatMap Token.text,
      rest.flatMap Token.text⟩
    if clause.predicate.all Text.isWhitespace then none else some clause

/-! ### The text the mapping takes -/

/-- What stands around the first `WHERE` between plain spaces, the spaces included. -/
def spelledWhere (s : Text) : Option (Text × Text) :=
  (Text.cut " WHERE ".toList (Text.upper s)).map fun p =>
    (s.take (p.1.length + 1), s.drop (p.1.length + 6))

/-- The characters of a predicate that says nothing. -/
def Trivial (predicate : Text) : Prop := Text.solid predicate = "1=1".toList

instance (predicate : Text) : Decidable (Trivial predicate) := inferInstanceAs (Decidable (_ = _))

/-! ### Where the two cuts are -/

/-- What is known of a clause. -/
structure WhereClause.Cuts (w : WhereClause) (s : Text) : Prop where
  text : s = w.before ++ w.keyword ++ w.predicate ++ w.rest
  keyword : Text.upper w.keyword = "WHERE".toList
  predicate : Text.solid w.predicate ≠ []
  rest : Text.solid w.rest = [] → w.rest = []

theorem upper_of_isKeyword {words : List String} {t : Token} (h : t.isKeyword words = true) :
    ∃ w ∈ words, Text.upper t.text = w.toList := by
  rw [Token.isKeyword, Bool.and_eq_true, List.any_eq_true] at h
  obtain ⟨-, w, hw, heq⟩ := h
  exact ⟨w, hw, (of_decide_eq_true heq).symm⟩

/-- What ends a clause is not blank. -/
theorem solid_of_endsClause {seen : List Token} {t : Token} (h : endsClause seen t = true) :
    Text.solid t.text ≠ [] := by
  rw [endsClause, Bool.or_eq_true] at h
  obtain h | h := h
  · rw [Token.isSymbol, Bool.and_eq_true] at h
    rw [of_decide_eq_true h.2]
    decide
  · rw [startsClause, Bool.and_eq_true] at h
    obtain ⟨w, hw, heq⟩ := upper_of_isKeyword h.1
    have hwords : ∀ w ∈ laterClauses, Text.solid w.toList ≠ [] := by decide
    intro hnil
    have hupper := Text.solid_upper t.text
    rw [heq, hnil] at hupper
    exact hwords w hw hupper

theorem predicateOf_eq {keyword : Token} {found predicate rest : List Token}
    (h : predicateOf keyword found = (predicate, rest)) :
    found = predicate ++ rest ∧
      (Text.solid (rest.flatMap Token.text) = [] → rest.flatMap Token.text = []) := by
  rw [predicateOf] at h
  split at h
  · rename_i predicate' t rest' hcut
    obtain ⟨rfl, rfl⟩ := Prod.mk.inj h
    obtain ⟨heq, seen, hends⟩ := cutTop_eq hcut
    refine ⟨heq, fun hnil => ?_⟩
    rw [List.flatMap_cons, Text.solid_append, List.append_eq_nil_iff] at hnil
    exact absurd hnil.1 (solid_of_endsClause hends)
  · obtain ⟨rfl, rfl⟩ := Prod.mk.inj h
    exact ⟨(List.append_nil _).symm, fun _ => rfl⟩

theorem cuts_of_whereClause {d : Dialect} {s : Text} {w : WhereClause}
    (h : whereClause d s = some w) : w.Cuts s := by
  rw [whereClause] at h
  split at h
  · cases h
  · rename_i before keyword found hcut
    rcases hpredicate : predicateOf keyword found with ⟨predicate, rest⟩
    simp only [hpredicate] at h
    split at h
    · cases h
    · rename_i hblank
      obtain rfl := Option.some.inj h
      obtain ⟨heq, seen, hstarts⟩ := cutTop_eq hcut
      obtain ⟨hfound, hrest⟩ := predicateOf_eq hpredicate
      rw [startsClause, Bool.and_eq_true] at hstarts
      obtain ⟨word, hword, hupper⟩ := upper_of_isKeyword hstarts.1
      obtain rfl := List.mem_singleton.mp hword
      refine ⟨?_, hupper, ?_, hrest⟩
      · rw [← tokens_text d s, heq, hfound]
        simp
      · intro hnil
        refine hblank (List.all_eq_true.mpr fun c hc => ?_)
        by_contra hsolid
        have hmem : c ∈ Text.solid (predicate.flatMap Token.text) :=
          List.mem_filter.mpr ⟨hc, by simpa using hsolid⟩
        rw [hnil] at hmem
        cases hmem

/-- What is known of the first `WHERE` between spaces. -/
structure Spelled (s before found : Text) : Prop where
  text : ∃ word, s = before ++ word ++ found ∧ Text.upper word = "WHERE".toList
  before : ∃ b, before = b ++ [' ']
  found : ∃ f, found = ' ' :: f

theorem spelled_of_spelledWhere {s before found : Text}
    (h : spelledWhere s = some (before, found)) : Spelled s before found := by
  obtain ⟨⟨b, f⟩, hcut, heq⟩ := Option.map_eq_some_iff.mp h
  have hupper : Text.upper s = b ++ ([' '] ++ ("WHERE".toList ++ (' ' :: f))) := by
    simpa using Text.cut_eq hcut
  obtain ⟨b', s₁, rfl, rfl, hs₁⟩ := List.map_eq_append_iff.mp hupper
  obtain ⟨x, s₂, rfl, hx, hs₂⟩ := List.map_eq_append_iff.mp hs₁
  obtain ⟨word, s₃, rfl, hword, hs₃⟩ := List.map_eq_append_iff.mp hs₂
  obtain ⟨a, rfl, ha⟩ := List.map_eq_singleton_iff.mp hx
  obtain ⟨y, f', rfl, hy, -⟩ := List.map_eq_cons_iff.mp hs₃
  rw [Text.eq_space_of_toUpper ha, Text.eq_space_of_toUpper hy] at heq
  have hlength : word.length = 5 := by simpa using congrArg List.length hword
  have htake : (b' ++ ([' '] ++ (word ++ ' ' :: f'))).take (b'.length + 1) = b' ++ [' '] := by
    rw [← List.append_assoc, List.take_left' (by simp)]
  have hdrop : (b' ++ ([' '] ++ (word ++ ' ' :: f'))).drop (b'.length + 6) = ' ' :: f' := by
    simp [hlength]
  simp only [List.length_map, htake, hdrop] at heq
  obtain ⟨rfl, rfl⟩ := Prod.mk.inj heq
  refine ⟨⟨word, ?_, hword⟩, ⟨b', rfl⟩, ⟨f', rfl⟩⟩
  rw [Text.eq_space_of_toUpper ha, Text.eq_space_of_toUpper hy]
  simp

theorem rowFilterFromSql_eq (sql : String) :
    rowFilterFromSql sql = match spelledWhere sql.toList with
      | none => none
      | some (_, found) =>
        if Text.solid found = [] ∨ Trivial found then none
        else some (String.ofList (Text.trim found)) := by
  cases hspelled : spelledWhere sql.toList with
  | none => rw [rowFilterFromSql, Option.map_eq_none_iff.mp hspelled]
  | some p =>
    obtain ⟨f, hfound⟩ := (spelled_of_spelledWhere hspelled).found
    obtain ⟨⟨b, after⟩, hcut, rfl⟩ := Option.map_eq_some_iff.mp hspelled
    change sql.toList.drop (b.length + 6) = ' ' :: f at hfound
    have hdrop : sql.toList.drop (b.length + " WHERE ".length) = f := by
      have htail := congrArg List.tail hfound
      rwa [List.tail_drop] at htail
    have hsolid : (Text.trim f).filter (!Text.isWhitespace ·) = Text.solid (' ' :: f) :=
      Text.solid_trim f
    simp only [rowFilterFromSql, hcut, hdrop, hsolid, hfound, Trivial,
      Text.trim_cons_blank (show Text.isWhitespace ' ' = true by decide)]


/-! ### Filters that are kept -/

section Keeps
variable (d : Dialect) (sql : String)

/-- **The filter is neither lost nor altered**: it is the predicate of the clause, or nothing
where the predicate is trivial, and there is none without a clause. -/
def KeepsFilter : Prop :=
  match whereClause d sql.toList with
  | none => rowFilterFromSql sql = none
  | some w => rowFilterFromSql sql = some (String.ofList (Text.trim w.predicate)) ∨
    rowFilterFromSql sql = none ∧ Trivial w.predicate

/-- The first `WHERE` between spaces is the keyword of the clause, and the predicate ends the
text. -/
def SpelledPlainly : Prop :=
  ∃ w, whereClause d sql.toList = some w ∧ spelledWhere sql.toList = some (w.before, w.predicate)

/-- There is no predicate to lose, and no text that is taken for one. -/
structure NothingToKeep : Prop where
  clause : ∀ w, whereClause d sql.toList = some w → Trivial w.predicate
  spelled : ∀ before found, spelledWhere sql.toList = some (before, found) →
    Text.solid found = [] ∨ Trivial found

/-- The first `WHERE` between spaces comes after the keyword of the clause, and what follows it
is the predicate once more. -/
def RepeatsPredicate : Prop :=
  ∃ w before found, whereClause d sql.toList = some w ∧
    spelledWhere sql.toList = some (before, found) ∧ w.before.length < before.length ∧
    Text.trim found = Text.trim w.predicate

variable {d sql}

theorem rowFilterFromSql_eq_none_iff : rowFilterFromSql sql = none ↔
    ∀ before found, spelledWhere sql.toList = some (before, found) →
      Text.solid found = [] ∨ Trivial found := by
  rw [rowFilterFromSql_eq]
  cases spelledWhere sql.toList with
  | none => simp
  | some p =>
    obtain ⟨before, found⟩ := p
    simp [← or_iff_not_imp_left]

theorem rowFilterFromSql_eq_some_iff {predicate : Text} :
    rowFilterFromSql sql = some (String.ofList (Text.trim predicate)) ↔
      ∃ before found, spelledWhere sql.toList = some (before, found) ∧
        Text.trim found = Text.trim predicate ∧ Text.solid predicate ≠ [] ∧ ¬Trivial predicate := by
  have hsame : ∀ found, Text.trim found = Text.trim predicate →
      Text.solid found = Text.solid predicate := by
    intro found htrim
    rw [← Text.solid_trim found, htrim, Text.solid_trim]
  rw [rowFilterFromSql_eq]
  cases spelledWhere sql.toList with
  | none => simp
  | some p =>
    obtain ⟨before, found⟩ := p
    constructor
    · intro h
      simp only at h
      split at h
      · cases h
      · rename_i hsolid
        have htrim := String.ofList_injective (Option.some.inj h)
        rw [not_or, Trivial, hsame found htrim] at hsolid
        exact ⟨before, found, rfl, htrim, hsolid⟩
    · intro ⟨before', found', heq, htrim, hsolid, htrivial⟩
      obtain ⟨rfl, rfl⟩ := Prod.mk.inj (Option.some.inj heq)
      have hmute : ¬(Text.solid found = [] ∨ Trivial found) := by
        rw [not_or, Trivial, hsame found htrim]
        exact ⟨hsolid, htrivial⟩
      simp only [if_neg hmute, htrim]

theorem solid_of_upper {word : Text} (h : Text.upper word = "WHERE".toList) :
    (Text.solid word).length = 5 := by
  have hupper := congrArg List.length (Text.solid_upper word)
  rw [h, Text.upper, List.length_map] at hupper
  rw [← hupper]
  decide

/-- **Where the cuts differ, the first comes later**: in front of it would be as much that is not
blank as in front of the clause and behind it. -/
theorem spelled_eq_or_later {s before found : Text} {w : WhereClause} (hw : w.Cuts s)
    (hspelled : Spelled s before found) (htrim : Text.trim found = Text.trim w.predicate) :
    (before = w.before ∧ found = w.predicate) ∨ w.before.length < before.length := by
  obtain hlater | hle := Nat.lt_or_ge w.before.length before.length
  · exact .inr hlater
  obtain ⟨word, htext, hword⟩ := hspelled.text
  have hcuts : before ++ (word ++ found) = w.before ++ (w.keyword ++ (w.predicate ++ w.rest)) := by
    rw [← List.append_assoc, ← htext, hw.text]
    simp
  -- The clause begins no earlier, so only blanks can be between, and nothing is behind.
  obtain ⟨between, hbefore⟩ : before <+: w.before :=
    List.prefix_of_prefix_length_le ⟨_, rfl⟩ ⟨_, hcuts.symm⟩ hle
  have hcount := congrArg (fun t => (Text.solid t).length) hcuts
  have hsame : Text.solid found = Text.solid w.predicate := by
    rw [← Text.solid_trim found, htrim, Text.solid_trim]
  simp only [← hbefore, Text.solid_append, List.length_append, hsame, solid_of_upper hword,
    solid_of_upper hw.keyword] at hcount
  have hbetween : (Text.solid between).length = 0 := by omega
  have hrest : w.rest = [] := hw.rest (List.eq_nil_of_length_eq_zero (by omega))
  rw [← hbefore, hrest, List.append_nil, List.append_assoc, List.append_cancel_left_eq] at hcuts
  cases between with
  | nil =>
    have hlength : word.length = w.keyword.length := by
      have := congrArg List.length (hword.trans hw.keyword.symm)
      simpa [Text.upper] using this
    rw [List.nil_append] at hcuts
    obtain ⟨-, hfound⟩ := List.append_inj hcuts hlength
    exact .inl ⟨by rw [← hbefore, List.append_nil], hfound⟩
  | cons c between =>
    -- The keyword would begin with a blank.
    have hblank : Text.isWhitespace c = true := by
      by_contra hsolid
      simp [Text.solid, hsolid] at hbetween
    obtain ⟨c', word', rfl⟩ : ∃ c' word', word = c' :: word' := by
      cases word with
      | nil => cases hword
      | cons c' word' => exact ⟨c', word', rfl⟩
    obtain rfl : c' = c := (List.cons.inj hcuts).1
    have hfive := solid_of_upper hword
    have hlength : word'.length = 4 := by simpa [Text.upper] using congrArg List.length hword
    have hle := List.length_filter_le (!Text.isWhitespace ·) word'
    simp only [Text.solid, List.filter_cons, hblank] at hfive
    simp at hfive
    omega

variable (d sql) in
/-- **When the filter is kept**: the clause is spelled plainly and its predicate ends the text,
there is nothing to keep, or what is taken repeats the predicate. -/
theorem keepsFilter_iff : KeepsFilter d sql ↔
    SpelledPlainly d sql ∨ NothingToKeep d sql ∨ RepeatsPredicate d sql := by
  constructor
  · intro h
    rw [KeepsFilter] at h
    split at h
    · rename_i hnone
      exact .inr (.inl ⟨fun w hw => (nomatch hnone.symm.trans hw), rowFilterFromSql_eq_none_iff.mp h⟩)
    · rename_i w hw
      cases h with
      | inl hsome =>
        obtain ⟨before, found, hspelled, htrim, -⟩ := rowFilterFromSql_eq_some_iff.mp hsome
        obtain ⟨rfl, rfl⟩ | hlater := spelled_eq_or_later (cuts_of_whereClause hw)
          (spelled_of_spelledWhere hspelled) htrim
        · exact .inl ⟨w, hw, hspelled⟩
        · exact .inr (.inr ⟨w, before, found, hw, hspelled, hlater, htrim⟩)
      | inr hnone =>
        refine .inr (.inl ⟨fun w' hw' => ?_, rowFilterFromSql_eq_none_iff.mp hnone.1⟩)
        obtain rfl := Option.some.inj (hw.symm.trans hw')
        exact hnone.2
  · have hfound : ∀ w before found, whereClause d sql.toList = some w →
        spelledWhere sql.toList = some (before, found) →
        Text.trim found = Text.trim w.predicate → KeepsFilter d sql := by
      intro w before found hw hspelled htrim
      rw [KeepsFilter, hw]
      by_cases htrivial : Trivial w.predicate
      · refine .inr ⟨rowFilterFromSql_eq_none_iff.mpr ?_, htrivial⟩
        intro before' found' hspelled'
        obtain ⟨rfl, rfl⟩ := Prod.mk.inj (Option.some.inj (hspelled.symm.trans hspelled'))
        rw [Trivial, ← Text.solid_trim found, htrim, Text.solid_trim]
        exact .inr htrivial
      · exact .inl (rowFilterFromSql_eq_some_iff.mpr
          ⟨before, found, hspelled, htrim, (cuts_of_whereClause hw).predicate, htrivial⟩)
    rintro (⟨w, hw, hspelled⟩ | ⟨hclause, hspelled⟩ | ⟨w, before, found, hw, hspelled, -, htrim⟩)
    · exact hfound w _ _ hw hspelled rfl
    · have hnone := rowFilterFromSql_eq_none_iff.mpr hspelled
      rw [KeepsFilter]
      split
      · exact hnone
      · exact .inr ⟨hnone, hclause _ ‹_›⟩
    · exact hfound w before found hw hspelled htrim

end Keeps

/-- The clause of a template with a later clause. -/
example : whereClause .plain "SELECT a FROM t -- all\n\twHeRe(b > 1) and t.order = 2 ORDER BY a".toList =
    some ⟨"SELECT a FROM t -- all\n\t".toList, "wHeRe".toList, "(b > 1) and t.order = 2 ".toList,
      "ORDER BY a".toList⟩ := by
  decide +kernel

/-- **A clause on a line of its own is lost.** -/
theorem newline_loses_filter : ¬ ∀ (d : Dialect) (sql : String), KeepsFilter d sql := by
  intro h
  have hkept := h .plain "SELECT user_id FROM t\nWHERE region = 'EU'"
  have hclause : whereClause .plain "SELECT user_id FROM t\nWHERE region = 'EU'".toList =
      some ⟨"SELECT user_id FROM t\n".toList, "WHERE".toList, " region = 'EU'".toList, []⟩ := by
    decide +kernel
  have hlost : rowFilterFromSql "SELECT user_id FROM t\nWHERE region = 'EU'" = none := by
    decide +kernel
  rw [KeepsFilter, hclause, hlost] at hkept
  simp only [reduceCtorEq, false_or, true_and] at hkept
  exact absurd hkept (by decide)

end Griot.Platform
