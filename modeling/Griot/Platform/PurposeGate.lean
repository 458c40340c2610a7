import Griot.Lib.Scanner
import Griot.Platform.Mapping
import Mathlib.Algebra.Order.BigOperators.Group.List

/-! Whom a purpose gate lets in.

A gate is Rego source. The mapping does not evaluate it: it picks up the quoted text after
each mention of `declared_purpose`, wherever that is, and lets everyone in when it picks up
nothing. The gate as written admits the purposes its code compares (`Compares`). The two
agree on who is let in exactly where something is picked up and all of it is compared
(`allow_compares_iff`). -/
namespace Griot.Platform

open Lib

/-! ### Reading Rego -/

inductive Lexeme where
  | word (name : Text)
  | symbol (text : Text)
  | literal (value : Text)
  deriving DecidableEq

namespace Rego

/-- Where the reader is, with what it has read of a lexeme. -/
inductive Mode where
  | code
  | comment
  | word (sofar : Text)
  | operator (first : Char)
  | raw (sofar : Text)
  | literal (sofar : Text)
  | escape (sofar : Text)
  /-- After a lexical error. -/
  | broken
  deriving DecidableEq

def isWordChar (c : Char) : Bool := c.isAlphanum || c == '_'

def hexDigit (c : Char) : Option Nat :=
  if '0' ≤ c ∧ c ≤ '9' then some (c.toNat - '0'.toNat)
  else if 'a' ≤ c ∧ c ≤ 'f' then some (c.toNat - 'a'.toNat + 10)
  else if 'A' ≤ c ∧ c ≤ 'F' then some (c.toNat - 'A'.toNat + 10)
  else none

/-- What a letter after a backslash stands for. -/
def escaped : Char → Option Char
  | '"' => some '"'
  | '\\' => some '\\'
  | '/' => some '/'
  | 'b' => some '\x08'
  | 'f' => some '\x0c'
  | 'n' => some '\n'
  | 'r' => some '\r'
  | 't' => some '\t'
  | _ => none

/-- A character as UTF-16 units. -/
def units (c : Char) : List Nat :=
  if c.toNat < 0x10000 then [c.toNat]
  else [0xD800 + (c.toNat - 0x10000) / 0x400, 0xDC00 + (c.toNat - 0x10000) % 0x400]

/-- The units of a literal. -/
def unescape : Text → Option (List Nat)
  | [] => some []
  | '\\' :: 'u' :: a :: b :: c :: d :: rest => do
    let digits ← [a, b, c, d].mapM hexDigit
    return digits.foldl (fun n digit => 16 * n + digit) 0 :: (← unescape rest)
  | '\\' :: c :: rest => do
    let c ← escaped c
    return units c ++ (← unescape rest)
  | c :: rest => do return units c ++ (← unescape rest)

/-- Units that are half of no pair stand for the replacement character. -/
def decodeUnits : List Nat → Text
  | [] => []
  | high :: low :: rest =>
    if 0xD800 ≤ high ∧ high < 0xDC00 ∧ 0xDC00 ≤ low ∧ low < 0xE000 then
      .ofNat (0x10000 + (high - 0xD800) * 0x400 + (low - 0xDC00)) :: decodeUnits rest
    else (if 0xD800 ≤ high ∧ high < 0xE000 then '\uFFFD' else .ofNat high) ::
      decodeUnits (low :: rest)
  | [unit] => [if 0xD800 ≤ unit ∧ unit < 0xE000 then '\uFFFD' else .ofNat unit]

def readWord (sofar : Text) (next : Option Char) : List Lexeme × Mode :=
  if next.any isWordChar then ([], .word sofar) else ([.word sofar], .code)

def readStep : Mode → Char → Option Char → List Lexeme × Mode
  | .code, c, next =>
    if c = '#' then ([], .comment)
    else if c = '"' then ([], .literal [])
    else if c = '\x60' then ([], .raw [])
    else if isWordChar c then readWord [c] next
    else if Text.isWhitespace c then ([], .code)
    else if c ∈ ['=', '!', '<', '>', ':'] ∧ next = some '=' then ([], .operator c)
    else ([.symbol [c]], .code)
  | .comment, c, _ => ([], if c = '\n' then .code else .comment)
  | .word sofar, c, next => readWord (sofar ++ [c]) next
  | .operator first, c, _ => ([.symbol [first, c]], .code)
  | .raw sofar, c, _ =>
    if c = '\x60' then ([.literal sofar], .code) else ([], .raw (sofar ++ [c]))
  | .literal sofar, c, _ =>
    if c = '"' then match unescape sofar with
      | some text => ([.literal (decodeUnits text)], .code)
      | none => ([], .broken)
    else if c = '\\' then ([], .escape (sofar ++ [c]))
    else if c.toNat < 0x20 then ([], .broken)
    else ([], .literal (sofar ++ [c]))
  | .escape sofar, c, _ => ([], .literal (sofar ++ [c]))
  | .broken, _, _ => ([], .broken)

def reading : Scanner Mode Char Lexeme := ⟨readStep⟩

def lexemes (source : String) : List Lexeme := reading.run .code source.toList

end Rego

/-- The code of the source compares `declared_purpose` with the literal. -/
def Compares (source purpose : String) : Prop :=
  [.word "declared_purpose".toList, .symbol "==".toList, .literal purpose.toList] <:+:
    Rego.lexemes source

instance (source purpose : String) : Decidable (Compares source purpose) :=
  inferInstanceAs (Decidable (_ <:+: _))

example : Compares "# declared_purpose == \"a\"\nallow if input.declared_purpose == \"\\u0062\"" "b" :=
  by decide +kernel

def Lexeme.width : Lexeme → Nat
  | word name => name.length
  | symbol text => text.length
  | literal value => value.length

/-- Only so many purposes are compared. -/
theorem exists_not_compares (source : String) : ∃ purpose, ¬ Compares source purpose := by
  obtain ⟨bound, hbound⟩ : ∃ bound, ∀ lexeme ∈ Rego.lexemes source, lexeme.width ≤ bound :=
    ⟨_, fun _ h => List.le_sum_of_mem (List.mem_map_of_mem h)⟩
  refine ⟨String.ofList (List.replicate (bound + 1) 'a'), fun h => ?_⟩
  have hle := hbound _
    (h.subset (List.mem_cons_of_mem _ (List.mem_cons_of_mem _ List.mem_cons_self)))
  simp only [Lexeme.width, String.toList_ofList, List.length_replicate] at hle
  omega

/-! ### What the mapping picks up -/

/-- The first mention of `declared_purpose`, and two quotes after it. -/
structure Mention (s gap text rest : Text) : Prop where
  first : ∃ before, Text.cut "declared_purpose".toList s =
    some (before, gap ++ '"' :: text ++ '"' :: rest)
  gap : '"' ∉ gap
  text : '"' ∉ text

/-- The text is quoted after a mention of `declared_purpose`. A mention before the closing
quote of the one before is passed over. -/
inductive Picked : Text → Text → Prop
  | here {s gap text rest : Text} : Mention s gap text rest → Picked s text
  | later {s gap text rest text' : Text} : Mention s gap text rest → Picked rest text' →
    Picked s text'

theorem Mention.length_lt {s gap text rest : Text} (h : Mention s gap text rest) :
    rest.length < s.length := by
  obtain ⟨before, hfirst⟩ := h.first
  have := Text.cut_length hfirst
  simp only [List.length_append, List.length_cons] at this
  omega

theorem Mention.two_le_count {s gap text rest : Text} (h : Mention s gap text rest) :
    2 + rest.count '"' ≤ s.count '"' := by
  obtain ⟨before, hfirst⟩ := h.first
  rw [Text.cut_eq hfirst]
  simp only [List.count_append, List.count_cons_self]
  omega

theorem Picked.two_le_count {s text : Text} (h : Picked s text) : 2 ≤ s.count '"' := by
  cases h with
  | here h | later h _ =>
    have := h.two_le_count
    omega

theorem nextPurpose_of_mention {s gap text rest : Text} (h : Mention s gap text rest) :
    nextPurpose s = some (some (String.ofList text), rest) := by
  obtain ⟨before, hfirst⟩ := h.first
  have hopen : Text.cut ['"'] (gap ++ '"' :: text ++ '"' :: rest) =
      some (gap, text ++ '"' :: rest) := Text.cut_singleton_iff.mpr ⟨by simp, h.gap⟩
  have hclose : Text.cut ['"'] (text ++ '"' :: rest) = some (text, rest) :=
    Text.cut_singleton_iff.mpr ⟨rfl, h.text⟩
  rw [nextPurpose, hfirst]
  simp only [hopen, hclose]

/-- A step either comes to a mention, or no two quotes are left to pick a text from. -/
theorem nextPurpose_eq_some {s rest : Text} {found : Option String}
    (h : nextPurpose s = some (found, rest)) :
    (∃ gap text, found = some (String.ofList text) ∧ Mention s gap text rest) ∨
      found = none ∧ (∀ gap text rest', ¬ Mention s gap text rest') ∧ rest.count '"' < 2 ∧
        rest.length < s.length := by
  rw [nextPurpose] at h
  cases hfirst : Text.cut "declared_purpose".toList s with
  | none =>
    rw [hfirst] at h
    cases h
  | some p =>
    obtain ⟨before, after⟩ := p
    rw [hfirst] at h
    have hnone (hcount : after.count '"' < 2) : ∀ gap text rest', ¬ Mention s gap text rest' := by
      intro gap text rest' hmention
      obtain ⟨_, hfirst'⟩ := hmention.first
      obtain ⟨rfl, rfl⟩ := Prod.mk.inj (Option.some.inj (hfirst.symm.trans hfirst'))
      simp only [List.count_append, List.count_cons_self] at hcount
      omega
    have hlt : after.length < s.length := by
      have hcut := Text.cut_length hfirst
      have hneedle : "declared_purpose".toList.length = 16 := by decide
      omega
    cases hopen : Text.cut ['"'] after with
    | none =>
      simp only [hopen, Option.some.injEq, Prod.mk.injEq] at h
      obtain ⟨rfl, rfl⟩ := h
      have hcount : after.count '"' = 0 :=
        List.count_eq_zero_of_not_mem (Text.cut_singleton_eq_none.mp hopen)
      exact .inr ⟨rfl, hnone (by omega), by omega, hlt⟩
    | some p =>
      obtain ⟨gap, tail⟩ := p
      obtain ⟨rfl, hgap⟩ := Text.cut_singleton_iff.mp hopen
      cases hclose : Text.cut ['"'] tail with
      | none =>
        simp only [hopen, hclose, Option.some.injEq, Prod.mk.injEq] at h
        obtain ⟨rfl, rfl⟩ := h
        have hcount : (gap ++ '"' :: tail).count '"' = 1 := by
          rw [List.count_append, List.count_cons_self, List.count_eq_zero_of_not_mem hgap,
            List.count_eq_zero_of_not_mem (Text.cut_singleton_eq_none.mp hclose)]
        exact .inr ⟨rfl, hnone (by omega), by omega, hlt⟩
      | some p =>
        obtain ⟨text, rest'⟩ := p
        simp only [hopen, hclose, Option.some.injEq, Prod.mk.injEq] at h
        obtain ⟨rfl, rfl⟩ := h
        obtain ⟨rfl, htext⟩ := Text.cut_singleton_iff.mp hclose
        exact .inl ⟨gap, text, rfl, ⟨before, by simpa using hfirst⟩, hgap, htext⟩

theorem nextPurpose_shortens (s : Text) (found : Option String) (rest : Text)
    (h : nextPurpose s = some (found, rest)) : rest.length < s.length := by
  obtain ⟨gap, text, -, hmention⟩ | ⟨-, -, -, hlt⟩ := nextPurpose_eq_some h
  · exact hmention.length_lt
  · exact hlt

/-- What the steps of the loop find is what the mentions pick up. -/
theorem picked_of_found {s : Text} {found : Option String} (h : Text.Found nextPurpose s found) :
    ∀ text, found = some (String.ofList text) → Picked s text := by
  induction h with
  | here hnext =>
    rintro text rfl
    obtain ⟨gap, text', hfound, hmention⟩ | ⟨hfound, -⟩ := nextPurpose_eq_some hnext
    · obtain rfl := String.ofList_injective (Option.some.inj hfound)
      exact .here hmention
    · cases hfound
  | later hnext _ ih =>
    intro text hfound
    obtain ⟨gap, text', -, hmention⟩ | ⟨-, -, hcount, -⟩ := nextPurpose_eq_some hnext
    · exact .later hmention (ih text hfound)
    · have := (ih text hfound).two_le_count
      omega

theorem found_of_picked {s text : Text} (h : Picked s text) :
    Text.Found nextPurpose s (some (String.ofList text)) := by
  induction h with
  | here h => exact .here (nextPurpose_of_mention h)
  | later h _ ih => exact .later (nextPurpose_of_mention h) ih

/-- **The mapping picks up the quoted text after each mention, and nothing else.** -/
theorem mem_purposesOf_iff (source purpose : String) :
    purpose ∈ purposesOf source ↔ Picked source.toList purpose.toList := by
  have hscan : some purpose ∈ Text.scan nextPurpose source.toList ↔
      Picked source.toList purpose.toList := by
    rw [Text.mem_scan_iff nextPurpose_shortens]
    constructor
    · intro h
      exact picked_of_found h purpose.toList (by rw [String.ofList_toList])
    · intro h
      simpa using found_of_picked h
  rw [← hscan, purposesOf, List.mem_filterMap]
  simp

/-! ### Whom the gate lets in -/

/-- A bundle of `acme` with one purpose gate. -/
def withGate (source : String) : SignedBundleFile :=
  unsigned ⟨⟨"demo_v1", 1, 1⟩, [], [⟨"policy-purpose-gate", source⟩], [],
    ⟨[⟨"acme/demo_v1", "read", "policy-purpose-gate"⟩]⟩⟩

/-- **When the gate lets in no more than its code compares**: some text is picked up, and
every text picked up is compared. -/
theorem allow_compares_iff (file : SignedBundleFile) (gate : RegoBundle)
    (hgate : file.bundle.regoBundles.find? (fun r => nameContains "purpose" r.name) = some gate) :
    (∀ caller : Caller, (mapBundleToPolicy file caller).decision = .allow →
        Compares gate.source caller.purpose) ↔
      (∃ text, Picked gate.source.toList text) ∧
        ∀ purpose : String, Picked gate.source.toList purpose.toList →
          Compares gate.source purpose := by
  have hallow (caller : Caller) : (mapBundleToPolicy file caller).decision = .allow ↔
      purposesOf gate.source = [] ∨ caller.purpose ∈ purposesOf gate.source := by
    rw [decision_allow_iff, purposeGate, allowedPurposes, hgate]
    simp only [Option.map_some, ite_eq_right_iff, reduceCtorEq, imp_false, not_and_or, not_not]
  constructor
  · intro h
    constructor
    · by_contra hnone
      have hempty : purposesOf gate.source = [] := by
        refine List.eq_nil_iff_forall_not_mem.mpr fun purpose hmem => hnone ⟨purpose.toList, ?_⟩
        exact (mem_purposesOf_iff _ _).mp hmem
      obtain ⟨purpose, hnot⟩ := exists_not_compares gate.source
      exact hnot (h (.new "" purpose "") ((hallow _).mpr (.inl hempty)))
    · intro purpose hpicked
      refine h (.new "" purpose "") ((hallow _).mpr (.inr ?_))
      exact (mem_purposesOf_iff _ _).mpr hpicked
  · intro h caller hdecision
    obtain ⟨⟨text, htext⟩, hall⟩ := h
    obtain hempty | hmem := (hallow caller).mp hdecision
    · have hmem := (mem_purposesOf_iff gate.source (String.ofList text)).mpr
        (by rwa [String.toList_ofList])
      rw [hempty] at hmem
      cases hmem
    · exact hall _ ((mem_purposesOf_iff _ _).mp hmem)

/-- A gate with one rule. -/
def analyticsGate : String := "allow if \x7b input.declared_purpose == \"analytics\" \x7d"

theorem allow_compares_analytics :
    (withGate analyticsGate).bundle.regoBundles = [⟨"policy-purpose-gate", analyticsGate⟩] ∧
      ∀ caller : Caller, (mapBundleToPolicy (withGate analyticsGate) caller).decision = .allow →
        Compares analyticsGate caller.purpose := by
  have hpurposes : purposesOf analyticsGate = ["analytics"] := by decide +kernel
  refine ⟨rfl, (allow_compares_iff (withGate analyticsGate)
    ⟨"policy-purpose-gate", analyticsGate⟩ rfl).mpr ⟨⟨"analytics".toList, ?_⟩, ?_⟩⟩
  · exact (mem_purposesOf_iff _ _).mp (hpurposes ▸ List.mem_singleton_self _)
  · intro purpose hpicked
    have hmem := (mem_purposesOf_iff _ _).mpr hpicked
    rw [show purposesOf _ = ["analytics"] from hpurposes, List.mem_singleton] at hmem
    subst hmem
    decide +kernel

/-- **A gate that compares nothing lets everyone in, and one that mentions a purpose in a
comment lets that purpose in.** -/
theorem unreadable_opens :
    ((mapBundleToPolicy (withGate "default allow := false")
        (.new "eve" "resale" "globex")).decision = .allow ∧
      ¬ Compares "default allow := false" "resale") ∧
    ((mapBundleToPolicy (withGate "# declared_purpose \"resale\" is gone\ndefault allow := false")
        (.new "eve" "resale" "globex")).decision = .allow ∧
      ¬ Compares "# declared_purpose \"resale\" is gone\ndefault allow := false" "resale") := by
  refine ⟨⟨?_, by decide +kernel⟩, ?_, by decide +kernel⟩
  · rw [decision_allow_iff]
    decide +kernel
  · rw [decision_allow_iff]
    decide +kernel

end Griot.Platform
