import Griot.Ddl.Precision

/-! What stripping the comments leaves.

Text without double quotes is read by the language and scanned by the guard side by side. They
write the same characters until one of them opens a comment where the other is in a literal, and
every character that is not ASCII comes out of the guard as several others, never to be caught up
with (`strips_exactly_iff`). -/
namespace Griot.DdlGuard

open Lib Sql

/-! ### One step -/

def opensComment (c : Char) (next : Option Char) : Bool :=
  c = '/' && next = some '*' || c = '-' && next = some '-'

/-- A comment opens for one of the two only. -/
def partsVisibly (q : Mode × ScanState) (c : Char) (next : Option Char) : Bool :=
  opensComment c next &&
    (q = (.now .code, .now .literal) || q = (.now .literal, .now .code))

/-- The language is outside comments, perhaps at the second of two quotes. -/
def ReadsText (q : Mode) (next : Option Char) : Prop :=
  q = .now .code ∨ q = .now .literal ∨ q = .second true .literal ∧ next = some '\''

/-- The guard is outside comments, perhaps at the second of two quotes. -/
def KeepsText (r : ScanState) (next : Option Char) : Prop :=
  r = .now .code ∨ r = .now .literal ∨ r = .second true .code ∧ next = some '\''

inductive InComment : Mode → Prop where
  | block (depth : Nat) : InComment (.now (.block depth))
  | line : InComment (.now .line)
  | second {place : Place} : place ≠ .literal → place ≠ .quoted → InComment (.second false place)

/-- Where the two are before the next character. -/
inductive Together (next : Option Char) : Mode → ScanState → Prop where
  | text {q : Mode} {r : ScanState} : ReadsText q next → KeepsText r next → Together next q r
  | comment {q : Mode} : InComment q → Together next q (.ofMode q)

/-- Both write nothing, both write the same character, or they part. -/
inductive Both (q : Mode × ScanState) (c : Char) (next : Option Char) : Prop where
  | skip : (reading.step q.1 c next).1 = [] → (stripper.step q.2 c next).1 = [] →
      partsVisibly q c next = false →
      Together next (reading.step q.1 c next).2 (stripper.step q.2 c next).2 → Both q c next
  | copy (m : Mark) : (reading.step q.1 c next).1 = [m] → (stripper.step q.2 c next).1 = [m.char] →
      partsVisibly q c next = false →
      Together next (reading.step q.1 c next).2 (stripper.step q.2 c next).2 →
      (Text.isAscii m.char = false →
        ((reading.step q.1 c next).2 = .now .code ∨ (reading.step q.1 c next).2 = .now .literal) ∧
        ((stripper.step q.2 c next).2 = .now .code ∨ (stripper.step q.2 c next).2 = .now .literal)) →
      Both q c next
  | part (m : Mark) (b : Char) : (reading.step q.1 c next).1 = [m] →
      (stripper.step q.2 c next).1 = [b] → partsVisibly q c next = true → m.char ≠ b →
      Text.isAscii b = true → Both q c next

section Step
variable {c : Char} {next : Option Char} {q : Mode} {r : ScanState}

theorem readsText_quote (h : ReadsText q (some '\'')) :
    (∃ m : Mark, (reading.step q '\'' next).1 = [m] ∧ m.char = '\'') ∧
      ReadsText (reading.step q '\'' next).2 next := by
  obtain rfl | rfl | ⟨rfl, -⟩ := h <;> simp only [reading, readStep] <;> (try split_ifs) <;>
    simp_all [ReadsText, Mark.char]

theorem keepsText_quote (h : KeepsText r (some '\'')) :
    (stripper.step r '\'' next).1 = ['\''] ∧ KeepsText (stripper.step r '\'' next).2 next := by
  obtain rfl | rfl | ⟨rfl, -⟩ := h <;> simp only [stripper, stripStep] <;> (try split_ifs) <;>
    simp_all [KeepsText]

/-- Only quotes come second. -/
theorem readsText_other (hc : c ≠ '\'') (h : ReadsText q (some c)) :
    q = .now .code ∨ q = .now .literal := by
  obtain hcode | hliteral | ⟨-, hnext⟩ := h
  · exact .inl hcode
  · exact .inr hliteral
  · exact absurd (Option.some.inj hnext) hc

theorem keepsText_other (hc : c ≠ '\'') (h : KeepsText r (some c)) :
    r = .now .code ∨ r = .now .literal := by
  obtain hcode | hliteral | ⟨-, hnext⟩ := h
  · exact .inl hcode
  · exact .inr hliteral
  · exact absurd (Option.some.inj hnext) hc

theorem opensComment_iff : opensComment c next = true ↔
    (c = '/' ∧ next = some '*') ∨ c = '-' ∧ next = some '-' := by
  simp [opensComment]

/-- Where no quotes and no comment begin both go on as they were. -/
theorem both_plain (hquote : c ≠ '\'') (hquoted : c ≠ '"') (hopen : opensComment c next = false)
    (hq : q = .now .code ∨ q = .now .literal) (hr : r = .now .code ∨ r = .now .literal) :
    (∃ m : Mark, reading.step q c next = ([m], q) ∧ m.char = c) ∧ stripper.step r c next = ([c], r) := by
  rw [Bool.eq_false_iff, ne_eq, opensComment_iff, not_or] at hopen
  constructor
  · obtain rfl | rfl := hq
    · exact ⟨.code c, by simp only [reading, readStep, hopen, hquote, hquoted, if_false], rfl⟩
    · exact ⟨.inside c, by simp only [reading, readStep, hquote, if_false], rfl⟩
  · obtain rfl | rfl := hr
    · simp only [stripper, stripStep, hopen, hquote, if_false]
    · simp only [stripper, stripStep, hquote, if_false]

/-- Where a comment may open. -/
theorem both_opening (hopen : opensComment c next = true)
    (hq : q = .now .code ∨ q = .now .literal) (hr : r = .now .code ∨ r = .now .literal) :
    Both (q, r) c next := by
  obtain ⟨rfl, rfl⟩ | ⟨rfl, rfl⟩ := opensComment_iff.mp hopen <;> obtain rfl | rfl := hq <;>
    obtain rfl | rfl := hr
  all_goals first
    | exact .copy .blank rfl rfl rfl (.comment (.second (by simp) (by simp))) (fun h => absurd h (by decide))
    | exact .part _ _ rfl rfl rfl (by decide) (by decide)
    | exact .copy (.inside _) rfl rfl rfl (.text (.inr (.inl rfl)) (.inr (.inl rfl)))
        (fun h => absurd h (by decide))

theorem inComment_step (h : InComment q) : partsAt q c next = false ∧
    ((reading.step q c next).1 = [] ∨
      ∃ m, (reading.step q c next).1 = [m] ∧ Text.isAscii m.char = true) ∧
    (InComment (reading.step q c next).2 ∨ (reading.step q c next).2 = .now .code) := by
  cases h with
  | block depth =>
    refine ⟨rfl, ?_⟩
    simp only [reading, readStep]
    split_ifs
    · exact ⟨.inl rfl, .inl (.second (by simp) (by simp))⟩
    · exact ⟨.inl rfl, .inl (.second (by simp) (by simp))⟩
    · exact ⟨.inl rfl, .inl (.second (by simp) (by simp))⟩
    · exact ⟨.inl rfl, .inl (.block depth)⟩
  | line =>
    refine ⟨rfl, ?_⟩
    simp only [reading, readStep]
    split_ifs
    · rename_i hnewline
      exact ⟨.inr ⟨_, rfl, by rw [hnewline]; rfl⟩, .inr rfl⟩
    · exact ⟨.inl rfl, .inl .line⟩
  | @second place hliteral hquoted =>
    refine ⟨rfl, .inl rfl, ?_⟩
    cases place with
    | code => exact .inr rfl
    | block depth => exact .inl (.block depth)
    | line => exact .inl .line
    | literal => exact absurd rfl hliteral
    | quoted => exact absurd rfl hquoted

/-- **One step of both.** -/
theorem both_step (hc : c ≠ '"') (h : Together (some c) q r) : Both (q, r) c next := by
  cases h with
  | comment hcomment =>
    obtain ⟨hpart, hout, hnext⟩ := @inComment_step c next q hcomment
    have hstep := stripper_follows q c next hpart
    have hvisible : partsVisibly (q, .ofMode q) c next = false := by
      cases hcomment <;> simp [partsVisibly]
    have htogether : Together next (reading.step q c next).2 (stripper.step (.ofMode q) c next).2 := by
      rw [hstep]
      obtain hcomment' | hcode := hnext
      · exact .comment hcomment'
      · rw [hcode]
        exact .text (.inl rfl) (.inl rfl)
    obtain hnone | ⟨m, hm, hascii⟩ := hout
    · exact .skip hnone (by rw [hstep, hnone]; rfl) hvisible htogether
    · exact .copy m hm (by rw [hstep, hm]; rfl) hvisible htogether
        (fun hother => absurd (hother.symm.trans hascii) (by simp))
  | text hreads hkeeps =>
    by_cases hquote : c = '\''
    · subst hquote
      obtain ⟨⟨m, hm, hchar⟩, hreads'⟩ := @readsText_quote next q hreads
      obtain ⟨hb, hkeeps'⟩ := @keepsText_quote next r hkeeps
      exact .copy m hm (hchar ▸ hb) rfl (.text hreads' hkeeps')
        (fun hother => absurd (hchar ▸ hother) (by decide))
    · have hq := readsText_other hquote hreads
      have hr := keepsText_other hquote hkeeps
      cases hopen : opensComment c next with
      | true => exact both_opening hopen hq hr
      | false =>
        obtain ⟨⟨m, hread, hchar⟩, hstrip⟩ := both_plain hquote hc hopen hq hr
        refine .copy m (by rw [hread]) (by rw [hstrip, hchar]) ?_ ?_ (fun _ => ?_)
        · rw [partsVisibly, hopen, Bool.false_and]
        · rw [hread, hstrip]
          exact .text (hq.imp_right .inl) (hr.imp_right .inl)
        · rw [hread, hstrip]
          exact ⟨hq, hr⟩

end Step

/-! ### Whole texts -/

theorem ne_of_not_ascii {c a : Char} (hc : Text.isAscii c = false) (ha : Text.isAscii a = true) :
    c ≠ a := fun heq => by simp [heq, ha] at hc

/-- Outside comments an ASCII character leaves an ASCII character. -/
theorem reading_step_ascii {q : Mode} (hq : q = .now .code ∨ q = .now .literal) {c : Char}
    (hc : Text.isAscii c = true) (next : Option Char) :
    ∃ m : Mark, (reading.step q c next).1 = [m] ∧ Text.isAscii m.char = true := by
  have hspace : Text.isAscii ' ' = true := by decide
  obtain rfl | rfl := hq <;> simp only [reading, readStep] <;> split_ifs <;> simp [Mark.char, hc, hspace]

/-- **What was written too much is never caught up with.** -/
theorem ahead_ne {q : Mode} {r : ScanState} (hq : q = .now .code ∨ q = .now .literal)
    (hr : r = .now .code ∨ r = .now .literal) {s ahead : Text} (hne : ahead ≠ [])
    (hother : ∀ b ∈ ahead, Text.isAscii b = false) :
    ahead ++ (stripper.run r s).flatMap latin1Char ≠ (reading.run q s).map Mark.char := by
  induction s generalizing ahead with
  | nil => exact List.append_ne_nil_of_left_ne_nil hne _
  | cons c s ih =>
    obtain ⟨b, rest, rfl⟩ := List.exists_cons_of_ne_nil hne
    obtain ⟨hb, hrest⟩ := List.forall_mem_cons.mp hother
    rw [Scanner.run, Scanner.run]
    intro heq
    cases hc : Text.isAscii c with
    | true =>
      obtain ⟨m, hm, hascii⟩ := reading_step_ascii hq hc s.head?
      rw [hm, List.singleton_append, List.map_cons] at heq
      obtain rfl := (List.cons.inj heq).1
      exact absurd (hb.symm.trans hascii) (by simp)
    | false =>
      -- One character is caught up with, and several come out.
      have hne (a : Char) (ha : Text.isAscii a = true) : c ≠ a := ne_of_not_ascii hc ha
      have hopen : opensComment c s.head? = false := by
        simp [opensComment, hne '/' rfl, hne '-' rfl]
      obtain ⟨⟨m, hread, hchar⟩, hstrip⟩ := both_plain (hne '\'' rfl) (hne '"' rfl) hopen hq hr
      obtain ⟨lead, second, more, hlong⟩ := latin1Char_long hc
      rw [hread, hstrip, List.singleton_append, List.singleton_append, List.map_cons,
        List.flatMap_cons, List.cons_append, ← List.append_assoc] at heq
      refine @ih (rest ++ latin1Char c) (by simp [hlong]) ?_ (List.cons.inj heq).2
      intro x hx
      obtain hx | hx := List.mem_append.mp hx
      · exact hrest x hx
      · exact utf8Encoding.expand_other c hc x hx

theorem strip_eq_iff {q : Mode} {r : ScanState} {s : Text} (hquoted : '"' ∉ s)
    (h : Together s.head? q r) :
    (stripper.run r s).flatMap latin1Char = (reading.run q s).map Mark.char ↔
      (∀ m ∈ reading.run q s, Text.isAscii m.char = true) ∧
        watched.never partsVisibly (q, r) s = true := by
  induction s generalizing q r with
  | nil => exact iff_of_true rfl ⟨by simp [Scanner.run], rfl⟩
  | cons c s ih =>
    rw [List.mem_cons, not_or] at hquoted
    have hstep := @both_step c s.head? q r (Ne.symm hquoted.1) h
    rw [Scanner.run, Scanner.run, Scanner.never, watched_step]
    cases hstep with
    | skip hread hstrip hvisible htogether =>
      rw [hread, hstrip, hvisible]
      exact ih hquoted.2 htogether
    | copy m hread hstrip hvisible htogether hafter =>
      rw [hread, hstrip, hvisible, List.singleton_append, List.singleton_append, List.map_cons,
        List.flatMap_cons, List.forall_mem_cons, Bool.not_false, Bool.true_and]
      cases hm : Text.isAscii m.char with
      | true =>
        rw [latin1Char_ascii hm, List.singleton_append, List.cons.injEq, and_iff_right rfl,
          and_iff_right rfl]
        exact ih hquoted.2 htogether
      | false =>
        refine iff_of_false (fun heq => ?_) (fun h => by simp at h)
        obtain ⟨hq, hr⟩ := hafter hm
        obtain ⟨lead, second, more, hlong⟩ := latin1Char_long hm
        have hother := utf8Encoding.expand_other m.char hm
        rw [show utf8Encoding.expand m.char = lead :: second :: more from hlong,
          List.forall_mem_cons] at hother
        rw [hlong, List.cons_append] at heq
        exact ahead_ne hq hr (by simp) hother.2 (List.cons.inj heq).2
    | part m b hread hstrip hvisible hne hascii =>
      rw [hread, hstrip, hvisible, List.singleton_append, List.singleton_append, List.map_cons,
        List.flatMap_cons, latin1Char_ascii hascii, List.singleton_append]
      exact iff_of_false (fun heq => hne (List.cons.inj heq).1.symm) (fun h => by simp at h)

/-- **When exactly the comments are blanked**: every character that is not ASCII is in one, and no
comment opens where a scan that ends literals at doubled quotes and the language disagree on
whether it is in a literal. -/
theorem strips_exactly_iff (sql : String) (hquoted : '"' ∉ sql.toList) :
    stripComments sql = uncommented sql.toList ↔
      (∀ c ∈ uncommented sql.toList, Text.isAscii c = true) ∧
        watched.never partsVisibly (.now .code, .now .code) sql.toList = true := by
  rw [stripComments_eq, uncommented, strip_eq_iff hquoted (.text (.inl rfl) (.inl rfl)),
    List.forall_mem_map]

theorem strips_exactly_iff_nested :
    stripComments "SELECT '--' /* é /* -- */ '' */ -- ü" =
      uncommented "SELECT '--' /* é /* -- */ '' */ -- ü".toList :=
  (strips_exactly_iff _ (by decide)).mpr ⟨List.all_eq_true.mp (by decide), by decide⟩

/-- **A letter that is not ASCII comes out as two, and a comment opens in a literal.** -/
theorem stripped_text_changed :
    (¬ ∀ sql : String, '"' ∉ sql.toList → stripComments sql = uncommented sql.toList) ∧
    (stripComments "é" = "Ã©".toList ∧ uncommented "é".toList = "é".toList) ∧
    stripComments "'a''--b'" = "'a'' ".toList ∧ uncommented "'a''--b'".toList = "'a''--b'".toList :=
  ⟨fun h => absurd (h "é" (by decide)) (by decide), by decide, by decide⟩

end Griot.DdlGuard
