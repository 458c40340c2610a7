import Griot.Ddl.Soundness

/-! What the guard turns away without a reason.

A piece that begins with a listed verb comes after a semicolon, and where the language ends a
statement at it the next statement begins with that verb: whatever the guard takes the place for,
it reads a plain word as the language does. What is turned away without a reason comes after a
semicolon inside a literal, a quoted identifier or a comment (`rejects_only_verbs_iff`). -/
namespace Griot.DdlGuard

open Lib Sql

/-! ### Semicolons that end no statement -/

/-- What is read here ends a statement. -/
def endsStatement (marks : List Mark) : Bool := marks = [.code ';']

/-- What the guard keeps, each character with whether the language ends a statement at it. -/
def watched : Scanner (Mode × ScanState) Char (Char × Bool) := reading.beside stripper endsStatement

theorem watched_step (q : Mode × ScanState) (c : Char) (next : Option Char) :
    watched.step q c next =
      ((stripper.step q.2 c next).1.map fun b => (b, endsStatement (reading.step q.1 c next).1),
        (reading.step q.1 c next).2, (stripper.step q.2 c next).2) := rfl

theorem watched_fst (q : Mode × ScanState) (s : Text) :
    (watched.run q s).map Prod.fst = stripper.run q.2 s :=
  Scanner.run_beside q s

def kept (s : Text) : List (Char × Bool) := watched.run (.now .code, .now .code) s

/-- The text up to the next semicolon. -/
def firstPiece (t : Text) : Text := t.takeWhile (fun c => !(c == ';'))

/-- The marks up to the end of the statement. -/
def firstStatement (marks : List Mark) : List Mark := marks.takeWhile (fun m => !(m == .code ';'))

/-- Up to the next semicolon the first word is a listed verb. -/
def VerbNext (t : Text) : Prop := IsVerb (plainToken (firstPiece t))

instance : DecidablePred VerbNext := fun t =>
  inferInstanceAs (Decidable (IsVerb (plainToken (firstPiece t))))

/-- A verb comes after a semicolon that ends no statement. -/
def Stray (s : Text) : Prop :=
  Scanner.FollowedBy (· == (';', false)) (fun rest => VerbNext (rest.map Prod.fst)) (kept s)

instance : DecidablePred Stray := fun s =>
  inferInstanceAs (Decidable (Scanner.FollowedBy _ _ (kept s)))

/-- A verb comes after a semicolon in a literal or a quoted identifier. -/
def QuotedVerb (s : Text) : Prop :=
  Scanner.FollowedBy (· == .inside ';') (fun rest => VerbNext (rest.map Mark.char))
    (reading.run (.now .code) s)

/-- What can be said of the characters an identifier goes on with. -/
structure WordChars (continues : Char → Bool) : Prop where
  letter : ∀ c : Char, c.isAlpha = true → continues c = true
  blank : ∀ c : Char, Text.isAsciiWhitespace c = true → continues c = false

/-! ### A plain word -/

section Word
variable {continues : Char → Bool}

def wordMark (continues : Char → Bool) : Mark → Bool
  | .code c => continues c
  | _ => false

theorem firstWord_eq (statement : List Mark) : firstWord continues statement =
    ((statement.dropWhile Mark.isBlank).takeWhile (wordMark continues)).map Mark.char := by
  unfold firstWord
  congr 2

/-- Copied by the guard and code to the language. -/
def isPlain (c : Char) : Bool := c ≠ '/' && c ≠ '-' && c ≠ '\'' && c ≠ '"'

theorem stripper_step_plain {c : Char} (hc : isPlain c = true) {loop : Lexical}
    (hloop : loop = .code ∨ loop = .literal) (next : Option Char) :
    stripper.step (.now loop) c next = ([c], .now loop) := by
  simp only [isPlain, Bool.and_eq_true, decide_eq_true_eq] at hc
  obtain rfl | rfl := hloop <;> simp [stripper, stripStep, hc]

theorem reading_step_plain {c : Char} (hc : isPlain c = true) (next : Option Char) :
    reading.step (.now .code) c next = ([.code c], .now .code) := by
  simp only [isPlain, Bool.and_eq_true, decide_eq_true_eq] at hc
  simp [reading, readStep, hc]

theorem firstPiece_cons (c : Char) (t : Text) :
    firstPiece (c :: t) = if c = ';' then [] else c :: firstPiece t := by
  simp only [firstPiece, List.takeWhile_cons]
  split_ifs <;> simp_all

theorem firstStatement_cons (m : Mark) (marks : List Mark) : firstStatement (m :: marks) =
    if m = .code ';' then [] else m :: firstStatement marks := by
  simp only [firstStatement, List.takeWhile_cons]
  split_ifs <;> simp_all

theorem plainToken_blank {c : Char} (hc : Text.isAsciiWhitespace c = true) (t : Text) :
    plainToken (c :: t) = plainToken t := by
  rw [plainToken, List.dropWhile_cons_of_pos hc]
  rfl

theorem plainToken_word {c : Char} (hc : Text.isAsciiWhitespace c = false) (t : Text) :
    plainToken (c :: t) = Text.upper ((c :: t).takeWhile (!Text.isAsciiWhitespace ·)) := by
  rw [plainToken, List.dropWhile_cons_of_neg (by simp [hc])]

theorem firstWord_blank {m : Mark} (hm : m.isBlank = true) (marks : List Mark) :
    firstWord continues (m :: marks) = firstWord continues marks := by
  rw [firstWord_eq, List.dropWhile_cons_of_pos hm, ← firstWord_eq]

theorem isAlpha_of_isUpper_toUpper {c : Char} (h : c.toUpper.isUpper = true) : c.isAlpha = true := by
  cases hlower : c.isLower with
  | true => exact Bool.or_eq_true_iff.mpr (.inr hlower)
  | false =>
    have hsame : c.toUpper = c := dif_neg fun hletter =>
      absurd (Bool.and_eq_true_iff.mpr ⟨decide_eq_true hletter.1, decide_eq_true hletter.2⟩)
        (Bool.not_eq_true _ ▸ hlower)
    rw [hsame] at h
    exact Bool.or_eq_true_iff.mpr (.inl h)

theorem isWhitespace_of_isAlpha {c : Char} (h : c.isAlpha = true) : Text.isWhitespace c = false := by
  have hletter : 65 ≤ c.toNat ∧ c.toNat ≤ 122 := by
    obtain hupper | hlower := Bool.or_eq_true_iff.mp h
    · have hbounds : 65 ≤ c.toNat ∧ c.toNat ≤ 90 := of_decide_eq_true hupper
      omega
    · obtain ⟨hge, hle⟩ := Bool.and_eq_true_iff.mp hlower
      have hge' : 97 ≤ c.toNat := of_decide_eq_true hge
      have hle' : c.toNat ≤ 122 := of_decide_eq_true hle
      omega
  simp [Text.isWhitespace]
  omega

/-- The words of the list are words of letters. -/
theorem IsVerb.isAlpha {w : Text} (h : IsVerb (Text.upper w)) : ∀ c ∈ w, c.isAlpha = true := by
  intro c hc
  exact isAlpha_of_isUpper_toUpper (h.isUpper _ (List.mem_map_of_mem hc))

/-- What is not plain ends no word and is no letter. -/
theorem special {c : Char} (hc : isPlain c = false) :
    c ≠ ';' ∧ Text.isAsciiWhitespace c = false ∧ c.isAlpha = false := by
  simp only [isPlain, Bool.and_eq_false_iff, decide_eq_false_iff_not, not_not] at hc
  obtain ((rfl | rfl) | rfl) | rfl := hc <;> decide

/-- A comment opens for both, or the guard keeps the character. -/
theorem step_special (c : Char) {loop : Lexical}
    (hloop : loop = .code ∨ loop = .literal) (next : Option Char) :
    (loop = .code ∧ ∃ place, (place = .block 1 ∨ place = .line) ∧
      stripper.step (.now loop) c next = ([' '], .second false (.ofPlace place)) ∧
      reading.step (.now .code) c next = ([.blank], .second false place)) ∨
    ∃ r, stripper.step (.now loop) c next = ([c], r) := by
  obtain rfl | rfl := hloop
  · by_cases hblock : c = '/' ∧ next = some '*'
    · exact .inl ⟨rfl, .block 1, .inl rfl, if_pos hblock, if_pos hblock⟩
    · by_cases hline : c = '-' ∧ next = some '-'
      · refine .inl ⟨rfl, .line, .inr rfl, ?_, ?_⟩ <;>
          simp [stripper, reading, stripStep, readStep, hline, Lexical.ofPlace]
      · refine .inr ?_
        simp only [stripper, stripStep, if_neg hblock, if_neg hline]
        split_ifs <;> exact ⟨_, rfl⟩
  · refine .inr ?_
    simp only [stripper, stripStep]
    split_ifs <;> exact ⟨_, rfl⟩

/-- **A word that the guard keeps up to its end** is read whole by the language. -/
theorem reading_word (hwords : WordChars continues) {loop : Lexical}
    (hloop : loop = .code ∨ loop = .literal) (s : Text)
    (h : ∀ c ∈ (firstPiece (stripper.run (.now loop) s)).takeWhile (!Text.isAsciiWhitespace ·),
      c.isAlpha = true) :
    ((firstStatement (reading.run (.now .code) s)).takeWhile (wordMark continues)).map Mark.char =
      (firstPiece (stripper.run (.now loop) s)).takeWhile (!Text.isAsciiWhitespace ·) := by
  induction s with
  | nil => rfl
  | cons c s ih =>
    rw [Scanner.run] at h
    rw [Scanner.run, Scanner.run]
    cases hplain : isPlain c with
    | true =>
      rw [stripper_step_plain hplain hloop, List.singleton_append, firstPiece_cons] at h
      rw [stripper_step_plain hplain hloop, reading_step_plain hplain, List.singleton_append,
        List.singleton_append, firstPiece_cons, firstStatement_cons]
      by_cases hend : c = ';'
      · simp [hend]
      · rw [if_neg hend] at h
        rw [if_neg hend, if_neg (by simpa using hend)]
        cases hblank : Text.isAsciiWhitespace c with
        | true => simp [wordMark, hwords.blank c hblank, hblank]
        | false =>
          rw [List.takeWhile_cons_of_pos (by simp [hblank]), List.forall_mem_cons] at h
          have hword : wordMark continues (.code c) = true := hwords.letter c h.1
          rw [List.takeWhile_cons_of_pos hword, List.takeWhile_cons_of_pos (by simp [hblank]),
            List.map_cons]
          exact congrArg (c :: ·) (ih h.2)
    | false =>
      obtain ⟨hend, hblank, halpha⟩ := special hplain
      obtain ⟨-, place, -, hstrip, hread⟩ | ⟨r, hstrip⟩ := step_special c hloop s.head?
      · rw [hstrip, hread]
        rfl
      · rw [hstrip, List.singleton_append, firstPiece_cons, if_neg hend,
          List.takeWhile_cons_of_pos (by simp [hblank]), List.forall_mem_cons] at h
        exact absurd (halpha.symm.trans h.1) (by simp)

theorem firstWord_word {m : Mark} (hm : m.isBlank = false) (marks : List Mark) :
    firstWord continues (m :: marks) = ((m :: marks).takeWhile (wordMark continues)).map Mark.char := by
  rw [firstWord_eq, List.dropWhile_cons_of_neg (by simp [hm])]

theorem not_isVerb_nil : ¬ IsVerb [] := by decide

/-- Where the guard may be while the language is between two words. -/
inductive Abreast : Mode → ScanState → Prop where
  | code : Abreast (.now .code) (.now .code)
  | literal : Abreast (.now .code) (.now .literal)
  | block (depth : Nat) : Abreast (.now (.block depth)) (.now (.block depth))
  | line : Abreast (.now .line) (.now .line)
  | second {place : Place} : Abreast (.now place) (.now (.ofPlace place)) →
      Abreast (.second false place) (.second false (.ofPlace place))

/-- One character outside comments: the word itself stands there, or a blank or a comment that
opens, and the verb is still to come. -/
theorem verb_outside (hwords : WordChars continues) {loop : Lexical}
    (hloop : loop = .code ∨ loop = .literal) (hsame : Abreast (.now .code) (.now loop)) {c : Char}
    {s : Text} (h : VerbNext (stripper.run (.now loop) (c :: s))) :
    IsVerb (Text.upper (firstWord continues (firstStatement (reading.run (.now .code) (c :: s))))) ∨
      ∃ q r, Abreast q r ∧ VerbNext (stripper.run r s) ∧
        firstWord continues (firstStatement (reading.run (.now .code) (c :: s))) =
          firstWord continues (firstStatement (reading.run q s)) := by
  have hwhole := reading_word hwords hloop (c :: s)
  rw [Scanner.run, Scanner.run] at hwhole
  rw [VerbNext, Scanner.run] at h
  rw [Scanner.run]
  cases hplain : isPlain c with
  | true =>
    rw [stripper_step_plain hplain hloop, reading_step_plain hplain, List.singleton_append,
      List.singleton_append, firstPiece_cons, firstStatement_cons] at hwhole
    rw [stripper_step_plain hplain hloop, List.singleton_append, firstPiece_cons] at h
    rw [reading_step_plain hplain, List.singleton_append, firstStatement_cons]
    by_cases hend : c = ';'
    · rw [if_pos hend] at h
      exact absurd h not_isVerb_nil
    · have hend' : Mark.code c ≠ .code ';' := by simpa using hend
      rw [if_neg hend] at h hwhole
      rw [if_neg hend'] at hwhole ⊢
      cases hblank : Text.isAsciiWhitespace c with
      | true =>
        rw [plainToken_blank hblank] at h
        have hblank' : (Mark.code c).isBlank = true := (Bool.and_eq_true_iff.mp hblank).1
        exact .inr ⟨_, _, hsame, h, firstWord_blank hblank' _⟩
      | false =>
        rw [plainToken_word hblank] at h
        have halpha := h.isAlpha
        have hc : c.isAlpha = true := halpha c (by simp [hblank])
        have hnot : (Mark.code c).isBlank = false := isWhitespace_of_isAlpha hc
        left
        rw [firstWord_word hnot, hwhole halpha]
        exact h
  | false =>
    obtain ⟨hend, hblank, halpha⟩ := special hplain
    obtain ⟨-, place, hplace, hstrip, hread⟩ | ⟨r, hstrip⟩ := step_special c hloop s.head?
    · rw [hstrip] at h
      rw [hread]
      refine .inr ⟨_, _, .second ?_, h, rfl⟩
      obtain rfl | rfl := hplace
      · exact .block 1
      · exact .line
    · rw [hstrip, List.singleton_append, firstPiece_cons, if_neg hend, plainToken_word hblank] at h
      exact absurd (halpha.symm.trans (h.isAlpha c (by simp [hblank]))) (by simp)

/-- **A statement begins with the verb** that the guard finds there. -/
theorem firstWord_of_verbNext (hwords : WordChars continues) {q : Mode} {r : ScanState}
    (hqr : Abreast q r) (s : Text) (h : VerbNext (stripper.run r s)) :
    IsVerb (Text.upper (firstWord continues (firstStatement (reading.run q s)))) := by
  induction s generalizing q r with
  | nil => exact h
  | cons c s ih =>
    have houtside {loop : Lexical} (hloop : loop = .code ∨ loop = .literal)
        (hsame : Abreast (.now .code) (.now loop)) (h : VerbNext (stripper.run (.now loop) (c :: s))) :
        IsVerb (Text.upper (firstWord continues
          (firstStatement (reading.run (.now .code) (c :: s))))) := by
      obtain hverb | ⟨q, r, hqr, hnext, hword⟩ := verb_outside hwords hloop hsame h
      · exact hverb
      · rw [hword]
        exact ih hqr hnext
    cases hqr with
    | code => exact houtside (.inl rfl) .code h
    | literal => exact houtside (.inr rfl) .literal h
    | second hnext => exact ih hnext h
    | block depth =>
      rw [VerbNext, Scanner.run] at h
      rw [Scanner.run]
      simp only [stripper, reading, stripStep, readStep] at h ⊢
      by_cases hopen : c = '/' ∧ s.head? = some '*'
      · rw [if_pos hopen] at h ⊢
        exact ih (.second (.block (depth + 1))) h
      · by_cases hclose : c = '*' ∧ s.head? = some '/'
        · rw [if_neg hopen, if_pos hclose] at h ⊢
          split_ifs at h ⊢
          · exact ih (.second .code) h
          · exact ih (.second (.block (depth - 1))) h
        · rw [if_neg hopen, if_neg hclose] at h ⊢
          exact ih (.block depth) h
    | line =>
      rw [VerbNext, Scanner.run] at h
      rw [Scanner.run]
      simp only [stripper, reading, stripStep, readStep] at h ⊢
      by_cases hnewline : c = '\n'
      · rw [if_pos hnewline] at h ⊢
        subst hnewline
        exact ih .code h
      · rw [if_neg hnewline] at h ⊢
        exact ih .line h

/-! ### Verbs after a semicolon -/

/-- Past a doubled quote the guard is back in the code. -/
def ScanState.Usual (r : ScanState) : Prop := ∀ after, r = .second true after → after = .code

theorem usual_step {r : ScanState} {c : Char} {next : Option Char} :
    (stripper.step r c next).2.Usual := by
  intro after hafter
  obtain (_ | _ | _ | _) | _ := r <;> simp only [stripper, stripStep] at hafter <;>
    (try split_ifs at hafter) <;> simp_all

/-- One character at most is kept at a step. -/
theorem stripper_step_single (r : ScanState) (c : Char) (next : Option Char) :
    (stripper.step r c next).1 = [] ∨ ∃ b, (stripper.step r c next).1 = [b] := by
  obtain (_ | _ | _ | _) | _ := r <;> simp only [stripper, stripStep] <;>
    split_ifs <;> simp

theorem of_endsStatement {q : Mode} {c : Char} {next : Option Char}
    (h : endsStatement (reading.step q c next).1 = true) :
    c = ';' ∧ reading.step q c next = ([.code ';'], .now .code) := by
  have hends : (reading.step q c next).1 = [.code ';'] := of_decide_eq_true h
  obtain (_ | _ | _ | _ | _) | _ := q <;> simp only [reading, readStep] at hends ⊢ <;>
    split_ifs at hends ⊢ <;> simp_all

/-- After a semicolon that is kept the guard is outside comments. -/
theorem stripper_step_semicolon {r : ScanState} (hr : r.Usual) {next : Option Char} {b : Char}
    (h : (stripper.step r ';' next).1 = [b]) :
    ∃ loop, (loop = .code ∨ loop = .literal) ∧ (stripper.step r ';' next).2 = .now loop := by
  cases r with
  | now loop =>
    cases loop with
    | code => exact ⟨.code, .inl rfl, rfl⟩
    | literal => exact ⟨.literal, .inr rfl, rfl⟩
    | block | line => cases h
  | second push after =>
    cases push with
    | false => cases h
    | true => exact ⟨.code, .inl rfl, by rw [hr after rfl]; rfl⟩

/-- **A verb after a semicolon that ends a statement** begins the next one. -/
theorem statement_of_ends (hwords : WordChars continues) {q : Mode × ScanState} (hq : q.2.Usual)
    (s : Text)
    (h : Scanner.FollowedBy (· == (';', true)) (fun rest => VerbNext (rest.map Prod.fst))
      (watched.run q s)) :
    Scanner.FollowedBy (· == .code ';')
      (fun rest => IsVerb (Text.upper (firstWord continues (firstStatement rest))))
      (reading.run q.1 s) := by
  induction s generalizing q with
  | nil => exact h
  | cons c s ih =>
    rw [Scanner.run] at h
    rw [Scanner.run]
    have hlater := fun h => (ih (q := (watched.step q c s.head?).2) usual_step h).append
      (reading.step q.1 c s.head?).1
    rw [watched_step] at h hlater
    obtain hnone | hsome := stripper_step_single q.2 c s.head?
    · rw [hnone] at h
      exact hlater h
    · obtain ⟨b, hb⟩ := hsome
      rw [hb, List.map_singleton, List.singleton_append, Scanner.FollowedBy, beq_iff_eq,
        Prod.mk.injEq, watched_fst] at h
      obtain ⟨⟨-, hends⟩, hverb⟩ | h := h
      · obtain ⟨rfl, hread⟩ := of_endsStatement hends
        obtain ⟨loop, hloop, hnext⟩ := stripper_step_semicolon hq hb
        rw [hnext] at hverb
        rw [hread]
        refine .inl ⟨rfl, firstWord_of_verbNext hwords ?_ s hverb⟩
        obtain rfl | rfl := hloop
        · exact .code
        · exact .literal
      · exact hlater h

end Word

/-! ### What is turned away -/

theorem rejected_iff_verbNext (sql : String) : Rejected sql ↔
    VerbNext (stripper.run (.now .code) sql.toList) ∨
      Scanner.FollowedBy (· == ';') VerbNext (stripper.run (.now .code) sql.toList) := by
  rw [rejected_iff, PlainVerb, List.splitOn_eq_splitOnP, Scanner.exists_mem_splitOnP]
  rfl

theorem denied_iff_firstWord (continues : Char → Bool) (sql : String) : Denied continues sql ↔
    IsVerb (Text.upper (firstWord continues
      (firstStatement (reading.run (.now .code) sql.toList)))) ∨
    Scanner.FollowedBy (· == .code ';')
      (fun rest => IsVerb (Text.upper (firstWord continues (firstStatement rest))))
      (reading.run (.now .code) sql.toList) := by
  rw [Denied, statements, List.splitOn_eq_splitOnP, Scanner.exists_mem_splitOnP]
  rfl

/-- Every semicolon that the guard keeps ends a statement or does not. -/
theorem followedBy_semicolon (s : Text) :
    Scanner.FollowedBy (· == ';') VerbNext (stripper.run (.now .code) s) ↔
      Scanner.FollowedBy (· == (';', true)) (fun rest => VerbNext (rest.map Prod.fst)) (kept s) ∨
        Stray s := by
  rw [Stray, ← Scanner.followedBy_or, ← watched_fst (.now .code, .now .code) s, Scanner.followedBy_map]
  have hflag : (fun b : Char × Bool => b.1 == ';') =
      fun b => b == (';', true) || b == (';', false) := by
    funext b
    obtain ⟨c, _ | _⟩ := b <;> simp [Prod.ext_iff, beq_eq_decide]
  rw [hflag]
  rfl

section Precision
variable {continues : Char → Bool}

/-- **Every rejection has a reason, or comes after a stray semicolon.** -/
theorem denied_or_stray (hwords : WordChars continues) {sql : String} (h : Rejected sql) :
    Denied continues sql ∨ Stray sql.toList := by
  rw [rejected_iff_verbNext, followedBy_semicolon] at h
  rw [denied_iff_firstWord]
  obtain hfirst | hends | hstray := h
  · exact .inl (.inl (firstWord_of_verbNext hwords .code _ hfirst))
  · refine .inl (.inr (statement_of_ends hwords (q := (.now .code, .now .code)) ?_ _ hends))
    intro after hafter
    cases hafter
  · exact .inr hstray

theorem rejected_of_stray {sql : String} (h : Stray sql.toList) : Rejected sql :=
  (rejected_iff_verbNext sql).mpr (.inr ((followedBy_semicolon sql.toList).mpr (.inr h)))

end Precision

theorem reading_step_single {q : Mode} {c : Char} {next : Option Char} {m : Mark}
    (h : m ∈ (reading.step q c next).1) : (reading.step q c next).1 = [m] := by
  obtain (_ | _ | _ | _ | _) | _ := q <;> simp only [reading, readStep] at h ⊢ <;>
    (try split_ifs at h ⊢) <;> simp_all

/-- Where the readings do not part, the stray semicolons are those in quotes. -/
theorem stray_iff_quotedVerb {s : Text} (hstep : inStep s = true) : Stray s ↔ QuotedVerb s := by
  have hkept : kept s = (reading.run (.now .code) s).map fun m => (m.char, endsStatement [m]) := by
    refine stripper_follows.run_beside (q := .now .code) (fun q c next m hm => ?_) hstep
    rw [reading_step_single hm]
  rw [Stray, QuotedVerb, hkept, Scanner.followedBy_map]
  have hmark : (fun m : Mark => (m.char, endsStatement [m]) == (';', false)) =
      fun m => m == .inside ';' := by
    funext m
    cases m <;> simp [Mark.char, endsStatement, beq_eq_decide]
  rw [hmark]
  simp only [List.map_map]
  rfl

/-! ### The same code -/

/-- Inside a literal or a quoted identifier. -/
def quoting : Mode → Bool
  | .now place | .second _ place => place = .literal || place = .quoted

/-- Reading without the content of quotes. -/
def outline : Scanner Mode Char Mark where
  step q c next := (if quoting q then [] else (readStep q c next).1, (readStep q c next).2)

/-- Texts that differ in the content of literals, quoted identifiers and comments only. -/
def SameCode (s s' : Text) : Prop := outline.run (.now .code) s = outline.run (.now .code) s'

instance (s s' : Text) : Decidable (SameCode s s') :=
  inferInstanceAs (Decidable (outline.run (.now .code) s = outline.run (.now .code) s'))

section SameCode
variable {continues : Char → Bool}

/-- Marks that begin with the same word and go on with the same statements. -/
structure Alike (continues : Char → Bool) (atWord : Prop) (marks marks' : List Mark) : Prop where
  first : atWord → firstWord continues (firstStatement marks) =
    firstWord continues (firstStatement marks')
  word : atWord → (firstStatement marks).takeWhile (wordMark continues) =
    (firstStatement marks').takeWhile (wordMark continues)
  later : ∀ P : Text → Prop,
    Scanner.FollowedBy (· == .code ';') (fun rest => P (firstWord continues (firstStatement rest))) marks ↔
      Scanner.FollowedBy (· == .code ';') (fun rest => P (firstWord continues (firstStatement rest)))
        marks'

theorem Alike.cons {atWord : Prop} {marks marks' : List Mark} (h : Alike continues atWord marks marks')
    (hat : atWord) (m : Mark) : Alike continues True (m :: marks) (m :: marks') where
  first := by
    intro _
    rw [firstStatement_cons, firstStatement_cons]
    split_ifs
    · rfl
    · cases hblank : m.isBlank with
      | true => rw [firstWord_blank hblank, firstWord_blank hblank, h.first hat]
      | false =>
        rw [firstWord_word hblank, firstWord_word hblank, List.takeWhile_cons, List.takeWhile_cons,
          h.word hat]
  word := by
    intro _
    rw [firstStatement_cons, firstStatement_cons]
    split_ifs
    · rfl
    · rw [List.takeWhile_cons, List.takeWhile_cons, h.word hat]
  later := by
    intro P
    rw [Scanner.FollowedBy, Scanner.FollowedBy, h.later P, h.first hat]

/-- Behind an opening quote. -/
theorem Alike.quote {atWord : Prop} {marks marks' : List Mark} (h : Alike continues atWord marks marks')
    (c : Char) : Alike continues True (.inside c :: marks) (.inside c :: marks') where
  first := fun _ => rfl
  word := fun _ => rfl
  later := by
    intro P
    rw [Scanner.FollowedBy, Scanner.FollowedBy, h.later P, or_iff_right (by simp), or_iff_right (by simp)]

theorem Alike.weaken {atWord atWord' : Prop} {marks marks' : List Mark}
    (h : Alike continues atWord marks marks') (hat : atWord' → atWord) :
    Alike continues atWord' marks marks' :=
  ⟨fun h' => h.first (hat h'), fun h' => h.word (hat h'), h.later⟩

theorem readStep_quoting {q : Mode} (hq : quoting q = true) (c : Char) (next : Option Char) :
    (readStep q c next).1 = [] ∨ (readStep q c next).1 = [.inside c] := by
  obtain (_ | _ | _ | _ | _) | _ := q <;> simp only [readStep] <;> (try split_ifs) <;>
    simp_all [quoting]

/-- Outside quotes: nothing is written, a mark is, or quotes open. -/
theorem readStep_outside {q : Mode} (hq : quoting q = false) (c : Char) (next : Option Char) :
    (quoting (readStep q c next).2 = false ∧
      ((readStep q c next).1 = [] ∨ ∃ m, (readStep q c next).1 = [m])) ∨
    (readStep q c next).1 = [.inside c] := by
  obtain (_ | _ | _ | _ | _) | _ := q <;> simp only [readStep] <;> (try split_ifs) <;>
    simp_all [quoting]

theorem alike_outline (q : Mode) (s : Text) :
    Alike continues (quoting q = false) (reading.run q s) (outline.run q s) := by
  induction s generalizing q with
  | nil => exact ⟨fun _ => rfl, fun _ => rfl, fun P => Iff.rfl⟩
  | cons c s ih =>
    have hnext := ih (readStep q c s.head?).2
    rw [Scanner.run, Scanner.run]
    simp only [reading, outline]
    cases hq : quoting q with
    | true =>
      refine ⟨fun h => by simp at h, fun h => by simp at h, fun P => ?_⟩
      obtain hnone | hinside := readStep_quoting hq c s.head?
      · rw [hnone]
        exact hnext.later P
      · rw [hinside, List.singleton_append, Scanner.FollowedBy, or_iff_right (by simp)]
        exact hnext.later P
    | false =>
      rw [if_neg (by simp)]
      obtain ⟨hout, hnone | ⟨m, hm⟩⟩ | hquote := readStep_outside hq c s.head?
      · rw [hnone]
        exact hnext.weaken (fun _ => hout)
      · rw [hm]
        exact (hnext.cons hout m).weaken (fun _ => trivial)
      · rw [hquote]
        exact (hnext.quote c).weaken (fun _ => trivial)

theorem denied_congr {sql sql' : String} (h : SameCode sql.toList sql'.toList) :
    Denied continues sql ↔ Denied continues sql' := by
  have hsame (sql : String) := @alike_outline continues (.now .code) sql.toList
  rw [denied_iff_firstWord, denied_iff_firstWord, (hsame sql).first rfl, (hsame sql').first rfl,
    (hsame sql).later (fun w => IsVerb (Text.upper w)),
    (hsame sql').later (fun w => IsVerb (Text.upper w)), h]

end SameCode

/-- **When the guard rejects nothing else**: if a statement does begin with a listed verb, or no
semicolon that ends no statement has one after it. Where the readings do not part these are the
semicolons in quotes; and what the guard answers then depends on the code only, verbs that it
misses apart. -/
theorem rejects_only_verbs_iff {continues : Char → Bool} (hwords : WordChars continues) (sql : String) :
    ((Rejected sql → Denied continues sql) ↔ Denied continues sql ∨ ¬ Stray sql.toList) ∧
    (inStep sql.toList = true → (Stray sql.toList ↔ QuotedVerb sql.toList)) ∧
    ∀ sql', SameCode sql.toList sql'.toList → Sound continues sql → ¬ Rejected sql →
      Denied continues sql' ∨ ¬ Stray sql'.toList → ¬ Rejected sql' := by
  have hreason (sql : String) : Rejected sql → Denied continues sql ∨ ¬ Stray sql.toList →
      Denied continues sql := by
    intro hrejected hcondition
    obtain hdenied | hstray := denied_or_stray hwords hrejected
    · exact hdenied
    · exact hcondition.resolve_right (not_not.mpr hstray)
  refine ⟨⟨fun h => ?_, fun hcondition hrejected => hreason sql hrejected hcondition⟩,
    stray_iff_quotedVerb, fun sql' hsame hsound haccepted hcondition hrejected => ?_⟩
  · by_cases hstray : Stray sql.toList
    · exact .inl (h (rejected_of_stray hstray))
    · exact .inr hstray
  · exact haccepted (hsound ((denied_congr hsame).mpr (hreason sql' hrejected hcondition)))

theorem wordChars_identifierChar : WordChars identifierChar where
  letter c h := by simp [identifierChar, Char.isAlphanum, h]
  blank c h := by
    have hblank : Text.isWhitespace c = true := (Bool.and_eq_true_iff.mp h).1
    by_contra hword
    simp only [identifierChar, Char.isAlphanum, Bool.not_eq_false, Bool.or_eq_true,
      decide_eq_true_eq] at hword
    obtain (halpha | hdigit) | rfl := hword
    · exact absurd (hblank.symm.trans (isWhitespace_of_isAlpha halpha)) (by simp)
    · obtain ⟨hge, hle⟩ := Bool.and_eq_true_iff.mp hdigit
      have hge' : 48 ≤ c.toNat := of_decide_eq_true hge
      have hle' : c.toNat ≤ 57 := of_decide_eq_true hle
      simp [Text.isWhitespace] at hblank
      omega
    · exact absurd hblank (by decide)

theorem rejects_only_verbs_iff_plain : Denied identifierChar "SELECT 'COPY'; copy t TO 'x'" :=
  (rejects_only_verbs_iff wordChars_identifierChar "SELECT 'COPY'; copy t TO 'x'").1.mpr
    (.inr (by decide)) ⟨"COPY", by decide⟩

/-- **Turned away for what stands in quotes**, a literal or an identifier; and for a comment, since
the guard takes the end of a literal with a doubled quote for the beginning of another. -/
theorem rejected_for_content :
    (¬ (∀ sql, Rejected sql → Denied identifierChar sql) ∧
      ¬ ∀ sql sql', SameCode sql.toList sql'.toList → Rejected sql' → Rejected sql) ∧
    (Rejected "SELECT \"a; COPY x\"" ∧ ¬ Denied identifierChar "SELECT \"a; COPY x\"") ∧
    Rejected "SELECT 'it''s'; /* ; COPY x */ SELECT 1" ∧
      ¬ Denied identifierChar "SELECT 'it''s'; /* ; COPY x */ SELECT 1" := by
  have hrejected : Rejected "SELECT 'a; COPY x'" := ⟨"COPY", by decide⟩
  have haccepted : ¬ Rejected "SELECT 'a; x'" := by
    intro h
    obtain ⟨verb, hverb⟩ := h
    exact absurd ((show rejectUnsafeDdl "SELECT 'a; x'" = .ok () by decide).symm.trans hverb)
      (by simp)
  refine ⟨⟨fun h => ?_, fun h => ?_⟩, ⟨⟨"COPY", by decide⟩, by decide⟩, ⟨"COPY", by decide⟩, by decide⟩
  · exact absurd (h _ hrejected) (by decide)
  · exact haccepted (h _ _ (by decide) hrejected)

end Griot.DdlGuard
