import Griot.Ddl.Guard
import Griot.Sql.Reading

/-! What the guard catches.

The guard reads the text as the language does up to the first doubled quote in a
literal and the first quote or comment opening in a quoted identifier (`inStep`).
There a statement that starts with a listed verb is caught exactly when only ASCII
blanks and comments come before the verb and one of them, a semicolon or the end
comes after it (`sound_iff`); what is caught before the readings part stays caught
whatever follows. -/
namespace Griot.DdlGuard

open Lib Sql

/-! ### Rejected texts -/

def IsVerb (w : Text) : Prop := ∃ verb ∈ disallowedVerbs, verb.toList = w

instance (w : Text) : Decidable (IsVerb w) :=
  inferInstanceAs (Decidable (∃ verb ∈ disallowedVerbs, verb.toList = w))

/-- The verbs are made of ASCII letters. -/
theorem IsVerb.isUpper {w : Text} (h : IsVerb w) : ∀ c ∈ w, c.isUpper = true := by
  have hall : (disallowedVerbs.all fun verb => verb.toList.all Char.isUpper) = true := rfl
  obtain ⟨verb, hverb, rfl⟩ := h
  exact List.all_eq_true.mp (List.all_eq_true.mp hall verb hverb)

theorem IsVerb.isAscii {w : Text} (h : IsVerb w) : ∀ c ∈ w, Text.isAscii c = true := by
  intro c hc
  have hupper : c.val ≥ 65 ∧ c.val ≤ 90 := of_decide_eq_true (h.isUpper c hc)
  have hle : c.toNat ≤ 90 := hupper.2
  exact decide_eq_true (by omega)

theorem IsVerb.notMem {w : Text} (h : IsVerb w) {c : Char} (hc : c.isUpper = false) : c ∉ w :=
  fun hmem => absurd (hc.symm.trans (h.isUpper c hmem)) (by simp)

def Rejected (sql : String) : Prop := ∃ verb, rejectUnsafeDdl sql = .error (.unsafeDdlRejected verb)

theorem checkStatement_error_iff (statement : Text) :
    (∃ verb, checkStatement statement = .error (.unsafeDdlRejected verb)) ↔
      IsVerb (firstToken statement) := by
  rw [checkStatement]
  cases hfind : disallowedVerbs.find? (·.toList = firstToken statement) with
  | some verb =>
    have hverb := List.find?_some hfind
    exact ⟨fun _ => ⟨verb, List.mem_of_find?_eq_some hfind, of_decide_eq_true hverb⟩,
      fun _ => ⟨verb, rfl⟩⟩
  | none =>
    rw [List.find?_eq_none] at hfind
    constructor
    · intro ⟨_, h⟩
      exact absurd h (by simp)
    · intro ⟨verb, hmem, heq⟩
      exact absurd (decide_eq_true heq) (hfind verb hmem)

theorem checkStatement_cases (statement : Text) : checkStatement statement = .ok () ∨
    ∃ verb, checkStatement statement = .error (.unsafeDdlRejected verb) := by
  rw [checkStatement]
  split
  · exact .inr ⟨_, rfl⟩
  · exact .inl rfl

theorem forM_error_iff (pieces : List Text) :
    (∃ verb, pieces.forM checkStatement = .error (.unsafeDdlRejected verb)) ↔
      ∃ piece ∈ pieces, IsVerb (firstToken piece) := by
  induction pieces with
  | nil => simp [pure, Except.pure]
  | cons piece pieces ih =>
    rw [List.exists_mem_cons_iff, ← checkStatement_error_iff, ← ih]
    show (∃ verb, (checkStatement piece >>= fun _ => pieces.forM checkStatement) = _) ↔ _
    rcases checkStatement_cases piece with hok | ⟨verb, herror⟩
    · rw [hok]
      exact ⟨.inr, fun h => h.resolve_left (by simp)⟩
    · rw [herror]
      exact ⟨fun _ => .inl ⟨verb, rfl⟩, fun _ => ⟨verb, rfl⟩⟩

/-! ### Bytes and characters -/

/-- The first word between ASCII blanks, in upper case. -/
def plainToken (piece : Text) : Text :=
  Text.upper ((piece.dropWhile Text.isAsciiWhitespace).takeWhile (!Text.isAsciiWhitespace ·))

/-- Between two semicolons the first word is a listed verb. -/
def PlainVerb (t : Text) : Prop := ∃ piece ∈ t.splitOn ';', IsVerb (plainToken piece)

instance (t : Text) : Decidable (PlainVerb t) :=
  inferInstanceAs (Decidable (∃ piece ∈ t.splitOn ';', IsVerb (plainToken piece)))

def ScanState.passing : ScanState → Bool
  | .now _ => false
  | .second _ _ => true

def ScanState.copies : ScanState → Bool
  | .now .code | .now .literal => true
  | _ => false

/-- The scanner looks at ASCII only. -/
theorem stripper_oblivious :
    stripper.Oblivious Text.isAscii ScanState.passing ScanState.copies where
  next := by
    intro q c x hx
    have hne : ∀ a : Char, Text.isAscii a = true → x ≠ a := by
      rintro a ha rfl
      exact absurd (hx.symm.trans ha) (by simp)
    have hslash := hne '/' (by decide)
    have hstar := hne '*' (by decide)
    have hdash := hne '-' (by decide)
    have hquote := hne '\'' (by decide)
    rcases q with (_ | _ | _ | _) | _ <;>
      simp [stripper, stripStep, hslash, hstar, hdash, hquote]
  other := by
    intro q c next hc hq
    have hne : ∀ a : Char, Text.isAscii a = true → c ≠ a := by
      rintro a ha rfl
      exact absurd (hc.symm.trans ha) (by simp)
    have hslash := hne '/' (by decide)
    have hstar := hne '*' (by decide)
    have hdash := hne '-' (by decide)
    have hquote := hne '\'' (by decide)
    have hnewline := hne '\n' (by decide)
    cases q with
    | second => exact absurd hq (by simp [ScanState.passing])
    | now loop =>
      cases loop <;>
        simp [stripper, stripStep, ScanState.copies, hslash, hstar, hdash, hquote, hnewline]
  output := by
    intro q c next hc
    have hspace : Text.isAscii ' ' = true := by decide
    rcases q with (_ | _ | _ | _) | _ <;> simp only [stripper, stripStep] <;> split_ifs <;>
      simp [hc, hspace]
  enters := by
    intro q c next h
    rcases q with (_ | _ | _ | _) | _ <;> simp only [stripper, stripStep] at h <;>
      (try split_ifs at h) <;> simp_all [ScanState.passing, Text.isAscii]

theorem stripComments_eq (sql : String) :
    stripComments sql = (stripper.run (.now .code) sql.toList).flatMap latin1Char := by
  rw [stripComments, latin1_utf8]
  exact stripper_oblivious.run_flatMap utf8Encoding (.now .code) sql.toList (by simp [ScanState.passing])

theorem firstToken_flatMap (piece : Text) :
    IsVerb (firstToken (piece.flatMap latin1Char)) ↔ IsVerb (plainToken piece) := by
  have htoken : ∀ w, IsVerb w → (firstToken (piece.flatMap latin1Char) = w ↔
      plainToken piece = w) := fun w hw => by
    rw [firstToken, dropWhile_flatMap, plainToken, takeWhile_flatMap hw.isAscii]
  exact ⟨fun h => (htoken _ h).mp rfl ▸ h, fun h => (htoken _ h).mpr rfl ▸ h⟩

/-- **The guard, by characters**: that it scans bytes makes no difference. -/
theorem rejected_iff (sql : String) :
    Rejected sql ↔ PlainVerb (stripper.run (.now .code) sql.toList) := by
  have hpieces : (stripComments sql).splitOn ';' =
      ((stripper.run (.now .code) sql.toList).splitOn ';').map (·.flatMap latin1Char) := by
    rw [stripComments_eq]
    refine utf8Encoding.splitOnP_flatMap (fun c hc => ?_) _
    rw [beq_eq_false_iff_ne]
    intro heq
    subst heq
    exact absurd hc (by decide)
  rw [Rejected, rejectUnsafeDdl, forM_error_iff, hpieces]
  simp only [List.mem_map, exists_exists_and_eq_and, firstToken_flatMap]
  rfl

/-! ### In step with the language -/

/-- The guard's loop at a place: it does not know quoted identifiers. -/
def Lexical.ofPlace : Place → Lexical
  | .code => .code
  | .block depth => .block depth
  | .line => .line
  | .literal => .literal
  | .quoted => .code

def ScanState.ofMode : Mode → ScanState
  | .now place => .now (.ofPlace place)
  | .second kept after => .second kept (.ofPlace after)

/-- The readings part: at a doubled quote in a literal, and where a quoted identifier has a quote
or opens a comment. -/
def partsAt : Mode → Char → Option Char → Bool
  | .now .literal, c, next => c = '\'' ∧ next = some '\''
  | .now .quoted, c, next =>
    c = '\'' ∨ (c = '/' ∧ next = some '*') ∨ (c = '-' ∧ next = some '-')
  | _, _, _ => false

/-- **One step**: where the readings do not part, the guard takes the reader's step. -/
theorem stripper_follows :
    Scanner.Follows partsAt ScanState.ofMode Mark.char reading stripper := by
  intro q c next hq
  rcases q with (_ | depth | _ | _ | _) | ⟨kept, after⟩
  · -- code
    simp only [reading, readStep, stripper, ScanState.ofMode, Lexical.ofPlace, stripStep]
    split_ifs <;> simp_all [Mark.char]
  · -- a block comment
    simp only [reading, readStep, stripper, ScanState.ofMode, Lexical.ofPlace, stripStep]
    split_ifs <;> simp_all
  · -- a line comment
    simp only [reading, readStep, stripper, ScanState.ofMode, Lexical.ofPlace, stripStep]
    split_ifs <;> simp_all [Mark.char]
  · -- a literal
    simp only [reading, readStep, stripper, ScanState.ofMode, Lexical.ofPlace, stripStep]
    split_ifs <;> simp_all [partsAt, Mark.char]
  · -- a quoted identifier, code to the guard
    simp only [partsAt, decide_eq_false_iff_not, not_or] at hq
    simp only [reading, readStep, stripper, ScanState.ofMode, Lexical.ofPlace, stripStep, if_neg hq.1,
      if_neg hq.2.1, if_neg hq.2.2]
    split_ifs <;> simp [Mark.char]
  · cases kept <;> simp [reading, readStep, stripper, ScanState.ofMode, stripStep, Mark.char]

def inStep (s : Text) : Bool := reading.never partsAt (.now .code) s

/-- The text with its comments blanked, up to where the readings part; a quote is put there. -/
def agreed (s : Text) : Text :=
  if inStep s then uncommented s
  else (reading.runUntil partsAt (.now .code) s).map Mark.char ++ ['\'']

/-- A word of the list that ends before a character no such word has does not depend on what
follows. -/
theorem plainToken_append {piece : Text} {x : Char} {rest : Text}
    (hblank : Text.isAsciiWhitespace x = false) (hverb : ∀ w, IsVerb w → x.toUpper ∉ w)
    (h : IsVerb (plainToken (piece ++ x :: rest))) (u : Text) :
    plainToken (piece ++ u) = plainToken (piece ++ x :: rest) := by
  have hmem := hverb _ h
  simp only [plainToken, Text.upper, List.dropWhile_append] at hmem ⊢
  split at hmem
  · rw [List.dropWhile_cons_of_neg (by simp [hblank]),
      List.takeWhile_cons_of_pos (by simp [hblank])] at hmem
    exact absurd (List.mem_cons_self ..) hmem
  · rename_i hne
    rw [if_neg hne, if_neg hne]
    rw [List.takeWhile_append] at hmem ⊢
    split at hmem
    · rw [List.takeWhile_cons_of_pos (by simp [hblank]), List.map_append] at hmem
      exact absurd (List.mem_append_right _ (List.mem_cons_self ..)) hmem
    · rename_i hlength
      rw [if_neg hlength, List.takeWhile_append, if_neg hlength]

/-- A verb found before a quote stays found, whatever comes instead of the quote. -/
theorem PlainVerb.append {t : Text} (h : PlainVerb (t ++ ['\''])) (u : Text) :
    PlainVerb (t ++ u) := by
  obtain ⟨piece, hpiece, hverb⟩ := h
  obtain ⟨init, last, -, hsplit⟩ := Scanner.splitOnP_append (· == ';') t
  have hquote : (['\''] : Text).splitOnP (· == ';') = [['\'']] := rfl
  rw [List.splitOn_eq_splitOnP, hsplit, hquote, List.mem_append] at hpiece
  obtain ⟨first, rest, hu⟩ := List.exists_cons_of_ne_nil (List.splitOnP_ne_nil (· == ';') u)
  rw [PlainVerb, List.splitOn_eq_splitOnP, hsplit, hu]
  rcases hpiece with hinit | hlast
  · exact ⟨piece, List.mem_append_left _ hinit, hverb⟩
  · obtain rfl : piece = last ++ ['\''] := List.mem_singleton.mp hlast
    refine ⟨last ++ first, List.mem_append_right _ (List.mem_cons_self ..), ?_⟩
    rw [plainToken_append (x := '\'') (by decide) (fun w hw => hw.notMem rfl) hverb]
    exact hverb

theorem rejected_of_agreed {sql : String} (h : PlainVerb (agreed sql.toList)) : Rejected sql := by
  rw [rejected_iff]
  rw [agreed] at h
  cases hstep : inStep sql.toList with
  | true =>
    rw [if_pos hstep] at h
    rw [show ScanState.now .code = .ofMode (.now .code) from rfl, stripper_follows.run_of_never hstep]
    exact h
  | false =>
    rw [hstep, if_neg (by simp)] at h
    obtain ⟨more, hmore⟩ := stripper_follows.run_parts hstep
    rw [show ScanState.now .code = .ofMode (.now .code) from rfl, hmore]
    exact h.append more

/-- A statement whose verb stands plainly, between ASCII blanks and comments, has it in the text
with comments blanked. -/
theorem plainVerb_of_statement {s : Text} {statement : List Mark} (h : statement ∈ statements s)
    (hverb : IsVerb (plainToken (statement.map Mark.char))) : PlainVerb (uncommented s) := by
  obtain ⟨part, parts, piece, pieces, hparts, hpieces, hfirst, hrest⟩ :=
    Scanner.splitOnP_map_refines (f := Mark.char) (p := (· == .code ';')) (r := (· == ';'))
      (fun m hm => by rw [beq_iff_eq.mp hm]; rfl) (reading.run (.now .code) s)
  have hcut : ∃ piece' ∈ (uncommented s).splitOn ';', Scanner.CutFrom (· == ';') piece'
      (statement.map Mark.char) := by
    rw [uncommented, List.splitOn_eq_splitOnP, hpieces]
    rw [statements, List.splitOn_eq_splitOnP, hparts] at h
    rcases List.mem_cons.mp h with rfl | h
    · exact ⟨piece, List.mem_cons_self .., hfirst⟩
    · obtain ⟨piece', hmem, hcut⟩ := hrest statement h
      exact ⟨piece', List.mem_cons_of_mem _ hmem, hcut⟩
  obtain ⟨piece', hmem, heq | ⟨x, rest, hx, heq⟩⟩ := hcut
  · exact ⟨piece', hmem, heq ▸ hverb⟩
  · obtain rfl : x = ';' := beq_iff_eq.mp hx
    refine ⟨piece', hmem, ?_⟩
    rw [heq] at hverb
    have hsame := plainToken_append (x := ';') (by decide) (fun w hw => hw.notMem rfl) hverb []
    rw [List.append_nil] at hsame
    exact hsame ▸ hverb

/-- **A plain statement is rejected** where the readings do not part. -/
theorem rejected_of_statement {sql : String} (hstep : inStep sql.toList = true)
    {statement : List Mark} (h : statement ∈ statements sql.toList)
    (hverb : IsVerb (plainToken (statement.map Mark.char))) : Rejected sql := by
  apply rejected_of_agreed
  rw [agreed, if_pos hstep]
  exact plainVerb_of_statement h hverb

theorem agreed_of_rejected {sql : String} (hstep : inStep sql.toList = true) (h : Rejected sql) :
    PlainVerb (agreed sql.toList) := by
  rw [rejected_iff, show ScanState.now .code = .ofMode (.now .code) from rfl,
    stripper_follows.run_of_never hstep] at h
  rw [agreed, if_pos hstep]
  exact h

/-! ### Soundness -/

section Soundness
variable (continues : Char → Bool) (sql : String)

/-- Some statement's first word is a listed verb. -/
def Denied : Prop :=
  ∃ statement ∈ statements sql.toList, IsVerb (Text.upper (firstWord continues statement))

instance : Decidable (Denied continues sql) :=
  inferInstanceAs (Decidable (∃ statement ∈ statements sql.toList,
    IsVerb (Text.upper (firstWord continues statement))))

/-- What the guard is for. -/
def Sound : Prop := Denied continues sql → Rejected sql

/-- **When the guard is sound**: if a verb that stands plainly is there before the readings part;
and only then, if they do not part. -/
theorem sound_iff :
    ((Denied continues sql → PlainVerb (agreed sql.toList)) → Sound continues sql) ∧
    (inStep sql.toList = true → Sound continues sql → Denied continues sql →
      PlainVerb (agreed sql.toList)) :=
  ⟨fun h hdenied => rejected_of_agreed (h hdenied),
    fun hstep hsound hdenied => agreed_of_rejected hstep (hsound hdenied)⟩

end Soundness

/-- An identifier goes on with letters, digits and underscores. -/
def identifierChar (c : Char) : Bool := c.isAlphanum || c = '_'

/-- **Ways past the guard**: a verb right before a bracket, a doubled quote that closes a literal,
a comment opened in a quoted identifier, a blank that is not ASCII. -/
theorem verbs_pass :
    (Denied identifierChar "COPY(SELECT 1) TO 'x'" ∧
      rejectUnsafeDdl "COPY(SELECT 1) TO 'x'" = .ok ()) ∧
    (Denied identifierChar "SELECT 'a''--'; COPY t TO 'x'" ∧
      rejectUnsafeDdl "SELECT 'a''--'; COPY t TO 'x'" = .ok ()) ∧
    (Denied identifierChar "SELECT \"--\"; COPY t TO 'x'" ∧
      rejectUnsafeDdl "SELECT \"--\"; COPY t TO 'x'" = .ok ()) ∧
    Denied identifierChar "\u00a0COPY t TO 'x'" ∧
      rejectUnsafeDdl "\u00a0COPY t TO 'x'" = .ok () := by
  decide

end Griot.DdlGuard
