import Griot.Sql.Reading
import Mathlib.Data.List.SplitBy

/-! SQL text as tokens.

Tokens are the stretches of a text that belong together: words, literals, quoted names,
comments, and every other character alone. Nothing is left out, so a text is its tokens one
after the other (`tokens_text`) and a stretch of tokens is a stretch of the text. What
stands between parentheses is not at the top. -/
namespace Griot.Sql

open Lib

/-- What differs between the engines that read a statement. -/
structure Dialect where
  /-- The characters an identifier can go on with. -/
  continues : Char → Bool
  /-- The name an unquoted identifier stands for. -/
  fold : Text → Text

/-- Letters, digits and the underscore; names as they are spelled. -/
def Dialect.plain : Dialect := ⟨fun c => c.isAlphanum || c == '_', id⟩

inductive Part where
  | code
  | literal
  | quoted
  | comment
  deriving DecidableEq

/-- A character with what it is part of. -/
abbrev Piece := Char × Part

def partStep (mode : Mode) (c : Char) (next : Option Char) : List Piece × Mode :=
  let (marks, after) := readStep mode c next
  let part := match mode, marks with
    | .now .quoted, _ => .quoted
    | .now .code, [.inside '"'] => .quoted
    | _, [.inside _] => .literal
    | _, [.code _] => .code
    | _, _ => .comment
  ([(c, part)], after)

def parting : Scanner Mode Char Piece := ⟨partStep⟩

structure Token where
  part : Part
  text : Text
  deriving DecidableEq

def Token.ofPieces (pieces : List Piece) : Token :=
  ⟨(pieces.head?.map Prod.snd).getD .code, pieces.map Prod.fst⟩

section Tokens
variable (d : Dialect)

/-- Neighbours in one token. -/
def Piece.together (a b : Piece) : Bool :=
  a.2 = b.2 && (a.2 ≠ .code || (d.continues a.1 && d.continues b.1))

def tokens (s : Text) : List Token :=
  ((parting.run (.now .code) s).splitBy (Piece.together d)).map Token.ofPieces

end Tokens

theorem parting_text (mode : Mode) (s : Text) : (parting.run mode s).map Prod.fst = s := by
  induction s generalizing mode with
  | nil => rfl
  | cons c s ih =>
    rw [Scanner.run, List.map_append, ih]
    rfl

/-- **A text is its tokens.** -/
theorem tokens_text (d : Dialect) (s : Text) : (tokens d s).flatMap Token.text = s := by
  rw [tokens, List.flatMap_map]
  show List.flatMap (List.map Prod.fst) _ = s
  rw [List.flatMap_def, ← List.map_flatten, List.flatten_splitBy, parting_text]

namespace Token

/-- Whitespace or a comment. -/
def isBlank (t : Token) : Bool :=
  t.part = .comment || (t.part = .code && t.text.all Text.isWhitespace)

def isSymbol (c : Char) (t : Token) : Bool := t.part = .code && t.text = [c]

/-- One of some words, in any case. -/
def isKeyword (words : List String) (t : Token) : Bool :=
  t.part = .code && words.any fun w => w.toList = Text.upper t.text

/-- How many parentheses are open after it. -/
def depthAfter (depth : Nat) (t : Token) : Nat :=
  if t.isSymbol '(' then depth + 1 else if t.isSymbol ')' then depth - 1 else depth

end Token

/-- What comes before makes a word a name: a period that is not in a number, or `AS`. `seen` is
what comes before, nearest first. -/
def makesName (seen : List Token) : Bool :=
  match seen.filter (!·.isBlank) with
  | [] => false
  | [t] => t.isSymbol '.' || t.isKeyword ["AS"]
  | t :: before :: _ =>
    t.isSymbol '.' && !(before.text.head?.any Char.isDigit) || t.isKeyword ["AS"]

/-- Cut at the first token at the top at which `stop` holds. -/
def cutTop (stop : List Token → Token → Bool) :
    Nat → List Token → List Token → Option (List Token × Token × List Token)
  | _, _, [] => none
  | depth, seen, t :: rest =>
    if depth = 0 ∧ stop seen t then some ([], t, rest)
    else (cutTop stop (t.depthAfter depth) (t :: seen) rest).map fun p => (t :: p.1, p.2)

theorem cutTop_eq {stop : List Token → Token → Bool} {depth : Nat} {seen ts before rest : List Token}
    {t : Token} (h : cutTop stop depth seen ts = some (before, t, rest)) :
    ts = before ++ t :: rest ∧ ∃ seen', stop seen' t = true := by
  induction ts generalizing depth seen before with
  | nil => cases h
  | cons t' ts ih =>
    rw [cutTop] at h
    split at h
    · rename_i hstop
      obtain ⟨rfl, rfl, rfl⟩ : [] = before ∧ t' = t ∧ ts = rest := by simpa using h
      exact ⟨rfl, seen, hstop.2⟩
    · obtain ⟨⟨before', p⟩, hcut, heq⟩ := Option.map_eq_some_iff.mp h
      obtain ⟨rfl, rfl⟩ := Prod.mk.inj heq
      obtain ⟨rfl, hstop⟩ := ih hcut
      exact ⟨rfl, hstop⟩

/-- A clause keyword: a word at the top that is no name. -/
def startsClause (words : List String) (seen : List Token) (t : Token) : Bool :=
  t.isKeyword words && !makesName seen

end Griot.Sql
