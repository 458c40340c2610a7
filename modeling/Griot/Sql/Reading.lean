import Griot.Lib.Scanner
import Griot.Lib.Text

/-! How SQL text is read.

Literals in single quotes, where a doubled quote stands for one; identifiers in
double quotes; line comments up to the newline and block comments, which nest.
Reading marks every character as code or as inside quotes and every comment as
blank. Statements end at the semicolons of the code, and a statement's first word
comes after blanks and lasts as long as an identifier can go on. -/
namespace Griot.Sql

open Lib

inductive Place where
  | code
  /-- Inside so many block comments. -/
  | block (depth : Nat)
  | line
  | literal
  | quoted
  deriving DecidableEq

/-- Where the reader is: at some place, or at the second of two characters that belong together,
kept or not. -/
inductive Mode where
  | now (place : Place)
  | second (kept : Bool) (after : Place)
  deriving DecidableEq

inductive Mark where
  | code (c : Char)
  | blank
  | inside (c : Char)
  deriving DecidableEq

namespace Mark

/-- The character read; a space for a comment. -/
def char : Mark → Char
  | code c => c
  | blank => ' '
  | inside c => c

def isBlank : Mark → Bool
  | code c => Text.isWhitespace c
  | blank => true
  | inside _ => false

end Mark

def readStep : Mode → Char → Option Char → List Mark × Mode
  | .now .code, c, next =>
    if c = '/' ∧ next = some '*' then ([.blank], .second false (.block 1))
    else if c = '-' ∧ next = some '-' then ([.blank], .second false .line)
    else if c = '\'' then ([.inside c], .now .literal)
    else if c = '"' then ([.inside c], .now .quoted)
    else ([.code c], .now .code)
  | .now (.block depth), c, next =>
    if c = '/' ∧ next = some '*' then ([], .second false (.block (depth + 1)))
    else if c = '*' ∧ next = some '/' then
      ([], .second false (if depth = 1 then .code else .block (depth - 1)))
    else ([], .now (.block depth))
  | .now .line, c, _ => if c = '\n' then ([.code c], .now .code) else ([], .now .line)
  | .now .literal, c, next =>
    if c = '\'' then
      if next = some '\'' then ([.inside c], .second true .literal) else ([.inside c], .now .code)
    else ([.inside c], .now .literal)
  | .now .quoted, c, _ => ([.inside c], .now (if c = '"' then .code else .quoted))
  | .second kept after, c, _ => (if kept then [.inside c] else [], .now after)

def reading : Scanner Mode Char Mark := ⟨readStep⟩

def statements (s : Text) : List (List Mark) := (reading.run (.now .code) s).splitOn (.code ';')

/-- The first word of a statement, empty where the statement does not start with one;
`continues` are the characters an identifier can go on with. -/
def firstWord (continues : Char → Bool) (statement : List Mark) : Text :=
  ((statement.dropWhile Mark.isBlank).takeWhile fun
    | .code c => continues c
    | _ => false).map Mark.char

/-- The text with its comments blanked. -/
def uncommented (s : Text) : Text := (reading.run (.now .code) s).map Mark.char

end Griot.Sql
