import Griot.Data.Error
import Griot.Lib.Latin

/-! The guard against unsafe statements.

The guard strips comments byte by byte, cuts what is left at every semicolon and
compares the first word of each piece with its list. It does not read SQL the way
the language does: a doubled quote ends a literal for it, double quotes mean nothing
to it, and a word only ends at whitespace. -/
namespace Griot

open Lib

inductive EngineError where
  | unsafeDdlRejected (verb : String)
  | noContractBundle
  | invalidConfig (reason : String)
  | dataFusion (error : DataFusionError)
  deriving DecidableEq

namespace DdlGuard

def disallowedVerbs : List String := ["INSTALL", "LOAD", "ATTACH", "COPY", "EXTENSION"]

/-- The loops of the byte scanner. -/
inductive Lexical where
  | code
  | block (depth : Nat)
  | line
  | literal
  deriving DecidableEq

/-- Where the byte scanner is: in a loop, or at the second of two bytes that a loop consumes
together, and pushes or not. -/
inductive ScanState where
  | now (loop : Lexical)
  | second (push : Bool) (after : Lexical)
  deriving DecidableEq

/-- What is pushed for a byte, seeing the next one. -/
def stripStep : ScanState → Char → Option Char → Text × ScanState
  | .now .code, c, next =>
    if c = '/' ∧ next = some '*' then ([' '], .second false (.block 1))
    else if c = '-' ∧ next = some '-' then ([' '], .second false .line)
    else if c = '\'' then ([c], .now .literal)
    else ([c], .now .code)
  | .now (.block depth), c, next =>
    if c = '/' ∧ next = some '*' then ([], .second false (.block (depth + 1)))
    else if c = '*' ∧ next = some '/' then
      ([], .second false (if depth = 1 then .code else .block (depth - 1)))
    else ([], .now (.block depth))
  | .now .line, c, _ =>
    -- The newline itself is left to the main loop.
    if c = '\n' then ([c], .now .code) else ([], .now .line)
  | .now .literal, c, next =>
    if c = '\'' then
      -- A doubled quote is pushed, and the loop is left all the same.
      if next = some '\'' then ([c], .second true .code) else ([c], .now .code)
    else ([c], .now .literal)
  | .second push after, c, _ => (if push then [c] else [], .now after)

def stripper : Scanner ScanState Char Char := ⟨stripStep⟩

/-- `strip_comments`: every byte that is kept becomes a character. -/
def stripComments (sql : String) : Text := stripper.run (.now .code) (latin1 (utf8 sql))

/-- `split_whitespace().next().unwrap_or("").to_ascii_uppercase()` -/
def firstToken (statement : Text) : Text :=
  Text.upper ((statement.dropWhile Text.isWhitespace).takeWhile (!Text.isWhitespace ·))

def checkStatement (statement : Text) : Except EngineError Unit :=
  match disallowedVerbs.find? (·.toList = firstToken statement) with
  | some verb => .error (.unsafeDdlRejected verb)
  | none => .ok ()

def rejectUnsafeDdl (sql : String) : Except EngineError Unit :=
  ((stripComments sql).splitOn ';').forM checkStatement

end DdlGuard
end Griot
