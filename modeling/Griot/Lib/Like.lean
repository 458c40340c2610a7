import Mathlib.Data.List.Basic

/-! Patterns with wildcards.

`%` stands for any text and `_` for one character; a character after the escape character
stands for itself, and so does an escape character at the end. -/
namespace Griot.Lib

def likeMatches (escape : Option Char) : List Char → List Char → Bool
  | [], s => s.isEmpty
  | c :: pattern, s =>
    if some c = escape then
      match pattern with
      | [] => s = [c]
      | d :: rest => s.head? = some d && likeMatches escape rest s.tail
    else if c = '%' then s.tails.any fun t => likeMatches escape pattern t
    else if c = '_' then !s.isEmpty && likeMatches escape pattern s.tail
    else s.head? = some c && likeMatches escape pattern s.tail

/-- An escape character that the pattern does not have makes no difference. -/
theorem likeMatches_of_notMem {escape escape' : Option Char} {pattern : List Char}
    (h : ∀ c ∈ pattern, some c ≠ escape) (h' : ∀ c ∈ pattern, some c ≠ escape') (s : List Char) :
    likeMatches escape pattern s = likeMatches escape' pattern s := by
  induction pattern generalizing s with
  | nil => rfl
  | cons c pattern ih =>
    obtain ⟨hc, hpattern⟩ := List.forall_mem_cons.1 h
    obtain ⟨hc', hpattern'⟩ := List.forall_mem_cons.1 h'
    have hrest := fun t => ih hpattern hpattern' t
    unfold likeMatches
    simp only [if_neg hc, if_neg hc', hrest]

end Griot.Lib
