import CategoryStatements.Text.Blank
import CategoryStatements.Text.Quoted

/-! Tokens of a descriptor. Delimiters separate tokens and belong to none of them.
A token is a punctuation mark, a quoted text, or a word; a word ends at the next delimiter
or mark, a quoted text at its closing quote or, left open, at the next delimiter.
Positions are offsets in bytes of the UTF-8 form. -/
namespace CategoryStatements

structure Span where
  start : Nat
  stop : Nat
  deriving DecidableEq

namespace Span

def length (span : Span) : Nat := span.stop - span.start

def isEmpty (span : Span) : Bool := span.start == span.stop

end Span

structure Token where
  text : String
  span : Span
  deriving DecidableEq

/-- The number of bytes of a text. -/
def byteLength : List Char → Nat
  | [] => 0
  | c :: cs => c.utf8Size + byteLength cs

/-- The length of the punctuation mark at the front of a text, zero if there is none.
An exclamation mark alone is no punctuation. -/
def markLength : List Char → Nat
  | '!' :: '=' :: _ => 2
  | '<' :: '=' :: _ => 2
  | '>' :: '=' :: _ => 2
  | '=' :: _ => 1
  | '<' :: _ => 1
  | '>' :: _ => 1
  | ',' :: _ => 1
  | _ => 0

/-- Splits off what continues a word. -/
def splitWord : List Char → List Char × List Char
  | [] => ([], [])
  | c :: cs =>
    if isDelimiter c || markLength (c :: cs) != 0 then ([], c :: cs)
    else (c :: (splitWord cs).1, (splitWord cs).2)

/-- Splits off what continues a quoted text, its closing quote included. -/
def splitQuoted : List Char → List Char × List Char
  | [] => ([], [])
  | c :: cs =>
    if isDelimiter c then ([], c :: cs)
    else if c = quoteMark then ([c], cs)
    else (c :: (splitQuoted cs).1, (splitQuoted cs).2)

/-- Splits off what continues a token that starts with the character `c`. -/
def splitToken (c : Char) (cs : List Char) : List Char × List Char :=
  if c = quoteMark then splitQuoted cs
  else if markLength (c :: cs) = 0 then splitWord cs
  else cs.splitAt (markLength (c :: cs) - 1)

theorem splitWord_append (cs : List Char) : (splitWord cs).1 ++ (splitWord cs).2 = cs := by
  fun_induction splitWord cs <;> simp_all

theorem splitQuoted_append (cs : List Char) : (splitQuoted cs).1 ++ (splitQuoted cs).2 = cs := by
  fun_induction splitQuoted cs <;> simp_all

theorem splitToken_append (c : Char) (cs : List Char) :
    (splitToken c cs).1 ++ (splitToken c cs).2 = cs := by
  unfold splitToken
  split
  · exact splitQuoted_append cs
  · split
    · exact splitWord_append cs
    · simp

theorem length_splitToken_le (c : Char) (cs : List Char) :
    (splitToken c cs).2.length ≤ cs.length := by
  have h := congrArg List.length (splitToken_append c cs)
  simp only [List.length_append] at h
  omega

/-- The tokens of a text that starts at the given offset. -/
def tokensFrom (offset : Nat) : List Char → List Token
  | [] => []
  | c :: cs =>
    if isDelimiter c then tokensFrom (offset + c.utf8Size) cs
    else
      let chars := c :: (splitToken c cs).1
      let stop := offset + byteLength chars
      ⟨String.ofList chars, ⟨offset, stop⟩⟩ :: tokensFrom stop (splitToken c cs).2
termination_by cs => cs.length
decreasing_by
  all_goals have := length_splitToken_le c cs
  all_goals simp only [List.length_cons]
  all_goals omega

def tokenize (text : String) : List Token := tokensFrom 0 text.toList

end CategoryStatements
