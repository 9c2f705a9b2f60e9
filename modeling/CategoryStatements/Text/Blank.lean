/-! Two classes of blank characters. Delimiters separate tokens. White space is the wider
class of the Unicode property of that name, and only decides which keys need quotes. -/
namespace CategoryStatements

/-- Space, tab, carriage return, line feed and form feed. -/
def isDelimiter (c : Char) : Bool :=
  c == ' ' || c == '\t' || c == '\r' || c == '\n' || c == '\x0c'

/-- First and last code points of the runs of white space, in order. -/
def whiteSpaceRuns : List (Nat × Nat) :=
  [(0x9, 0xd), (0x20, 0x20), (0x85, 0x85), (0xa0, 0xa0), (0x1680, 0x1680), (0x2000, 0x200a),
    (0x2028, 0x2029), (0x202f, 0x202f), (0x205f, 0x205f), (0x3000, 0x3000)]

def isWhiteSpace (c : Char) : Bool :=
  whiteSpaceRuns.any fun run => run.1 ≤ c.toNat && c.toNat ≤ run.2

theorem isWhiteSpace_of_isDelimiter {c : Char} (h : isDelimiter c) : isWhiteSpace c := by
  simp only [isDelimiter, Bool.or_eq_true, beq_iff_eq] at h
  rcases h with (((rfl | rfl) | rfl) | rfl) | rfl <;> decide

end CategoryStatements
