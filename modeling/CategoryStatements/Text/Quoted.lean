/-! Single quotes. A quoted text has no escapes: it starts and ends with a quote, and what
stands between is taken as it is. -/
namespace CategoryStatements

def quoteMark : Char := '\x27'

def quoted (text : String) : String := "'" ++ text ++ "'"

/-- What stands between the quotes, if the text has one at each end. -/
def betweenQuotes? : List Char → Option (List Char)
  | [] => none
  | c :: cs => if c = quoteMark ∧ cs.getLast? = some quoteMark then some cs.dropLast else none

/-- Removes one pair of enclosing quotes, and leaves any other text alone. -/
def unquote (text : String) : String :=
  match betweenQuotes? text.toList with
  | some inner => String.ofList inner
  | none => text

theorem betweenQuotes?_quoted (cs : List Char) :
    betweenQuotes? (quoteMark :: (cs ++ [quoteMark])) = some cs := by
  simp [betweenQuotes?]

theorem eq_of_betweenQuotes? {text cs : List Char} (h : betweenQuotes? text = some cs) :
    text = quoteMark :: (cs ++ [quoteMark]) := by
  cases text with
  | nil => simp [betweenQuotes?] at h
  | cons c rest =>
    simp only [betweenQuotes?] at h
    split at h
    · next hc =>
      obtain ⟨rfl, hlast⟩ := hc
      obtain ⟨inner, rfl⟩ := List.getLast?_eq_some_iff.mp hlast
      simpa using h
    · cases h

end CategoryStatements
