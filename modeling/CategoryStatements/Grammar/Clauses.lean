import CategoryStatements.Grammar.Terms
import CategoryStatements.Statement

/-! Reading clauses. -/
namespace CategoryStatements.Reader

def equals : Reader Unit := do
  let token ← next .equals
  if token.text = Comparison.equal.spelling then return () else throw (.unexpected .equals token)

def assignment : Reader Assignment := do
  let k ← key .set
  equals
  let v ← value .set
  return ⟨k, v⟩

def comparisonOperator : Reader Comparison := do
  let token ← next .comparison
  match Comparison.ofText? token.text with
  | some op => return op
  | none => throw (.unexpected .comparison token)

def comparison : Reader Filter := do
  let k ← key .filter
  let op ← comparisonOperator
  let v ← value .filter
  return .compare k op v

/-- Takes all negations at the front and counts them. -/
def negations : Reader Nat := fun c =>
  let nots := c.tokens.takeWhile fun token => token.text = Keyword.not.spelling
  .ok (nots.length, { c with tokens := c.tokens.drop nots.length })

def condition : Reader Filter := do
  let count ← negations
  return .negate count (← comparison)

def conjunction : Reader Filter := do
  let (first, others) ← chain Connective.and.spelling condition
  return .join .and first others

def disjunction : Reader Filter := do
  let (first, others) ← chain Connective.or.spelling conjunction
  return .join .or first others

def direction : Reader Direction := do
  let token ← next .direction
  match Direction.ofText? token.text with
  | some d => return d
  | none => throw (.unexpected .direction token)

def sortKey : Reader SortKey := do
  let k ← key .sort
  return ⟨k, ← direction⟩

/-- Reads a limit, which must be an integer unless it is a placeholder. -/
def limit : Reader Term := do
  let t ← value .limit
  match t.atom with
  | .placeholder _ | .literal (.int _) => return t
  | .literal l => throw (.limitNotInteger l)

end CategoryStatements.Reader
