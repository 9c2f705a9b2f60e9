import CategoryStatements.Filter

/-! A filter laid out as a table of numbered nodes, in the order in which reading creates
them: a comparison before its two terms, a negation before what it negates, a connective
after its left side and before its right one. -/
namespace CategoryStatements

inductive Node
  | comparison (op : Comparison) (left right : Nat)
  | logical (op : Connective) (left right : Nat)
  | negation (child : Nat)
  | term (t : Term)
  deriving DecidableEq

structure Entry where
  parent : Option Nat
  node : Node
  deriving DecidableEq

/-- The entry of node `i` stands at place `i`. -/
structure Arena where
  root : Option Nat
  entries : List Entry
  deriving DecidableEq

namespace Filter

/-- How many nodes a filter takes. -/
def size : Filter → Nat
  | compare _ _ _ => 3
  | not inner => inner.size + 1
  | combine _ left right => left.size + 1 + right.size

/-- The number of the topmost node, when numbers start at `base`. -/
def top (base : Nat) : Filter → Nat
  | compare _ _ _ => base
  | not _ => base
  | combine _ left _ => base + left.size

/-- The entries of a filter, numbered from `base`. -/
def layout (base : Nat) (parent : Option Nat) : Filter → List Entry
  | compare key op value =>
    [⟨parent, .comparison op (base + 1) (base + 2)⟩, ⟨some base, .term key⟩,
      ⟨some base, .term value⟩]
  | not inner =>
    ⟨parent, .negation (inner.top (base + 1))⟩ :: inner.layout (base + 1) (some base)
  | combine op left right =>
    let here := base + left.size
    left.layout base (some here) ++
      ⟨parent, .logical op (left.top base) (right.top (here + 1))⟩ ::
        right.layout (here + 1) (some here)

theorem length_layout (f : Filter) (base : Nat) (parent : Option Nat) :
    (f.layout base parent).length = f.size := by
  induction f generalizing base parent with
  | compare key op value => rfl
  | not inner ih => simp [layout, size, ih]
  | combine op left right ihl ihr =>
    simp only [layout, size, List.length_append, List.length_cons, ihl, ihr]
    omega

end Filter

def WhereClause.arena (clause : WhereClause) : Arena :=
  match clause.root with
  | some filter => ⟨some (filter.top 0), filter.layout 0 none⟩
  | none => ⟨none, []⟩

/-- The terms of an arena in the order of their numbers. -/
def Arena.terms (arena : Arena) : List Term :=
  arena.entries.filterMap fun entry =>
    match entry.node with
    | .term t => some t
    | _ => none

end CategoryStatements
