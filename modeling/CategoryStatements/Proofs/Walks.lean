import CategoryStatements.Proofs.Precedence

/-! Walks through arenas. A WHERE clause can be bound in its arena, from place to place. On the way
there is more to guard against than in the tree: places that are empty, numbers that no node
has, terms where a condition is wanted, and ways without an end. In the arena that reading
leaves none of this is met, and the walk fails or succeeds as binding does. -/
namespace CategoryStatements

/-- What is found in a place of an arena. -/
inductive Walked
  | term (r : Resolved)
  | condition (c : Condition)

inductive WalkFault
  | binding (fault : BindingFault)
  | emptyPlace (slot : Slot)
  | noNode (id : Nat)
  | conditionWanted (found : Resolved)
  | termWanted (found : Condition)
  | endless

namespace Walked

def asCondition : Walked → Except WalkFault Condition
  | condition c => .ok c
  | term r => .error (.conditionWanted r)

def asTerm : Walked → Except WalkFault Resolved
  | term r => .ok r
  | condition c => .error (.termWanted c)

end Walked

namespace Draft

/-- Binds what stands in a place, the left side of a node before its right one. The number bounds
the length of the way. -/
def walk (ps : Parameters) (d : Draft) : Nat → Slot → Except WalkFault Walked
  | 0, _ => .error .endless
  | fuel + 1, slot =>
    match d.occupant slot with
    | none => .error (.emptyPlace slot)
    | some id =>
      match d.entries[id]? with
      | none => .error (.noNode id)
      | some ⟨_, .term t⟩ => do return .term (← (t.resolve ps).mapError .binding)
      | some ⟨_, .negation _⟩ => do
        let inner ← d.walk ps fuel (.inside id .child)
        return .condition (.not (← inner.asCondition))
      | some ⟨_, .binary (.inl op) _ _⟩ => do
        let left ← d.walk ps fuel (.inside id .left)
        let right ← d.walk ps fuel (.inside id .right)
        let key ← ((← left.asTerm).asKey .comparison).mapError .binding
        let value ← ((← right.asTerm).asValue .comparison).mapError .binding
        return .condition (.compare key op value)
      | some ⟨_, .binary (.inr op) _ _⟩ => do
        let left ← d.walk ps fuel (.inside id .left)
        let right ← d.walk ps fuel (.inside id .right)
        return .condition (.combine op (← left.asCondition) (← right.asCondition))

/-- Binds the whole draft. No way in it is longer than it has nodes. -/
def bind (ps : Parameters) (d : Draft) : Except WalkFault Condition := do
  (← d.walk ps d.size .root).asCondition

end Draft

namespace Arena

variable {arena : Arena}

theorem getElem?_draft {id : Nat} {p : Option Nat} {node : Node}
    (h : arena.entries[id]? = some ⟨p, node⟩) :
    arena.draft.entries[id]? = some ⟨p, node.draft⟩ := by
  simp [draft, h, Entry.draft]

theorem occupant_draft {id child : Nat} {p : Option Nat} {node : Node} (side : Side)
    (h : arena.entries[id]? = some ⟨p, node⟩) (hchild : node.draft.get side = some child) :
    arena.draft.occupant (.inside id side) = some child := by
  simp [Draft.occupant, getElem?_draft h, hchild]

theorem walk_term {slot : Slot} {id : Nat} {p : Option Nat} {t : Term}
    (hslot : arena.draft.occupant slot = some id) (h : arena.entries[id]? = some ⟨p, .term t⟩)
    (ps : Parameters) (fuel : Nat) :
    arena.draft.walk ps (fuel + 1) slot = ((t.resolve ps).mapError .binding).map .term := by
  simp only [Draft.walk, hslot, getElem?_draft h, Node.draft]
  cases t.resolve ps <;> rfl

/-- Where a filter stands, it is bound like the tree that it is. -/
theorem walk_of_treeAt {ps : Parameters} {slot : Slot} {id fuel : Nat} {f : Filter}
    (h : arena.TreeAt id f) (hslot : arena.draft.occupant slot = some id) (hfuel : f.size ≤ fuel) :
    arena.draft.walk ps fuel slot = ((f.bind ps).mapError .binding).map .condition := by
  induction h generalizing slot fuel with
  -- a comparison takes one step to its node and one more to its terms
  | @compare id _ _ _ _ _ op key value node leftNode rightNode =>
    simp only [Filter.size] at hfuel
    obtain ⟨fuel, rfl⟩ : ∃ n, fuel = n + 2 := ⟨fuel - 2, by omega⟩
    have hleft := walk_term (occupant_draft .left node rfl) leftNode ps fuel
    have hright := walk_term (occupant_draft .right node rfl) rightNode ps fuel
    rw [Draft.walk, hslot]
    simp only [getElem?_draft node, Node.draft, hleft, hright, Filter.bind]
    cases key.resolve ps with
    | error fault => rfl
    | ok left =>
      cases value.resolve ps with
      | error fault => rfl
      | ok right => cases left <;> cases right <;> rfl
  | @not id _ _ f node inner ih =>
    simp only [Filter.size] at hfuel
    obtain ⟨fuel, rfl⟩ : ∃ n, fuel = n + 1 := ⟨fuel - 1, by omega⟩
    have hchild : arena.draft.walk ps fuel (.inside id .child) = _ :=
      ih (occupant_draft .child node rfl) (by omega)
    rw [Draft.walk, hslot]
    simp only [getElem?_draft node, Node.draft, hchild, Filter.bind]
    cases f.bind ps <;> rfl
  | @combine id _ _ _ op f g node leftTree rightTree ihl ihr =>
    simp only [Filter.size] at hfuel
    obtain ⟨fuel, rfl⟩ : ∃ n, fuel = n + 1 := ⟨fuel - 1, by omega⟩
    have hleft : arena.draft.walk ps fuel (.inside id .left) = _ :=
      ihl (occupant_draft .left node rfl) (by omega)
    have hright : arena.draft.walk ps fuel (.inside id .right) = _ :=
      ihr (occupant_draft .right node rfl) (by omega)
    rw [Draft.walk, hslot]
    simp only [getElem?_draft node, Node.draft, hleft, hright, Filter.bind]
    cases f.bind ps with
    | error fault => rfl
    | ok c => cases g.bind ps <;> rfl

end Arena

/-- Binding a filter in its arena is binding the filter. -/
theorem Filter.bind_draft (f : Filter) (ps : Parameters) :
    (WhereClause.arena ⟨some f⟩).draft.bind ps = (f.bind ps).mapError .binding := by
  have hsize : f.size ≤ (WhereClause.arena ⟨some f⟩).draft.size := by
    simp [WhereClause.arena, Arena.draft, Draft.size, length_layout]
  rw [Draft.bind, Arena.walk_of_treeAt (Arena.treeAt_root f) rfl hsize]
  cases f.bind ps <;> rfl

end CategoryStatements
