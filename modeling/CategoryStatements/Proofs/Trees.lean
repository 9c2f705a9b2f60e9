import CategoryStatements.Proofs.Walks

/-! Arenas as trees. A filter that is laid out in an arena stands in one place, and each of its
nodes in a place of its own, which is inside the node that it names as its parent. One list of
all visits, a node with its number and its place, tells everything about the links of the arena:
no two nodes share a place, no place is left empty, and a walk from place to place meets each
node once. -/
namespace CategoryStatements

namespace DraftNode

/-- The word that a node adds to a filter that is written. -/
def word : DraftNode → String
  | binary (.inl op) _ _ => op.spelling
  | binary (.inr op) _ _ => op.spelling
  | negation _ => Keyword.not.spelling
  | term t => t.render

def term? : DraftNode → Option Term
  | term t => some t
  | _ => none

theorem hasPlace_of_get {node : DraftNode} {side : Side} {id : Nat}
    (h : node.get side = some id) : node.hasPlace side := by
  cases node <;> cases side <;> simp_all [get, hasPlace]

end DraftNode

/-- A node with its number, met in a place. -/
structure Visit where
  id : Nat
  slot : Slot
  node : DraftNode

namespace Draft

theorem occupant_inside {d : Draft} {id child : Nat} {e : DraftEntry} (side : Side)
    (h : d.entries[id]? = some e) (hchild : e.node.get side = some child) :
    d.occupant (.inside id side) = some child := by
  simp [occupant, h, hchild]

/-- Walks from place to place, the left side of a node before the node and its right side behind
it. The number bounds the length of the way. -/
def walkInOrder (emit : Visit → α) (missing : α) (d : Draft) : Nat → Slot → Option (List α)
  | 0, _ => none
  | fuel + 1, slot =>
    match d.occupant slot with
    | none => some [missing]
    | some id =>
      match d.entries[id]? with
      | none => none
      | some ⟨_, .term t⟩ => some [emit ⟨id, slot, .term t⟩]
      | some ⟨_, .negation child⟩ => do
        let inner ← d.walkInOrder emit missing fuel (.inside id .child)
        return emit ⟨id, slot, .negation child⟩ :: inner
      | some ⟨_, .binary op left right⟩ => do
        let before ← d.walkInOrder emit missing fuel (.inside id .left)
        let behind ← d.walkInOrder emit missing fuel (.inside id .right)
        return before ++ emit ⟨id, slot, .binary op left right⟩ :: behind

/-- The words of a draft, with a mark for each empty place. -/
def words (d : Draft) : Option (List String) :=
  d.walkInOrder (fun v => v.node.word) "<incomplete>" d.size .root

/-- A filter stands in a place, its nodes numbered from `base`. -/
inductive Holds (d : Draft) : Slot → Nat → Filter → Prop
  | compare {slot : Slot} {base : Nat} {key value : Term} {op : Comparison}
      (place : d.occupant slot = some base)
      (node : d.entries[base]? =
        some ⟨slot.owner, .binary (.inl op) (some (base + 1)) (some (base + 2))⟩)
      (left : d.entries[base + 1]? = some ⟨some base, .term key⟩)
      (right : d.entries[base + 2]? = some ⟨some base, .term value⟩) :
      Holds d slot base (.compare key op value)
  | not {slot : Slot} {base : Nat} {inner : Filter} (place : d.occupant slot = some base)
      (node : d.entries[base]? =
        some ⟨slot.owner, .negation (some (inner.top (base + 1)))⟩)
      (rest : Holds d (.inside base .child) (base + 1) inner) : Holds d slot base (.not inner)
  | combine {slot : Slot} {base : Nat} {left right : Filter} {op : Connective}
      (place : d.occupant slot = some (base + left.size))
      (node : d.entries[base + left.size]? = some ⟨slot.owner,
        .binary (.inr op) (some (left.top base)) (some (right.top (base + left.size + 1)))⟩)
      (leftTree : Holds d (.inside (base + left.size) .left) base left)
      (rightTree : Holds d (.inside (base + left.size) .right) (base + left.size + 1) right) :
      Holds d slot base (.combine op left right)

end Draft

/-- Where the entries of a filter are, the filter stands. -/
theorem Arena.holds_of_entries {arena : Arena} {f : Filter} {slot : Slot} {base : Nat}
    (hplace : arena.draft.occupant slot = some (f.top base))
    (hentries : ∀ i < f.size, arena.entries[base + i]? = (f.layout base slot.owner)[i]?) :
    arena.draft.Holds slot base f := by
  induction f generalizing slot base with
  | compare key op value =>
    have hnode := getElem?_draft (hentries 0 (by simp [Filter.size]))
    have hleft := getElem?_draft (hentries 1 (by simp [Filter.size]))
    have hright := getElem?_draft (hentries 2 (by simp [Filter.size]))
    exact .compare hplace hnode hleft hright
  | not inner ih =>
    have hentry := hentries 0 (by simp [Filter.size])
    refine .not hplace (getElem?_draft hentry) (ih (occupant_draft .child hentry rfl) ?_)
    intro i hi
    have h := hentries (i + 1) (by simp only [Filter.size]; omega)
    rwa [Nat.add_left_comm, Nat.add_comm i] at h
  | combine op left right ihl ihr =>
    have hentry : arena.entries[base + left.size]? = some ⟨slot.owner,
        .logical op (left.top base) (right.top (base + left.size + 1))⟩ := by
      rw [hentries left.size (by simp only [Filter.size]; omega), Filter.layout]
      simp [Filter.length_layout]
    refine .combine hplace (getElem?_draft hentry) (ihl (occupant_draft .left hentry rfl) ?_)
      (ihr (occupant_draft .right hentry rfl) ?_)
    · intro i hi
      rw [hentries i (by simp only [Filter.size]; omega), Filter.layout,
        List.getElem?_append_left (by rwa [Filter.length_layout])]
      rfl
    · intro i hi
      have h := hentries (left.size + 1 + i) (by simp only [Filter.size]; omega)
      have hindex : left.size + 1 + i - left.size = i + 1 := by omega
      rw [Filter.layout, List.getElem?_append_right (by rw [Filter.length_layout]; omega),
        Filter.length_layout, hindex, List.getElem?_cons_succ, ← Nat.add_assoc,
        ← Nat.add_assoc] at h
      exact h

theorem Filter.holds_root (f : Filter) :
    (WhereClause.arena ⟨some f⟩).draft.Holds .root 0 f := by
  apply Arena.holds_of_entries rfl
  intro i _
  rw [Nat.zero_add]
  rfl

theorem Filter.size_draft (f : Filter) : (WhereClause.arena ⟨some f⟩).draft.size = f.size := by
  simp [WhereClause.arena, Arena.draft, Draft.size, length_layout]

namespace Filter

/-- The nodes of a filter that stands in a place, in the order of its words. -/
def visits (base : Nat) (slot : Slot) : Filter → List Visit
  | compare key op value =>
    [⟨base + 1, .inside base .left, .term key⟩,
      ⟨base, slot, .binary (.inl op) (some (base + 1)) (some (base + 2))⟩,
      ⟨base + 2, .inside base .right, .term value⟩]
  | not inner =>
    ⟨base, slot, .negation (some (inner.top (base + 1)))⟩ ::
      inner.visits (base + 1) (.inside base .child)
  | combine op left right =>
    let here := base + left.size
    left.visits base (.inside here .left) ++
      ⟨here, slot, .binary (.inr op) (some (left.top base)) (some (right.top (here + 1)))⟩ ::
        right.visits (here + 1) (.inside here .right)

theorem map_word_visits (f : Filter) (base : Nat) (slot : Slot) :
    (f.visits base slot).map (fun v => v.node.word) = f.words := by
  induction f generalizing base slot with
  | compare key op value => rfl
  | not inner ih =>
    rw [visits, List.map_cons, ih]
    rfl
  | combine op left right ihl ihr =>
    rw [visits, List.map_append, List.map_cons, ihl, ihr]
    rfl

/-- The numbers in the order of the words are the numbers in their own order, rearranged. -/
theorem map_id_visits_perm (f : Filter) (base : Nat) (slot : Slot) :
    ((f.visits base slot).map Visit.id).Perm (List.range' base f.size) := by
  induction f generalizing base slot with
  | compare key op value => exact List.Perm.swap _ _ _
  | not inner ih =>
    simp only [visits, size, List.map_cons, List.range'_succ]
    exact (ih (base + 1) _).cons base
  | combine op left right ihl ihr =>
    have hsplit : List.range' base (left.size + 1 + right.size) =
        List.range' base left.size ++
          (base + left.size) :: List.range' (base + left.size + 1) right.size := by
      rw [Nat.add_assoc, Nat.add_comm 1, ← List.range'_append_1, List.range'_succ]
    simp only [visits, size, List.map_append, List.map_cons, hsplit]
    exact (ihl base _).append ((ihr _ _).cons _)

/-- Terms are numbered in the order of the words. -/
theorem filterMap_term?_visits (f : Filter) (base : Nat) (slot : Slot)
    (root parent : Option Nat) :
    (f.visits base slot).filterMap (fun v => v.node.term?) =
      (Arena.mk root (f.layout base parent)).terms := by
  simp only [Arena.terms]
  induction f generalizing base slot parent with
  | compare key op value => rfl
  | not inner ih =>
    rw [visits, layout, List.filterMap_cons_none rfl, List.filterMap_cons_none rfl]
    exact ih _ _ _
  | combine op left right ihl ihr =>
    rw [visits, layout, List.filterMap_append, List.filterMap_append,
      List.filterMap_cons_none rfl, List.filterMap_cons_none rfl,
      ihl base _ (some (base + left.size)), ihr _ _ (some (base + left.size))]

/-- Something stands in the place of the filter itself. -/
theorem exists_visit_slot (f : Filter) (base : Nat) (slot : Slot) :
    ∃ v ∈ f.visits base slot, v.slot = slot := by
  cases f with
  | compare key op value => exact ⟨⟨base, slot, _⟩, by simp [visits]; rfl, rfl⟩
  | not inner => exact ⟨⟨base, slot, _⟩, List.mem_cons_self .., rfl⟩
  | combine op left right =>
    exact ⟨⟨base + left.size, slot, _⟩, List.mem_append_right _ (List.mem_cons_self ..), rfl⟩

/-- Something stands in every place inside a node. -/
theorem exists_visit_inside (f : Filter) (base : Nat) (slot : Slot) :
    ∀ v ∈ f.visits base slot, ∀ side, v.node.hasPlace side →
      ∃ w ∈ f.visits base slot, w.slot = .inside v.id side := by
  induction f generalizing base slot with
  | compare key op value =>
    simp only [visits, List.forall_mem_cons]
    refine ⟨?_, ?_, ?_, by simp⟩
    · intro side hside
      cases hside
    · intro side hside
      cases side <;> simp [DraftNode.hasPlace] at hside ⊢
    · intro side hside
      cases hside
  | not inner ih =>
    simp only [visits, List.forall_mem_cons]
    constructor
    · intro side hside
      have hchild : side = .child := by simpa [DraftNode.hasPlace] using hside
      obtain ⟨w, hw, hslot⟩ := inner.exists_visit_slot (base + 1) (.inside base .child)
      exact ⟨w, List.mem_cons_of_mem _ hw, by rw [hslot, hchild]⟩
    · intro v hv side hside
      obtain ⟨w, hw, hslot⟩ := ih _ _ v hv side hside
      exact ⟨w, List.mem_cons_of_mem _ hw, hslot⟩
  | combine op left right ihl ihr =>
    simp only [visits, List.mem_append, List.mem_cons]
    rintro v (hv | rfl | hv) side hside
    · obtain ⟨w, hw, hslot⟩ := ihl _ _ v hv side hside
      exact ⟨w, .inl hw, hslot⟩
    · cases side with
      | left =>
        obtain ⟨w, hw, hslot⟩ := left.exists_visit_slot base (.inside (base + left.size) .left)
        exact ⟨w, .inl hw, hslot⟩
      | right =>
        obtain ⟨w, hw, hslot⟩ :=
          right.exists_visit_slot (base + left.size + 1) (.inside (base + left.size) .right)
        exact ⟨w, .inr (.inr hw), hslot⟩
      | child => cases hside
    · obtain ⟨w, hw, hslot⟩ := ihr _ _ v hv side hside
      exact ⟨w, .inr (.inr hw), hslot⟩

end Filter

namespace Draft

/-- What a walk from the root meets: nodes of the draft, each in its place, which belongs to its
parent, and each of them once. -/
structure Visits (d : Draft) (visits : List Visit) : Prop where
  walk : ∀ (α : Type) (emit : Visit → α) (missing : α),
    d.walkInOrder emit missing d.size .root = some (visits.map emit)
  placed : ∀ v ∈ visits,
    d.occupant v.slot = some v.id ∧ d.entries[v.id]? = some ⟨v.slot.owner, v.node⟩
  once : (visits.map Visit.id).Perm (List.range d.size)

/-- The nodes of a draft are a tree: one of them is the root, each of the others has one parent,
and no place is empty. -/
structure IsTree (d : Draft) : Prop where
  root : ∃ top node, d.root = some top ∧ d.entries[top]? = some ⟨none, node⟩
  filled : ∀ id e side, d.entries[id]? = some e → e.node.hasPlace side →
    ∃ child, d.occupant (.inside id side) = some child ∧ child < d.size
  /-- A node stands in one place and in no other, and the owner of the place is its parent. -/
  placed : ∀ id e, d.entries[id]? = some e →
    ∃ slot, d.occupant slot = some id ∧ slot.owner = e.parent ∧
      ∀ slot', d.occupant slot' = some id → slot' = slot

namespace Holds

variable {d : Draft} {slot : Slot} {base : Nat} {f : Filter}

theorem placed (h : d.Holds slot base f) :
    ∀ v ∈ f.visits base slot,
      d.occupant v.slot = some v.id ∧ d.entries[v.id]? = some ⟨v.slot.owner, v.node⟩ := by
  induction h with
  | compare place node left right =>
    simp only [Filter.visits, List.forall_mem_cons]
    exact ⟨⟨occupant_inside .left node rfl, left⟩, ⟨place, node⟩,
      ⟨occupant_inside .right node rfl, right⟩, by simp⟩
  | not place node rest ih =>
    simp only [Filter.visits, List.forall_mem_cons]
    exact ⟨⟨place, node⟩, ih⟩
  | combine place node leftTree rightTree ihl ihr =>
    simp only [Filter.visits, List.forall_mem_append, List.forall_mem_cons]
    exact ⟨ihl, ⟨place, node⟩, ihr⟩

/-- A walk meets the nodes in the order of the words. -/
theorem walkInOrder_eq (h : d.Holds slot base f) {fuel : Nat} (hfuel : f.size ≤ fuel)
    (emit : Visit → α) (missing : α) :
    d.walkInOrder emit missing fuel slot = some ((f.visits base slot).map emit) := by
  induction h generalizing fuel with
  -- a comparison takes one step to its node and one more to its terms
  | @compare slot base key value op place node left right =>
    simp only [Filter.size] at hfuel
    obtain ⟨fuel, rfl⟩ : ∃ n, fuel = n + 2 := ⟨fuel - 2, by omega⟩
    have hleft := occupant_inside .left node rfl
    have hright := occupant_inside .right node rfl
    simp [walkInOrder, place, hleft, hright, node, left, right, Filter.visits]
  | @not slot base inner place node rest ih =>
    simp only [Filter.size] at hfuel
    obtain ⟨fuel, rfl⟩ : ∃ n, fuel = n + 1 := ⟨fuel - 1, by omega⟩
    have hinner := ih (show inner.size ≤ fuel by omega)
    simp [walkInOrder, place, node, hinner, Filter.visits]
  | @combine slot base left right op place node leftTree rightTree ihl ihr =>
    simp only [Filter.size] at hfuel
    obtain ⟨fuel, rfl⟩ : ∃ n, fuel = n + 1 := ⟨fuel - 1, by omega⟩
    have hleft := ihl (show left.size ≤ fuel by omega)
    have hright := ihr (show right.size ≤ fuel by omega)
    simp [walkInOrder, place, node, hleft, hright, Filter.visits]

theorem visits (h : d.Holds .root 0 f) (hsize : d.size = f.size) :
    d.Visits (f.visits 0 .root) where
  walk := fun _ emit missing => h.walkInOrder_eq (Nat.le_of_eq hsize.symm) emit missing
  placed := h.placed
  once := by
    rw [hsize, List.range_eq_range']
    exact f.map_id_visits_perm 0 .root

end Holds

/-- A walk leaves out no node. -/
theorem Visits.exists_visit {d : Draft} {visits : List Visit} (h : d.Visits visits) {id : Nat}
    {e : DraftEntry} (he : d.entries[id]? = some e) :
    ∃ v ∈ visits, v.id = id ∧ e = ⟨v.slot.owner, v.node⟩ := by
  have hid : id ∈ List.range d.size := List.mem_range.mpr (List.getElem?_eq_some_iff.mp he).1
  obtain ⟨v, hv, rfl⟩ := List.mem_map.mp (h.once.mem_iff.mpr hid)
  have hentry := (h.placed v hv).2
  rw [he] at hentry
  exact ⟨v, hv, rfl, Option.some.inj hentry⟩

/-- A node that is met twice is met in the same place. -/
theorem Visits.slot_inj {d : Draft} {visits : List Visit} (h : d.Visits visits) {v w : Visit}
    (hv : v ∈ visits) (hw : w ∈ visits) (hid : w.id = v.id) : w.slot = v.slot := by
  have hnodup : (visits.map Visit.id).Nodup := h.once.nodup_iff.mpr List.nodup_range
  rw [List.inj_on_of_nodup_map hnodup hw hv hid]

/-- Where a filter is the whole draft, every place that holds something is met. -/
theorem Holds.exists_visit_of_occupant {d : Draft} {f : Filter} (h : d.Holds .root 0 f)
    (hsize : d.size = f.size) {slot : Slot} {id : Nat} (hslot : d.occupant slot = some id) :
    ∃ w ∈ f.visits 0 .root, w.slot = slot := by
  cases slot with
  | root => exact f.exists_visit_slot 0 .root
  | inside owner side =>
    obtain ⟨e, he, hget⟩ := Option.bind_eq_some_iff.mp hslot
    obtain ⟨v, hv, rfl, rfl⟩ := (h.visits hsize).exists_visit he
    exact f.exists_visit_inside 0 .root v hv side (DraftNode.hasPlace_of_get hget)

/-- A draft that is one filter is a tree. -/
theorem Holds.isTree {d : Draft} {f : Filter} (h : d.Holds .root 0 f) (hsize : d.size = f.size) :
    d.IsTree where
  root := by
    obtain ⟨v, hv, hroot⟩ := f.exists_visit_slot 0 .root
    obtain ⟨hplace, hentry⟩ := h.placed v hv
    rw [hroot] at hplace hentry
    exact ⟨v.id, v.node, hplace, hentry⟩
  filled := by
    intro id e side he hside
    obtain ⟨v, hv, rfl, rfl⟩ := (h.visits hsize).exists_visit he
    obtain ⟨w, hw, hslot⟩ := f.exists_visit_inside 0 .root v hv side hside
    obtain ⟨hplace, hentry⟩ := h.placed w hw
    exact ⟨w.id, hslot ▸ hplace, (List.getElem?_eq_some_iff.mp hentry).1⟩
  placed := by
    intro id e he
    obtain ⟨v, hv, rfl, rfl⟩ := (h.visits hsize).exists_visit he
    refine ⟨v.slot, (h.placed v hv).1, rfl, ?_⟩
    intro slot' hslot'
    obtain ⟨w, hw, rfl⟩ := h.exists_visit_of_occupant hsize hslot'
    have hid := Option.some.inj ((h.placed w hw).1.symm.trans hslot')
    exact (h.visits hsize).slot_inj hv hw hid

end Draft

end CategoryStatements
