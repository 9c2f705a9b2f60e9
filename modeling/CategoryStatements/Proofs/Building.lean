import CategoryStatements.Filter.Arena
import CategoryStatements.Proofs.Readers

/-! Arenas under construction. While a WHERE clause is read, nodes are created with empty places
for their children, and a connective takes over the place of what was read before it. Reading
into places this way leaves the same arena as laying out the filter that was read. -/
namespace CategoryStatements

/-- Where a child of a node goes. -/
inductive Side
  | left | right | child
  deriving DecidableEq

/-- A node with places that may still be empty. -/
inductive DraftNode
  | binary (op : Comparison ⊕ Connective) (left right : Option Nat)
  | negation (child : Option Nat)
  | term (t : Term)

namespace DraftNode

def get (side : Side) : DraftNode → Option Nat
  | binary _ left right =>
    match side with
    | .left => left
    | .right => right
    | .child => none
  | negation child => if side = .child then child else none
  | term _ => none

def put (side : Side) (id : Nat) : DraftNode → DraftNode
  | binary op left right =>
    match side with
    | .left => binary op (some id) right
    | .right => binary op left (some id)
    | .child => binary op left right
  | negation child => if side = .child then negation (some id) else negation child
  | term t => term t

/-- Whether the node has a place on that side. -/
def hasPlace (side : Side) : DraftNode → Bool
  | binary _ _ _ => side != .child
  | negation _ => side == .child
  | term _ => false

theorem get_put {node : DraftNode} {side : Side} (h : node.hasPlace side) (id : Nat) :
    (node.put side id).get side = some id := by
  cases node <;> cases side <;> simp_all [hasPlace, put, get]

theorem put_put (node : DraftNode) (side : Side) (id id' : Nat) :
    (node.put side id).put side id' = node.put side id' := by
  cases node <;> cases side <;> rfl

theorem hasPlace_put (node : DraftNode) (side side' : Side) (id : Nat) :
    (node.put side id).hasPlace side' = node.hasPlace side' := by
  cases node <;> cases side <;> rfl

end DraftNode

structure DraftEntry where
  parent : Option Nat
  node : DraftNode

/-- An arena under construction. -/
structure Draft where
  root : Option Nat := none
  entries : List DraftEntry := []

/-- A place in a draft: that of the root, or one inside a node. -/
inductive Slot
  | root
  | inside (id : Nat) (side : Side)

/-- The node that has the place. -/
def Slot.owner : Slot → Option Nat
  | root => none
  | inside id _ => some id

namespace Draft

def size (d : Draft) : Nat := d.entries.length

/-- Adds entries behind those that are there. -/
def append (d : Draft) (entries : List DraftEntry) : Draft :=
  { d with entries := d.entries ++ entries }

/-- Adds a node that stands nowhere yet. Its number is the size of the draft before. -/
def push (d : Draft) (node : DraftNode) : Draft := d.append [⟨none, node⟩]

/-- What stands in a place. -/
def occupant (d : Draft) : Slot → Option Nat
  | .root => d.root
  | .inside id side => (d.entries[id]?).bind fun entry => entry.node.get side

/-- Puts a number into a place. -/
def fill (d : Draft) (slot : Slot) (id : Nat) : Draft :=
  match slot with
  | .root => { d with root := some id }
  | .inside owner side =>
    { d with entries := d.entries.modify owner fun e => { e with node := e.node.put side id } }

def setParent (d : Draft) (id : Nat) (parent : Option Nat) : Draft :=
  { d with entries := d.entries.modify id fun e => { e with parent } }

/-- Puts a node into a place, instead of whatever stands there. -/
def attach (d : Draft) (slot : Slot) (id : Nat) : Draft := (d.fill slot id).setParent id slot.owner

/-- Puts a node into a place, and what stood there to the left of it. -/
def reroot (d : Draft) (slot : Slot) (id : Nat) : Draft :=
  match d.occupant slot with
  | some previous => (d.attach (.inside id .left) previous).attach slot id
  | none => d.attach slot id

/-- A comparison, with its two terms, in a place. -/
def compareAt (d : Draft) (slot : Slot) (key : Term) (op : Comparison) (value : Term) : Draft :=
  let id := d.size
  let d := ((d.push (.binary (.inl op) none none)).push (.term key)).push (.term value)
  ((d.attach slot id).attach (.inside id .left) (id + 1)).attach (.inside id .right) (id + 2)

/-- A negation in a place, of nothing yet. -/
def negateAt (d : Draft) (slot : Slot) : Draft :=
  (d.push (.negation none)).attach slot d.size

/-- A connective in the place of what stands there, with nothing to the right of it yet. -/
def connectAt (d : Draft) (slot : Slot) (op : Connective) : Draft :=
  (d.push (.binary (.inr op) none none)).reroot slot d.size

end Draft

namespace Reader

def comparisonInto (slot : Slot) (d : Draft) : Reader Draft := do
  let k ← key .filter
  let op ← comparisonOperator
  let v ← value .filter
  return d.compareAt slot k op v

/-- Reads a condition into a place, each negation before what it negates. -/
def conditionInto (slot : Slot) (d : Draft) (c : Cursor) : Except Fault (Draft × Cursor) :=
  match h : c.tokens with
  | [] => comparisonInto slot d c
  | token :: rest =>
    if token.text = Keyword.not.spelling then
      have : rest.length < c.tokens.length := by simp [h]
      conditionInto (.inside d.size .child) (d.negateAt slot) { c with tokens := rest }
    else comparisonInto slot d c
termination_by c.tokens.length

/-- Goes on after an item in a place. Each connective takes over the place, and the next item
goes to the right of it. -/
def connectInto (op : Connective) (item : Slot → Draft → Reader Draft) (slot : Slot) (d : Draft)
    (c : Cursor) : Except Fault (Draft × Cursor) :=
  match c.tokens with
  | [] => .ok (d, c)
  | token :: rest =>
    if token.text = op.spelling then
      match item (.inside d.size .right) (d.connectAt slot op) { c with tokens := rest } with
      | .error fault => .error fault
      | .ok (d', c') =>
        if c'.tokens.length < c.tokens.length then connectInto op item slot d' c'
        else .ok (d', c')
    else .ok (d, c)
termination_by c.tokens.length

def conjunctionInto (slot : Slot) (d : Draft) : Reader Draft := do
  connectInto .and conditionInto slot (← conditionInto slot d)

/-- Reads the filter of a WHERE clause into an empty draft. -/
def disjunctionInto : Reader Draft := do
  connectInto .or conjunctionInto .root (← conjunctionInto .root {})

end Reader

theorem modify_append_right (xs ys : List α) (k : Nat) (f : α → α) :
    (xs ++ ys).modify (xs.length + k) f = xs ++ ys.modify k f := by
  induction xs with
  | nil => simp
  | cons x xs ih => simp [Nat.succ_add, ih]

theorem modify_append_left {xs : List α} {k : Nat} (h : k < xs.length) (ys : List α) (f : α → α) :
    (xs ++ ys).modify k f = xs.modify k f ++ ys := by
  induction xs generalizing k with
  | nil => simp at h
  | cons x xs ih =>
    cases k with
    | zero => rfl
    | succ k => simp [ih (Nat.lt_of_succ_lt_succ h)]

theorem modify_append_last {xs : List α} {k : Nat} (h : k = xs.length) (x : α) (f : α → α) :
    (xs ++ [x]).modify k f = xs ++ [f x] := by
  rw [h, ← Nat.add_zero xs.length, modify_append_right]
  rfl

/-- The place is there. -/
def Slot.Fits (d : Draft) : Slot → Prop
  | root => True
  | inside id side => ∃ entry, d.entries[id]? = some entry ∧ entry.node.hasPlace side

namespace Draft

variable {d : Draft} {slot : Slot}

@[simp] theorem size_append (d : Draft) (es : List DraftEntry) :
    (d.append es).size = d.size + es.length := by
  simp [append, size]

@[simp] theorem size_fill (d : Draft) (slot : Slot) (id : Nat) :
    (d.fill slot id).size = d.size := by
  cases slot <;> simp [fill, size]

theorem append_append (d : Draft) (es es' : List DraftEntry) :
    (d.append es).append es' = d.append (es ++ es') := by
  simp [append]

theorem setParent_append (d : Draft) (es : List DraftEntry) (k : Nat) (parent : Option Nat) :
    (d.append es).setParent (d.size + k) parent =
      d.append (es.modify k fun e => { e with parent }) := by
  simp [append, setParent, size, modify_append_right]

theorem fill_append_inside (d : Draft) (es : List DraftEntry) (k : Nat) (side : Side) (id : Nat) :
    (d.append es).fill (.inside (d.size + k) side) id =
      d.append (es.modify k fun e => { e with node := e.node.put side id }) := by
  simp [append, fill, size, modify_append_right]

theorem fill_append (h : slot.Fits d) (es : List DraftEntry) (id : Nat) :
    (d.append es).fill slot id = (d.fill slot id).append es := by
  cases slot with
  | root => rfl
  | inside owner side =>
    obtain ⟨entry, hentry, -⟩ := h
    obtain ⟨hlt, -⟩ := List.getElem?_eq_some_iff.mp hentry
    simp [append, fill, modify_append_left hlt]

theorem fill_fill (d : Draft) (slot : Slot) (id id' : Nat) :
    (d.fill slot id).fill slot id' = d.fill slot id' := by
  cases slot with
  | root => rfl
  | inside owner side =>
    simp only [fill, List.modify_modify_eq, Function.comp_def, DraftNode.put_put]

theorem fits_fill (h : slot.Fits d) (id : Nat) : slot.Fits (d.fill slot id) := by
  cases slot with
  | root => trivial
  | inside owner side =>
    obtain ⟨entry, hentry, hplace⟩ := h
    refine ⟨{ entry with node := entry.node.put side id }, by simp [fill, hentry], ?_⟩
    rwa [DraftNode.hasPlace_put]

theorem occupant_fill_append (h : slot.Fits d) (id : Nat) (es : List DraftEntry) :
    ((d.fill slot id).append es).occupant slot = some id := by
  cases slot with
  | root => rfl
  | inside owner side =>
    obtain ⟨entry, hentry, hplace⟩ := h
    obtain ⟨hlt, rfl⟩ := List.getElem?_eq_some_iff.mp hentry
    simp [fill, append, occupant, List.getElem?_append_left, hlt, DraftNode.get_put hplace]

end Draft

def Node.draft : Node → DraftNode
  | comparison op left right => .binary (.inl op) (some left) (some right)
  | logical op left right => .binary (.inr op) (some left) (some right)
  | negation child => .negation (some child)
  | term t => .term t

def Entry.draft (e : Entry) : DraftEntry := ⟨e.parent, e.node.draft⟩

/-- An arena as a draft without empty places. -/
def Arena.draft (arena : Arena) : Draft := ⟨arena.root, arena.entries.map Entry.draft⟩

namespace Filter

/-- The entries of a filter, as a draft has them. -/
def draftLayout (f : Filter) (base : Nat) (parent : Option Nat) : List DraftEntry :=
  (f.layout base parent).map Entry.draft

@[simp] theorem length_draftLayout (f : Filter) (base : Nat) (parent : Option Nat) :
    (f.draftLayout base parent).length = f.size := by
  simp [draftLayout, length_layout]

/-- The topmost entry is the one that names the parent. -/
theorem setParent_draftLayout (f : Filter) (base : Nat) (parent parent' : Option Nat) :
    (f.draftLayout base parent).modify (f.top base - base) (fun e => { e with parent := parent' }) =
      f.draftLayout base parent' := by
  cases f with
  | compare key op value => simp [draftLayout, layout, top, Entry.draft]
  | not inner => simp [draftLayout, layout, top, Entry.draft]
  | combine op left right =>
    have hindex : top base (combine op left right) - base =
        ((left.layout base (some (base + left.size))).map Entry.draft).length + 0 := by
      simp [top, length_layout]
    simp only [draftLayout, layout, List.map_append, List.map_cons]
    rw [hindex, modify_append_right]
    rfl

/-- The steps in which a filter is built into a place. -/
def build (slot : Slot) (d : Draft) : Filter → Draft
  | compare key op value => d.compareAt slot key op value
  | not inner => inner.build (.inside d.size .child) (d.negateAt slot)
  | combine op left right =>
    let d := left.build slot d
    right.build (.inside d.size .right) (d.connectAt slot op)

end Filter

/-- The draft with a filter laid out behind its entries, and standing in a place. -/
def Draft.place (d : Draft) (slot : Slot) (f : Filter) : Draft :=
  (d.fill slot (f.top d.size)).append (f.draftLayout d.size slot.owner)

namespace Draft

variable {d : Draft} {slot : Slot}

theorem attach_append (h : slot.Fits d) (es : List DraftEntry) (k : Nat) :
    (d.append es).attach slot (d.size + k) =
      (d.fill slot (d.size + k)).append (es.modify k fun e => { e with parent := slot.owner }) := by
  have hparent := setParent_append (d.fill slot (d.size + k)) es k slot.owner
  rw [size_fill] at hparent
  rw [attach, fill_append h, hparent]

theorem attach_append_inside (d : Draft) (es : List DraftEntry) (j k : Nat) (side : Side) :
    (d.append es).attach (.inside (d.size + j) side) (d.size + k) =
      d.append ((es.modify j fun e => { e with node := e.node.put side (d.size + k) }).modify k
        fun e => { e with parent := some (d.size + j) }) := by
  rw [attach, fill_append_inside, setParent_append]
  rfl

theorem compareAt_eq_place (h : slot.Fits d) (key : Term) (op : Comparison) (value : Term) :
    d.compareAt slot key op value = d.place slot (.compare key op value) := by
  have hroot := attach_append h
    [⟨none, .binary (.inl op) none none⟩, ⟨none, .term key⟩, ⟨none, .term value⟩] 0
  have hleft := attach_append_inside (d.fill slot d.size)
    [⟨slot.owner, .binary (.inl op) none none⟩, ⟨none, .term key⟩, ⟨none, .term value⟩] 0 1 .left
  have hright := attach_append_inside (d.fill slot d.size)
    [⟨slot.owner, .binary (.inl op) (some (d.size + 1)) none⟩, ⟨some d.size, .term key⟩,
      ⟨none, .term value⟩] 0 2 .right
  simp only [Nat.add_zero, size_fill, List.modify_zero_cons] at hroot hleft hright
  simp only [compareAt, push, append_append, List.cons_append, List.nil_append]
  rw [hroot, hleft]
  simp only [DraftNode.put, List.modify_succ_cons, List.modify_zero_cons]
  rw [hright]
  rfl

theorem negateAt_eq (h : slot.Fits d) :
    d.negateAt slot = (d.fill slot d.size).append [⟨slot.owner, .negation none⟩] :=
  attach_append h [⟨none, .negation none⟩] 0

/-- A connective takes over a place, and what stood there goes to the left of it. -/
theorem connectAt_append (h : slot.Fits d) (es : List DraftEntry) {t : Nat} (ht : t < es.length)
    (op : Connective) :
    ((d.fill slot (d.size + t)).append es).connectAt slot op =
      (d.fill slot (d.size + es.length)).append
        ((es.modify t fun e => { e with parent := some (d.size + es.length) }) ++
          [⟨slot.owner, .binary (.inr op) (some (d.size + t)) none⟩]) := by
  have hoccupant := occupant_fill_append h (d.size + t)
    (es ++ [⟨none, .binary (.inr op) none none⟩])
  have hleft := attach_append_inside (d.fill slot (d.size + t))
    (es ++ [⟨none, .binary (.inr op) none none⟩]) es.length t .left
  rw [modify_append_last rfl, modify_append_left ht, size_fill] at hleft
  have hslot := attach_append (fits_fill h (d.size + t))
    ((es.modify t fun e => { e with parent := some (d.size + es.length) }) ++
      [⟨none, .binary (.inr op) (some (d.size + t)) none⟩]) es.length
  rw [modify_append_last (by simp), fill_fill, size_fill] at hslot
  rw [connectAt, reroot, push, append_append, hoccupant, size_append, size_fill]
  exact (congrArg (fun d' : Draft => d'.attach slot (d.size + es.length)) hleft).trans hslot

theorem connectAt_place (h : slot.Fits d) (f : Filter) (op : Connective) :
    (d.place slot f).connectAt slot op =
      (d.fill slot (d.size + f.size)).append (f.draftLayout d.size (some (d.size + f.size)) ++
        [⟨slot.owner, .binary (.inr op) (some (f.top d.size)) none⟩]) := by
  have htop : f.top d.size = d.size + (f.top d.size - d.size) := by
    cases f <;> simp [Filter.top]
  have hbelow : f.top d.size - d.size < (f.draftLayout d.size slot.owner).length := by
    rw [Filter.length_draftLayout]
    cases f <;> simp only [Filter.top, Filter.size] <;> omega
  have hconnect := connectAt_append h (f.draftLayout d.size slot.owner) hbelow op
  rwa [← htop, Filter.setParent_draftLayout, Filter.length_draftLayout] at hconnect

theorem fits_inside_last (d : Draft) (es : List DraftEntry) (x : DraftEntry) (side : Side)
    (h : x.node.hasPlace side) :
    (Slot.inside (d.size + es.length) side).Fits (d.append (es ++ [x])) := by
  refine ⟨x, ?_, h⟩
  rw [append, ← List.append_assoc, size, ← List.length_append, List.getElem?_concat_length]

/-- A filter in a place of the last node comes right behind it. -/
theorem place_inside_last (d : Draft) (es : List DraftEntry) (x : DraftEntry) (side : Side)
    (f : Filter) :
    (d.append (es ++ [x])).place (.inside (d.size + es.length) side) f =
      d.append (es ++ { x with node := x.node.put side (f.top (d.size + es.length + 1)) } ::
        f.draftLayout (d.size + es.length + 1) (some (d.size + es.length))) := by
  have hsize : (d.append (es ++ [x])).size = d.size + es.length + 1 := by
    simp [Nat.add_assoc]
  rw [place, hsize, fill_append_inside, modify_append_last rfl, append_append, List.append_assoc]
  rfl

end Draft

/-- Building a filter into a place lays it out there. -/
theorem Filter.build_eq_place (f : Filter) {slot : Slot} {d : Draft} (h : slot.Fits d) :
    f.build slot d = d.place slot f := by
  induction f generalizing slot d with
  | compare key op value => exact Draft.compareAt_eq_place h key op value
  | not inner ih =>
    have hfits := Draft.fits_inside_last (d.fill slot d.size) []
      ⟨slot.owner, .negation none⟩ .child rfl
    have hplace := Draft.place_inside_last (d.fill slot d.size) [] ⟨slot.owner, .negation none⟩
      .child inner
    simp only [List.nil_append, List.length_nil, Nat.add_zero, Draft.size_fill] at hfits hplace
    rw [build, Draft.negateAt_eq h, ih hfits, hplace]
    rfl
  | combine op left right ihl ihr =>
    have hsize : (d.place slot left).size = d.size + left.size := by simp [Draft.place]
    have hconnect := Draft.connectAt_place h left op
    have hfits := Draft.fits_inside_last (d.fill slot (d.size + left.size))
      (left.draftLayout d.size (some (d.size + left.size)))
      ⟨slot.owner, .binary (.inr op) (some (left.top d.size)) none⟩ .right rfl
    have hplace := Draft.place_inside_last (d.fill slot (d.size + left.size))
      (left.draftLayout d.size (some (d.size + left.size)))
      ⟨slot.owner, .binary (.inr op) (some (left.top d.size)) none⟩ .right right
    simp only [length_draftLayout, Draft.size_fill] at hfits hplace
    rw [build, ihl h, hsize, hconnect, ihr hfits, hplace]
    simp [Draft.place, draftLayout, layout, top, Entry.draft, Node.draft, DraftNode.put]

/-- Built from nothing, a filter is the arena of its clause. -/
theorem Filter.build_root (f : Filter) : f.build .root {} = (WhereClause.arena ⟨some f⟩).draft :=
  f.build_eq_place trivial

namespace Reader

/-- A reader of drafts goes through the steps of building what the other reader reads. -/
def Builds (into : Slot → Draft → Reader Draft) (item : Reader Filter) : Prop :=
  ∀ slot d c, into slot d c = (item c).map fun r => (r.1.build slot d, r.2)

theorem comparisonInto_builds : Builds comparisonInto comparison := by
  intro slot d c
  have h : comparisonInto slot d = comparison >>= fun f => pure (f.build slot d) := by
    simp only [comparisonInto, comparison, bind_assoc, pure_bind]
    rfl
  rw [h]
  change comparison c >>= _ = _
  cases comparison c <;> rfl

theorem condition_of_negations {c c' : Cursor} {k : Nat} (h : negations c = .ok (k, c')) :
    condition c = (comparison c').map fun r => (.negate k r.1, r.2) := by
  have hbind : condition c =
      negations c >>= fun r => comparison r.2 >>= fun s => .ok (.negate r.1 s.1, s.2) := rfl
  rw [hbind, h]
  change comparison c' >>= _ = _
  cases comparison c' <;> rfl

theorem condition_of_not {c : Cursor} {token : Token} {rest : List Token}
    (hc : c.tokens = token :: rest) (ht : token.text = Keyword.not.spelling) :
    condition c = (condition { c with tokens := rest }).map fun r => (.not r.1, r.2) := by
  obtain ⟨k, c', hnots⟩ : ∃ k c', negations { c with tokens := rest } = .ok (k, c') :=
    ⟨_, _, rfl⟩
  obtain ⟨hpass, havoid⟩ := negations_eq_ok.mp hnots
  have hnots' : negations c = .ok (k + 1, c') :=
    negations_eq_ok.mpr ⟨Cursor.passes_cons.mpr ⟨token, rest, hc, ht, hpass⟩, havoid⟩
  rw [condition_of_negations hnots, condition_of_negations hnots']
  cases comparison c' <;> rfl

theorem condition_of_avoids {c : Cursor} (h : c.Avoids [Keyword.not.spelling]) :
    condition c = comparison c := by
  have hnots : negations c = .ok (0, c) :=
    negations_eq_ok.mpr ⟨Cursor.passes_nil.mpr rfl, h⟩
  rw [condition_of_negations hnots]
  cases comparison c <;> rfl

theorem conditionInto_builds : Builds conditionInto condition := by
  intro slot d c
  fun_induction conditionInto slot d c with
  | case1 slot d c hc =>
    rw [condition_of_avoids (Cursor.avoids_of_tokens_eq_nil hc _)]
    exact comparisonInto_builds slot d c
  | case2 slot d c token rest hc ht _ ih =>
    rw [ih, condition_of_not hc ht]
    cases condition { c with tokens := rest } <;> rfl
  | case3 slot d c token rest hc ht =>
    have havoid : c.Avoids [Keyword.not.spelling] := by
      rw [Cursor.avoids_iff_of_tokens_eq_cons hc]
      simpa using ht
    rw [condition_of_avoids havoid]
    exact comparisonInto_builds slot d c

variable {into : Slot → Draft → Reader Draft} {item : Reader Filter}

/-- After a connective the loop reads one more item and goes on, since items take no tokens
back. -/
theorem connectInto_of_connective (hinto : Builds into item)
    (hle : ∀ c f c', item c = .ok (f, c') → c'.tokens.length ≤ c.tokens.length)
    {op : Connective} {c : Cursor} {token : Token} {rest : List Token}
    (hc : c.tokens = token :: rest) (ht : token.text = op.spelling) (slot : Slot) (d : Draft) :
    connectInto op into slot d c =
      into (.inside d.size .right) (d.connectAt slot op) { c with tokens := rest } >>= fun r =>
        connectInto op into slot r.1 r.2 := by
  rw [connectInto, hc]
  simp only [ht, if_true]
  rw [hinto]
  cases hitem : item { c with tokens := rest } with
  | error fault => rfl
  | ok r =>
    have hlt : r.2.tokens.length < (token :: rest).length :=
      Nat.lt_succ_of_le (hle _ r.1 r.2 hitem)
    simp only [Except.map, if_pos hlt]
    rfl

theorem into_bind_connectInto (hinto : Builds into item) {c c₁ : Cursor} {f : Filter}
    (hitem : item c = .ok (f, c₁)) (op : Connective) (slot slot' : Slot) (d : Draft) :
    (into slot' d c >>= fun r => connectInto op into slot r.1 r.2) =
      connectInto op into slot (f.build slot' d) c₁ := by
  rw [hinto, hitem]
  rfl

/-- The loop over connectives joins what the chain reads to what stands in the place. -/
theorem connectInto_eq (hinto : Builds into item)
    (hle : ∀ c f c', item c = .ok (f, c') → c'.tokens.length ≤ c.tokens.length)
    (op : Connective) (slot : Slot) (d : Draft) (g : Filter → Filter) (slot' : Slot) (d' : Draft)
    (hg : ∀ f, f.build slot' d' = (g f).build slot d) (c : Cursor) :
    (into slot' d' c >>= fun r => connectInto op into slot r.1 r.2) =
      (chain op.spelling item c).map fun r =>
        ((Filter.join op (g r.1.1) r.1.2).build slot d, r.2) := by
  fun_induction chain op.spelling item c generalizing g slot' d' with
  | case1 c fault hitem =>
    rw [hinto, hitem]
    rfl
  | case2 c first c₁ hitem hc₁ =>
    rw [into_bind_connectInto hinto hitem, hg, connectInto, hc₁]
    rfl
  | case3 c first c₁ hitem token rest hc₁ hsep fault hchain ih =>
    rw [into_bind_connectInto hinto hitem, hg, connectInto_of_connective hinto hle hc₁ hsep.1,
      ih (.combine op (g first)) _ _ (fun f => rfl), hchain]
    rfl
  | case4 c first c₁ hitem token rest hc₁ hsep second others c₂ hchain ih =>
    rw [into_bind_connectInto hinto hitem, hg, connectInto_of_connective hinto hle hc₁ hsep.1,
      ih (.combine op (g first)) _ _ (fun f => rfl), hchain]
    rfl
  | case5 c first c₁ hitem token rest hc₁ hsep =>
    have hlt : rest.length < c.tokens.length := by
      have := hle c first c₁ hitem
      rw [hc₁, List.length_cons] at this
      omega
    have hne : token.text ≠ op.spelling := fun ht => hsep ⟨ht, hlt⟩
    rw [into_bind_connectInto hinto hitem, hg, connectInto, hc₁]
    simp only [if_neg hne]
    rfl

theorem length_le_of_readBy {P : Phrasing φ α} {r : Reader α} (h : P.ReadBy r) {c c' : Cursor}
    {a : α} (hr : r c = .ok (a, c')) : c'.tokens.length ≤ c.tokens.length := by
  obtain ⟨p, hpass, -⟩ := (h c a c').mp hr
  exact hpass.length_le

theorem Builds.chain (hinto : Builds into item)
    (hle : ∀ c f c', item c = .ok (f, c') → c'.tokens.length ≤ c.tokens.length)
    (op : Connective) :
    Builds (fun slot d => do connectInto op into slot (← into slot d)) (do
      let (first, others) ← chain op.spelling item
      return .join op first others) := by
  intro slot d c
  change (into slot d c >>= fun r => connectInto op into slot r.1 r.2) =
    (Reader.chain op.spelling item c >>= fun r => .ok (Filter.join op r.1.1 r.1.2, r.2)).map _
  rw [connectInto_eq hinto hle op slot d id slot d fun _ => rfl]
  cases Reader.chain op.spelling item c <;> rfl

theorem conjunctionInto_builds : Builds conjunctionInto conjunction :=
  conditionInto_builds.chain (fun _ _ _ => length_le_of_readBy condition_readBy) .and

/-- Reading a WHERE clause into an empty draft leaves the arena of the filter that is read. -/
theorem disjunctionInto_eq (c : Cursor) :
    disjunctionInto c =
      (disjunction c).map fun r => ((WhereClause.arena ⟨some r.1⟩).draft, r.2) := by
  have h := conjunctionInto_builds.chain
    (fun _ _ _ => length_le_of_readBy conjunction_readBy) .or .root {} c
  simp only [Filter.build_root] at h
  exact h

end Reader

end CategoryStatements
