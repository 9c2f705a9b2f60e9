import CategoryStatements.Proofs.Acceptance
import CategoryStatements.Proofs.Binding
import CategoryStatements.Proofs.Building
import Mathlib.Data.List.Basic
import Mathlib.Data.List.Forall2
import Mathlib.Logic.Function.Iterate

/-! Precedence. A WHERE clause is a disjunction of conjunctions of comparisons, each behind some
negations. That is the tree which its arena holds, the condition which the store is given once
the parameters are bound, and what this condition is true of. -/
namespace CategoryStatements

namespace Chain

def toList (c : Chain α) : List α := c.first :: c.others

def map (f : α → β) (c : Chain α) : Chain β := ⟨f c.first, c.others.map f⟩

end Chain

/-- Comparisons in groups, each with a number of negations. -/
abbrev Groups (α : Type) := Chain (Chain (Nat × α))

namespace Groups

end Groups

namespace Arena

/-- The filter at a node, found by following the numbers of the children. -/
inductive TreeAt (arena : Arena) : Nat → Filter → Prop
  | compare {id left right : Nat} {p pl pr : Option Nat} {op : Comparison} {key value : Term}
      (node : arena.entries[id]? = some ⟨p, .comparison op left right⟩)
      (leftNode : arena.entries[left]? = some ⟨pl, .term key⟩)
      (rightNode : arena.entries[right]? = some ⟨pr, .term value⟩) :
      TreeAt arena id (.compare key op value)
  | not {id child : Nat} {p : Option Nat} {f : Filter}
      (node : arena.entries[id]? = some ⟨p, .negation child⟩) (inner : TreeAt arena child f) :
      TreeAt arena id (.not f)
  | combine {id left right : Nat} {p : Option Nat} {op : Connective} {f g : Filter}
      (node : arena.entries[id]? = some ⟨p, .logical op left right⟩)
      (leftTree : TreeAt arena left f) (rightTree : TreeAt arena right g) :
      TreeAt arena id (.combine op f g)

theorem TreeAt.unique {arena : Arena} {id : Nat} {f g : Filter} (hf : arena.TreeAt id f)
    (hg : arena.TreeAt id g) : f = g := by
  induction hf generalizing g with
  | compare node leftNode rightNode =>
    cases hg <;> simp_all
  | not node inner ih =>
    cases hg with
    | compare node' _ _ => simp [node] at node'
    | not node' inner' =>
      obtain ⟨-, rfl⟩ : _ ∧ _ := by simpa [node] using node'
      rw [ih inner']
    | combine node' _ _ => simp [node] at node'
  | combine node leftTree rightTree ihl ihr =>
    cases hg with
    | compare node' _ _ => simp [node] at node'
    | not node' _ => simp [node] at node'
    | combine node' leftTree' rightTree' =>
      obtain ⟨-, rfl, rfl, rfl⟩ : _ ∧ _ ∧ _ ∧ _ := by simpa [node] using node'
      rw [ihl leftTree', ihr rightTree']

/-- Where a filter is laid out, the filter can be found. -/
theorem treeAt_layout (f : Filter) (root parent : Option Nat) (before after : List Entry) :
    (Arena.mk root (before ++ (f.layout before.length parent ++ after))).TreeAt
      (f.top before.length) f := by
  induction f generalizing before parent after with
  | compare key op value =>
    simp only [Filter.layout, Filter.top, List.cons_append, List.nil_append]
    have hkey : (before ++ ⟨parent, .comparison op (before.length + 1) (before.length + 2)⟩ ::
        ⟨some before.length, .term key⟩ :: ⟨some before.length, .term value⟩ :: after)[
          before.length + 1]? = some ⟨some before.length, .term key⟩ := by simp
    have hvalue : (before ++ ⟨parent, .comparison op (before.length + 1) (before.length + 2)⟩ ::
        ⟨some before.length, .term key⟩ :: ⟨some before.length, .term value⟩ :: after)[
          before.length + 2]? = some ⟨some before.length, .term value⟩ := by simp
    exact .compare (by simp; rfl) hkey hvalue
  | not inner ih =>
    have hinner := ih (some before.length) (before ++
      [⟨parent, .negation (inner.top (before.length + 1))⟩]) after
    simp only [List.length_append, List.length_singleton, List.append_assoc, List.singleton_append]
      at hinner
    exact .not (p := parent) (by simp [Filter.layout, Filter.top]) hinner
  | combine op left right ihl ihr =>
    have hleft := ihl (some (before.length + left.size)) before
      (⟨parent, .logical op (left.top before.length) (right.top (before.length + left.size + 1))⟩ ::
        (right.layout (before.length + left.size + 1) (some (before.length + left.size)) ++ after))
    have hright := ihr (some (before.length + left.size)) (before ++
      (left.layout before.length (some (before.length + left.size)) ++
        [⟨parent, .logical op (left.top before.length)
          (right.top (before.length + left.size + 1))⟩])) after
    simp only [List.length_append, List.length_singleton, Filter.length_layout, ← Nat.add_assoc,
      List.append_assoc, List.singleton_append] at hright
    simp only [Filter.layout, List.append_assoc, List.cons_append]
    refine .combine (p := parent) ?_ hleft hright
    simp [Filter.top, Filter.length_layout]

/-- The arena of a clause holds its filter and no other. -/
theorem treeAt_root (f : Filter) :
    (WhereClause.arena ⟨some f⟩).TreeAt (f.top 0) f := by
  have h := treeAt_layout f (some (f.top 0)) none [] []
  rwa [List.append_nil] at h

end Arena

namespace Condition

variable {truth : String → Comparison → Value → Bool}

end Condition

namespace Chain

end Chain

namespace Filter

variable {ps : Parameters}

end Filter

/-- A comparison behind a number of negations. -/
def counted : Phrasing (Nat × ComparisonPhrase) (Nat × Filter) where
  texts p := List.replicate p.1 "NOT" ++ ComparisonPhrase.phrasing.texts p.2
  holes p := ComparisonPhrase.phrasing.holes p.2
  value n p := (p.1, ComparisonPhrase.phrasing.value n p.2)
  goesOn _ := []

/-- Phrases say through `f` the same in `Q` as in `P`, their meaning passed through `g`. -/
structure Phrasing.Translates (P : Phrasing φ α) (Q : Phrasing ψ β) (f : φ → ψ) (g : α → β) :
    Prop where
  texts : ∀ p, Q.texts (f p) = P.texts p
  holes : ∀ p, Q.holes (f p) = P.holes p
  value : ∀ n p, Q.value n (f p) = g (P.value n p)

namespace Phrasing.Translates

variable {P : Phrasing φ α} {Q : Phrasing ψ β} {f : φ → ψ} {g : α → β}

theorem values (h : P.Translates Q f g) (n : Nat) (ps : List φ) :
    Q.values n (ps.map f) = (P.values n ps).map g := by
  induction ps generalizing n with
  | nil => rfl
  | cons p ps ih => simp [Phrasing.values, h.value, h.holes, ih]

/-- Chains translate member by member, whatever is then made of the members. -/
theorem totalHoles (h : P.Translates Q f g) (ps : List φ) :
    Q.totalHoles (ps.map f) = P.totalHoles ps := by
  induction ps with
  | nil => rfl
  | cons p ps ih => simp [Phrasing.totalHoles, h.holes, ih]

theorem chain (h : P.Translates Q f g) (separator : String) {k : β × List β → γ}
    {k' : Chain α → γ} (hk : ∀ as : Chain α, k (g as.first, as.others.map g) = k' as) :
    ((P.chain separator).map fun as => Chain.mk as.1 as.2).Translates
      ((Q.chain separator).map k) (Chain.map f) k' where
  texts p := by simp [Phrasing.map, Phrasing.chain, Chain.map, h.texts, List.flatMap_map]
  holes p := by simp [Phrasing.map, Phrasing.chain, Chain.map, h.holes, h.totalHoles]
  value n p := by
    simp [Phrasing.map, Phrasing.chain, Chain.map, h.value, h.holes, h.values, ← hk]

end Phrasing.Translates

/-- The phrase of a WHERE clause that has its comparisons in these groups. -/
def Groups.phrase (gs : Groups ComparisonPhrase) : Chain (Chain ConditionPhrase) :=
  gs.map (Chain.map fun m => .negated m.1 m.2)

/-- No phrase has the text in it. -/
def Phrasing.Lacks (P : Phrasing φ α) (text : String) : Prop := ∀ p, text ∉ P.texts p

namespace Phrasing.Lacks

variable {P : Phrasing φ α} {text : String}

theorem chain (h : P.Lacks text) {separator : String} (hsep : text ≠ separator) :
    (P.chain separator).Lacks text := by
  intro p hmem
  simp only [Phrasing.chain, List.mem_append, List.mem_flatMap, List.mem_cons] at hmem
  rcases hmem with hmem | ⟨q, -, rfl | hmem⟩
  · exact h p.first hmem
  · exact hsep rfl
  · exact h q hmem

theorem map (h : P.Lacks text) (f : α → β) : (P.map f).Lacks text := h

theorem clause (h : P.Lacks text) {word : String} (hword : text ≠ word) :
    (P.clause word).Lacks text := by
  rintro (_ | p) hmem
  · cases hmem
  · rcases List.mem_cons.mp hmem with rfl | hmem
    · exact hword rfl
    · exact h p hmem

end Phrasing.Lacks

end CategoryStatements
