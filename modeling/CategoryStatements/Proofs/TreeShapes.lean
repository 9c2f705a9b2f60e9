import CategoryStatements.Proofs.Trees

/-! Shapes of trees. In the arena of a WHERE clause what binds closer stands below: terms below
comparisons, negations above negations and comparisons only, conjunctions below disjunctions,
and to the right of a connective nothing that holds the same one at its top. How many nodes
there are can be counted in the tokens. -/
namespace CategoryStatements

/-- How loosely a connective binds; conditions without one are at level one. -/
def Connective.level : Connective → Nat
  | and => 2
  | or => 3

namespace Draft

def nodeAt (d : Draft) (id : Nat) : Option DraftNode := (d.entries[id]?).map DraftEntry.node

theorem nodeAt_of_getElem? {d : Draft} {id : Nat} {e : DraftEntry}
    (h : d.entries[id]? = some e) : d.nodeAt id = some e.node := by
  rw [nodeAt, h]
  rfl

end Draft

namespace DraftNode

/-- Terms are at level zero, comparisons and negations at level one. -/
def level : DraftNode → Nat
  | term _ => 0
  | negation _ => 1
  | binary (.inl _) _ _ => 1
  | binary (.inr op) _ _ => op.level

/-- The children of a node are of the sorts that can stand there. -/
def Ordered (d : Draft) : DraftNode → Prop
  | term _ => True
  | negation child =>
    ∃ id node, child = some id ∧ d.nodeAt id = some node ∧ node.level = 1
  | binary (.inl _) left right =>
    (∃ id t, left = some id ∧ d.nodeAt id = some (.term t) ∧ t.isKey = true) ∧
      ∃ id t, right = some id ∧ d.nodeAt id = some (.term t) ∧ t.isKey = false
  | binary (.inr op) left right =>
    (∃ id node, left = some id ∧ d.nodeAt id = some node ∧
      1 ≤ node.level ∧ node.level ≤ op.level) ∧
    ∃ id node, right = some id ∧ d.nodeAt id = some node ∧
      1 ≤ node.level ∧ node.level < op.level

end DraftNode

namespace Filter

def level : Filter → Nat
  | compare _ _ _ => 1
  | not _ => 1
  | combine op _ _ => op.level

/-- The sides of a filter are of the sorts that can stand there without parentheses. -/
def Ordered : Filter → Prop
  | compare key _ value => key.isKey = true ∧ value.isKey = false
  | not inner => inner.level = 1 ∧ inner.Ordered
  | combine op left right =>
    (left.level ≤ op.level ∧ left.Ordered) ∧ right.level < op.level ∧ right.Ordered

theorem one_le_level (f : Filter) : 1 ≤ f.level := by
  cases f with
  | compare key op value => exact Nat.le_refl 1
  | not inner => exact Nat.le_refl 1
  | combine op left right => cases op <;> simp [level, Connective.level]

/-- Joining keeps the order, as long as each side binds closer than the connective. -/
theorem ordered_join {op : Connective} {first : Filter} {others : List Filter}
    (hfirst : first.level ≤ op.level ∧ first.Ordered)
    (hothers : ∀ f ∈ others, f.level < op.level ∧ f.Ordered) :
    (Chain.join (combine op) ⟨first, others⟩).level ≤ op.level ∧
      (Chain.join (combine op) ⟨first, others⟩).Ordered := by
  induction others generalizing first with
  | nil => exact hfirst
  | cons f others ih =>
    obtain ⟨hf, hothers⟩ := List.forall_mem_cons.mp hothers
    exact ih ⟨Nat.le_refl _, hfirst, hf⟩ hothers

end Filter

namespace Draft

variable {d : Draft} {slot : Slot} {base : Nat} {f : Filter}

theorem Holds.nodeAt_top (h : d.Holds slot base f) :
    ∃ node, d.nodeAt (f.top base) = some node ∧ node.level = f.level := by
  cases h with
  | compare place node => exact ⟨_, nodeAt_of_getElem? node, rfl⟩
  | not place node => exact ⟨_, nodeAt_of_getElem? node, rfl⟩
  | combine place node => exact ⟨_, nodeAt_of_getElem? node, rfl⟩

/-- Where a filter in order stands, its nodes are in order. -/
theorem Holds.ordered (h : d.Holds slot base f) (hf : f.Ordered) :
    ∀ v ∈ f.visits base slot, v.node.Ordered d := by
  induction h with
  | @compare slot base key value op place node left right =>
    have hcompare : DraftNode.Ordered d
        (.binary (.inl op) (some (base + 1)) (some (base + 2))) :=
      ⟨⟨base + 1, key, rfl, nodeAt_of_getElem? left, hf.1⟩,
        ⟨base + 2, value, rfl, nodeAt_of_getElem? right, hf.2⟩⟩
    simp only [Filter.visits, List.forall_mem_cons]
    exact ⟨trivial, hcompare, trivial, by simp⟩
  | not place node rest ih =>
    obtain ⟨top, htop, hlevel⟩ := rest.nodeAt_top
    simp only [Filter.visits, List.forall_mem_cons]
    exact ⟨⟨_, top, rfl, htop, hlevel.trans hf.1⟩, ih hf.2⟩
  | @combine slot base left right op place node leftTree rightTree ihl ihr =>
    obtain ⟨ltop, hltop, hllevel⟩ := leftTree.nodeAt_top
    obtain ⟨rtop, hrtop, hrlevel⟩ := rightTree.nodeAt_top
    obtain ⟨⟨hleft, hlo⟩, hright, hro⟩ := hf
    simp only [Filter.visits, List.forall_mem_append, List.forall_mem_cons]
    refine ⟨ihl hlo, ⟨⟨_, ltop, rfl, hltop, ?_, ?_⟩, ⟨_, rtop, rfl, hrtop, ?_, ?_⟩⟩, ihr hro⟩
    · rw [hllevel]
      exact left.one_le_level
    · rwa [hllevel]
    · rw [hrlevel]
      exact right.one_le_level
    · rwa [hrlevel]

end Draft

/-- How many nodes the texts of a WHERE clause take: three for each comparison and one for each
NOT, AND and OR. -/
def nodeCount (texts : List String) : Nat :=
  3 * texts.countP (fun t => (Comparison.ofText? t).isSome) + texts.count "NOT" +
    texts.count "AND" + texts.count "OR"

theorem nodeCount_append (ts us : List String) :
    nodeCount (ts ++ us) = nodeCount ts + nodeCount us := by
  simp only [nodeCount, List.countP_append, List.count_append]
  omega

theorem nodeCount_cons (t : String) (ts : List String) :
    nodeCount (t :: ts) = nodeCount [t] + nodeCount ts :=
  nodeCount_append [t] ts

theorem TermPhrase.nodeCount_text {clause : Clause} {isKey : Bool} (p : TermPhrase clause isKey) :
    nodeCount [p.text] = 0 := by
  have hnot := p.text_ne_keyword .not
  have hand := p.text_ne_keyword .and
  have hor := p.text_ne_keyword .or
  have hcompare : (Comparison.ofText? p.text).isSome = false := by
    have hs := p.derives.not_structural
    simp only [isStructural, Bool.or_eq_false_iff] at hs
    exact hs.1.2
  simp only [Keyword.spelling] at hnot hand hor
  simp [nodeCount, hcompare, hnot, hand, hor]

theorem Comparison.nodeCount_word (op : Comparison) : nodeCount [op.word] = 3 := by
  cases op <;> decide

theorem Connective.nodeCount_spelling (op : Connective) : nodeCount [op.spelling] = 1 := by
  cases op <;> decide

namespace Phrasing

theorem forall_values {P : Phrasing φ α} {Q : α → Prop} (h : ∀ n p, Q (P.value n p)) (n : Nat)
    (ps : List φ) : ∀ a ∈ P.values n ps, Q a := by
  induction ps generalizing n with
  | nil => simp [values]
  | cons p ps ih =>
    rw [values, List.forall_mem_cons]
    exact ⟨h n p, ih _⟩

/-- The filters that phrases mean have as many nodes as their texts take. -/
def Counted (P : Phrasing φ Filter) : Prop :=
  ∀ n p, (P.value n p).size = nodeCount (P.texts p)

/-- Each item that is joined to a filter adds its own nodes and one for the connective. -/
theorem Counted.size_join {P : Phrasing φ Filter} (h : P.Counted) (op : Connective)
    (first : Filter) (n : Nat) (ps : List φ) :
    (Chain.join (.combine op) ⟨first, P.values n ps⟩).size =
      first.size + nodeCount (ps.flatMap fun q => op.spelling :: P.texts q) := by
  induction ps generalizing first n with
  | nil => rfl
  | cons q ps ih =>
    rw [values, Chain.join_cons, ih, Filter.size, h, List.flatMap_cons, nodeCount_append,
      nodeCount_cons, op.nodeCount_spelling]
    omega

theorem Counted.join {P : Phrasing φ Filter} (h : P.Counted) (op : Connective) :
    ((P.chain op.spelling).map fun fs => Chain.join (.combine op) ⟨fs.1, fs.2⟩).Counted := by
  intro n p
  simp only [map, chain]
  rw [h.size_join, h, nodeCount_append]

end Phrasing

theorem ComparisonPhrase.counted : ComparisonPhrase.phrasing.Counted := by
  intro n p
  simp only [phrasing]
  rw [nodeCount_cons p.key.text, nodeCount_cons p.op.word, p.key.nodeCount_text,
    p.op.nodeCount_word, p.value.nodeCount_text]
  rfl

theorem ConditionPhrase.counted : ConditionPhrase.phrasing.Counted := by
  intro n p
  induction p with
  | compare p => exact ComparisonPhrase.counted n p
  | not inner ih =>
    have hnot : nodeCount ["NOT"] = 1 := by decide
    change (inner.filter n).size + 1 = nodeCount ("NOT" :: inner.texts)
    rw [nodeCount_cons, hnot, Nat.add_comm]
    exact congrArg (1 + ·) ih

theorem disjunctions_counted : disjunctions.Counted :=
  (ConditionPhrase.counted.join .and).join .or

theorem Reading.isKey_term (isKey : Bool) (n : Nat) (r : Reading) :
    (r.term isKey n).isKey = isKey := by
  cases r <;> rfl

theorem ConditionPhrase.ordered (n : Nat) (p : ConditionPhrase) :
    (p.filter n).level = 1 ∧ (p.filter n).Ordered := by
  induction p with
  | compare p => exact ⟨rfl, Reading.isKey_term .., Reading.isKey_term ..⟩
  | not inner ih => exact ⟨rfl, ih⟩

theorem ordered_conjunctions (n : Nat) (p : Chain ConditionPhrase) :
    (conjunctions.value n p).level ≤ Connective.and.level ∧ (conjunctions.value n p).Ordered := by
  have hcondition : ∀ n p, (ConditionPhrase.phrasing.value n p).level < Connective.and.level ∧
      (ConditionPhrase.phrasing.value n p).Ordered := by
    intro n p
    obtain ⟨hlevel, hordered⟩ := p.ordered n
    exact ⟨by rw [ConditionPhrase.phrasing, hlevel]; decide, hordered⟩
  obtain ⟨hlevel, hordered⟩ := hcondition n p.first
  exact Filter.ordered_join ⟨Nat.le_of_lt hlevel, hordered⟩ (Phrasing.forall_values hcondition _ _)

theorem ordered_disjunctions (n : Nat) (p : Chain (Chain ConditionPhrase)) :
    (disjunctions.value n p).Ordered := by
  have hconjunction : ∀ n p, (conjunctions.value n p).level < Connective.or.level ∧
      (conjunctions.value n p).Ordered := by
    intro n p
    obtain ⟨hlevel, hordered⟩ := ordered_conjunctions n p
    exact ⟨Nat.lt_of_le_of_lt hlevel (by decide), hordered⟩
  obtain ⟨hlevel, hordered⟩ := hconjunction n p.first
  exact (Filter.ordered_join ⟨Nat.le_of_lt hlevel, hordered⟩
    (Phrasing.forall_values hconjunction _ _)).2

/-- The filter of a statement comes from the tokens behind the word WHERE, which are read into
its arena. -/
theorem exists_filter_tokens {category : Category} {text : String} {s : Statement}
    {clause : WhereClause} (h : parse category text = .ok s) (hclause : s.filter = some clause) :
    ∃ (q : Chain (Chain ConditionPhrase)) (before used after : List Token) (keyword : Token)
      (n m : Nat), clause = ⟨some (disjunctions.value n q)⟩ ∧
      tokenize text = before ++ keyword :: (used ++ after) ∧
      keyword.text = Keyword.filter.spelling ∧ used.map Token.text = disjunctions.texts q ∧
      Reader.disjunctionInto ⟨used ++ after, text.utf8ByteSize, n⟩ =
        .ok (clause.arena.draft, ⟨after, text.utf8ByteSize, m⟩) := by
  obtain ⟨p, htexts, rfl⟩ := parseTokens_eq_ok.mp h
  cases hfilter : p.filter with
  | none => simp [StatementPhrase.statement, hfilter, whereClause, Phrasing.clause] at hclause
  | some q =>
    have hbound := p.boundaries.2.1
    obtain rfl : ⟨some (disjunctions.value (setClause.holes p.assignments) q)⟩ = clause := by
      simpa [StatementPhrase.statement, hfilter, whereClause, Phrasing.clause] using hclause
    have hsplit : (p.kind.text :: p.category.text :: setClause.texts p.assignments) ++
        "WHERE" :: (disjunctions.texts q ++ (sortClause.texts p.order ++
          limitClause.texts p.limit)) = (tokenize text).map Token.text := by
      rw [← htexts, StatementPhrase.texts, StatementPhrase.clauseTexts, hfilter]
      simp [whereClause, Phrasing.clause]
    obtain ⟨before, rest, htokens, -, hrest⟩ := List.map_eq_append_iff.mp hsplit.symm
    obtain ⟨keyword, rest, rfl, hkeyword, hrest⟩ := List.map_eq_cons_iff.mp hrest
    obtain ⟨used, after, rfl, hused, hafter⟩ := List.map_eq_append_iff.mp hrest
    rw [hfilter] at hbound
    have hread : Reader.disjunction
        ⟨used ++ after, text.utf8ByteSize, setClause.holes p.assignments⟩ =
          .ok (disjunctions.value (setClause.holes p.assignments) q,
            ⟨after, text.utf8ByteSize, setClause.holes p.assignments + disjunctions.holes q⟩) := by
      refine (Reader.disjunction_readBy _ _ _).mpr ⟨q, ⟨used, rfl, hused, rfl, rfl⟩, ?_, rfl⟩
      intro token htoken
      apply hbound
      rw [← hafter, List.head?_map]
      exact Option.mem_map_of_mem _ htoken
    refine ⟨q, before, used, after, keyword, setClause.holes p.assignments,
      setClause.holes p.assignments + disjunctions.holes q, rfl, htokens, hkeyword, hused, ?_⟩
    rw [Reader.disjunctionInto_eq, hread]
    rfl

/-- The arena that reading a WHERE clause leaves is a tree with its nodes in order. A walk from
the root meets each node once, and its terms in the order of their numbers; writing and binding
the clause come to their end, and the tokens tell how many nodes there are. -/
theorem where_arena_isTree {category : Category} {text : String} {s : Statement}
    {clause : WhereClause} (h : parse category text = .ok s) (hclause : s.filter = some clause) :
    ∃ (before used after : List Token) (keyword : Token) (n m : Nat)
      (visits : List Visit) (filter : Filter),
      tokenize text = before ++ keyword :: (used ++ after) ∧
      keyword.text = Keyword.filter.spelling ∧
      Reader.disjunctionInto ⟨used ++ after, text.utf8ByteSize, n⟩ =
        .ok (clause.arena.draft, ⟨after, text.utf8ByteSize, m⟩) ∧
      clause.arena.draft.IsTree ∧
      (∀ id node, clause.arena.draft.nodeAt id = some node → node.Ordered clause.arena.draft) ∧
      clause.arena.draft.Visits visits ∧
      visits.filterMap (fun v => v.node.term?) = clause.arena.terms ∧
      clause.arena.draft.size = nodeCount (used.map Token.text) ∧
      clause.arena.draft.words = some clause.words ∧
      clause.root = some filter ∧
      ∀ ps, clause.arena.draft.bind ps = (filter.bind ps).mapError .binding := by
  obtain ⟨q, before, used, after, keyword, n, m, rfl, htokens, hkeyword, hused, hinto⟩ :=
    exists_filter_tokens h hclause
  generalize hf : disjunctions.value n q = f at hinto hclause
  have hholds := f.holds_root
  have hsize := f.size_draft
  have hvisits := hholds.visits hsize
  have hordered := hholds.ordered (hf ▸ ordered_disjunctions n q)
  refine ⟨before, used, after, keyword, n, m, f.visits 0 .root, f, htokens, hkeyword, hinto,
    hholds.isTree hsize, ?_, hvisits, f.filterMap_term?_visits 0 .root _ none, ?_, ?_, rfl,
    f.bind_draft⟩
  · intro id node hnode
    obtain ⟨e, he, rfl⟩ := Option.map_eq_some_iff.mp hnode
    obtain ⟨v, hv, -, rfl⟩ := hvisits.exists_visit he
    exact hordered v hv
  · rw [hsize, hused, ← hf, disjunctions_counted]
  · rw [Draft.words, hvisits.walk]
    exact congrArg some (f.map_word_visits 0 .root)

theorem where_arena_isTree_of_not_or_and :
    ∃ (s : Statement) (clause : WhereClause) (visits : List Visit),
      parse ⟨"c", []⟩ "QUERY c WHERE NOT a = 'x' OR b < 2 AND d = ?s LIMIT 1" = .ok s ∧
      s.filter = some clause ∧ clause.arena.draft.size = 12 ∧ clause.arena.draft.IsTree ∧
      clause.arena.draft.Visits visits := by
  have hparse : parse ⟨"c", []⟩ "QUERY c WHERE NOT a = 'x' OR b < 2 AND d = ?s LIMIT 1" = .ok
      { kind := .query, category := "c"
        filter := some ⟨some (.combine .or
          (.not (.compare ⟨.literal (.string "a"), true⟩ .equal ⟨.literal (.string "x"), false⟩))
          (.combine .and
            (.compare ⟨.literal (.string "b"), true⟩ .less ⟨.literal (.int 2), false⟩)
            (.compare ⟨.literal (.string "d"), true⟩ .equal
              ⟨.placeholder ⟨0, ⟨.string, false⟩⟩, false⟩)))⟩
        limit := some ⟨.literal (.int 1), false⟩
        placeholders := 1 } := by
    decide +kernel
  obtain ⟨-, -, -, -, -, -, visits, -, -, -, -, htree, -, hvisits, -⟩ :=
    where_arena_isTree hparse rfl
  exact ⟨_, _, visits, hparse, rfl, rfl, htree, hvisits⟩

end CategoryStatements
