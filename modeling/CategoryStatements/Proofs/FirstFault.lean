import CategoryStatements.Proofs.Directives
import CategoryStatements.Proofs.Occurrences
import CategoryStatements.Proofs.Walks

/-! The first fault. A placeholder is faulty when it has no value, or one that does not suit it.
A statement binds when no placeholder is faulty, and otherwise its fault is that of the first
faulty placeholder. Everything else that binding guards against never happens. -/
namespace CategoryStatements

namespace Occurrence

def isComparisonKey (o : Occurrence) : Bool := o.clause = .filter && o.isKey

/-- What is wrong with a placeholder, the first of these that is: it has no parameter, the
parameter has no value, the value is not of its type, or it is a key and not of string type. -/
def fault? (ps : Parameters) (o : Occurrence) : Option BindingFault :=
  match ps.values[o.index]? with
  | none => some (.indexOutOfRange o.index ps.size)
  | some none => some (.unbound o.index)
  | some (some v) =>
    if o.type.accepts v then
      if o.isComparisonKey ∧ o.type ≠ ⟨.string, false⟩ then
        some (.misuse (.keyNotString v.description))
      else none
    else some (.typeMismatch o.index o.type v.description)

end Occurrence

/-- The fault of the first faulty placeholder. -/
def firstFault (ps : Parameters) (os : List Occurrence) : Option BindingFault :=
  os.findSome? (Occurrence.fault? ps)

theorem firstFault_append (ps : Parameters) (xs ys : List Occurrence) :
    firstFault ps (xs ++ ys) = (firstFault ps xs).or (firstFault ps ys) :=
  List.findSome?_append

/-- The fault of what fails. -/
def faultOf : Except ε α → Option ε
  | .error fault => some fault
  | .ok _ => none

theorem faultOf_eq_some {x : Except ε α} {fault : ε} :
    faultOf x = some fault ↔ x = .error fault := by
  cases x <;> simp [faultOf]

theorem faultOf_eq_none {x : Except ε α} : faultOf x = none ↔ ∃ a, x = .ok a := by
  cases x <;> simp [faultOf]

/-- Of two steps the second one is reached only when the first one succeeds. -/
theorem faultOf_andThen {x : Except ε α} {f : α → Except ε β} {e : Option ε}
    (h : ∀ a, x = .ok a → faultOf (f a) = e) : faultOf (x >>= f) = (faultOf x).or e := by
  cases x with
  | error fault => rfl
  | ok a => exact h a rfl

theorem faultOf_andThen_safe {x : Except ε α} {f : α → Except ε β}
    (h : ∀ a, x = .ok a → faultOf (f a) = none) : faultOf (x >>= f) = faultOf x := by
  rw [faultOf_andThen h, Option.or_none]

/-- A list fails like the first of its items that does. -/
theorem faultOf_mapM {ps : Parameters} {f : α → Except BindingFault β}
    {occurrences : α → List Occurrence} {xs : List α}
    (h : ∀ x ∈ xs, faultOf (f x) = firstFault ps (occurrences x)) :
    faultOf (xs.mapM f) = firstFault ps (xs.flatMap occurrences) := by
  induction xs with
  | nil => rfl
  | cons x xs ih =>
    obtain ⟨hx, hxs⟩ := List.forall_mem_cons.mp h
    rw [List.mapM_cons, List.flatMap_cons, firstFault_append, ← hx, ← ih hxs]
    refine faultOf_andThen fun y _ => ?_
    exact faultOf_andThen_safe fun ys _ => rfl

theorem faultOf_mapM_option {ps : Parameters} {f : α → Except BindingFault β}
    {occurrences : α → List Occurrence} {o : Option α}
    (h : ∀ x ∈ o, faultOf (f x) = firstFault ps (occurrences x)) :
    faultOf (o.mapM f) = firstFault ps (o.toList.flatMap occurrences) := by
  cases o with
  | none => rfl
  | some x =>
    have hx : faultOf (some <$> f x) = faultOf (f x) := by cases f x <;> rfl
    rw [Option.mapM_some, hx, h x rfl]
    simp

/-- A value that is accepted is a string exactly when strings are asked for. -/
theorem ParamType.eq_string_iff {type : ParamType} {v : Value} (h : type.accepts v) :
    type = ⟨.string, false⟩ ↔ ∃ s, v = .string s := by
  obtain rfl : v.type = type := of_decide_eq_true h
  cases v <;> simp [Value.type]

theorem Atom.resolve_placeholder (ps : Parameters) (p : Placeholder) :
    (placeholder p).resolve ps =
      match ps.values[p.index]? with
      | none => .error (.indexOutOfRange p.index ps.size)
      | some none => .error (.unbound p.index)
      | some (some v) =>
        if p.type.accepts v then .ok v
        else .error (.typeMismatch p.index p.type v.description) := by
  rw [resolve, Parameters.get]
  cases ps.values[p.index]? with
  | none => rfl
  | some o => cases o <;> rfl

namespace Term

variable {ps : Parameters} {t : Term} {clause : Clause} {isKey : Bool}

/-- A term fails to resolve when its placeholder is faulty. A key that a clause other than
WHERE permits is a string already. -/
theorem faultOf_resolve (h : t.Suits clause isKey)
    (hkey : isKey → ∀ p, t.atom = .placeholder p → clause = .filter ∨ p.type = ⟨.string, false⟩) :
    faultOf (t.resolve ps) = firstFault ps (t.occurrences clause) := by
  obtain ⟨atom, key⟩ := t
  obtain rfl : key = isKey := h.isKey_eq
  cases atom with
  | literal l =>
    cases key with
    | false => rfl
    | true =>
      obtain ⟨s, rfl⟩ := h.isString rfl l rfl
      rfl
  | placeholder p =>
    have hfirst : firstFault ps (occurrences clause ⟨.placeholder p, key⟩) =
        (Occurrence.mk p clause key).fault? ps := by
      simp [firstFault, occurrences, placeholder?, List.findSome?_singleton]
    rw [hfirst, resolve, Atom.resolve_placeholder, Occurrence.fault?]
    simp only [Occurrence.index, Occurrence.type, Occurrence.isComparisonKey]
    cases ps.values[p.index]? with
    | none => rfl
    | some o =>
    cases o with
    | none => rfl
    | some v =>
    by_cases haccepts : p.type.accepts v
    · simp only [haccepts, if_true]
      cases key with
      | false => simp [faultOf, bind, Except.bind, pure, Except.pure]
      | true =>
        have hstring := ParamType.eq_string_iff haccepts
        have hclause := hkey rfl p rfl
        cases v with
        | string s =>
          have htype := hstring.mpr ⟨s, rfl⟩
          simp [htype, faultOf, bind, Except.bind, pure, Except.pure]
        -- the value suits its placeholder, and is refused only because a key was wanted
        | _ =>
          have htype : p.type ≠ ⟨.string, false⟩ := by
            intro htype
            obtain ⟨s, hs⟩ := hstring.mp htype
            cases hs
          obtain rfl : clause = .filter := hclause.resolve_right htype
          simp [htype, faultOf, bind, Except.bind, throw, throwThe, MonadExceptOf.throw]
    · simp only [haccepts]
      rfl

/-- What a term resolves to is fit for its place. -/
theorem exists_of_resolve {r : Resolved} (h : t.resolve ps = .ok r) :
    (t.isKey → ∃ name, r = .key name) ∧ (t.isKey = false → ∃ v, r = .value v) := by
  obtain ⟨v, -, h⟩ := except_bind_eq_ok.mp h
  cases hkey : t.isKey with
  | false =>
    simp only [hkey] at h
    cases h
    exact ⟨by simp, fun _ => ⟨v, rfl⟩⟩
  | true =>
    simp only [hkey, if_true] at h
    cases v with
    | string s =>
      cases h
      exact ⟨fun _ => ⟨s, rfl⟩, by simp⟩
    | _ => cases h

theorem faultOf_asKey {r : Resolved} (hkey : t.isKey) (h : t.resolve ps = .ok r) (place : Place) :
    faultOf (r.asKey place) = none := by
  obtain ⟨name, rfl⟩ := (exists_of_resolve h).1 hkey
  rfl

theorem faultOf_asValue {r : Resolved} (hkey : t.isKey = false) (h : t.resolve ps = .ok r)
    (place : Place) : faultOf (r.asValue place) = none := by
  obtain ⟨v, rfl⟩ := (exists_of_resolve h).2 hkey
  rfl

end Term

section

variable {ps : Parameters}

theorem Filter.faultOf_bind {f : Filter} (h : f.Suits) :
    faultOf (f.bind ps) = firstFault ps f.occurrences := by
  induction f with
  | compare key op value =>
    obtain ⟨hkey, hvalue⟩ := h
    rw [occurrences, firstFault_append, ← Term.faultOf_resolve hkey (by simp),
      ← Term.faultOf_resolve hvalue (by simp)]
    -- both sides are resolved before either is used, and what is resolved is fit for use
    refine faultOf_andThen fun left hleft => faultOf_andThen_safe fun right hright => ?_
    rw [faultOf_andThen_safe]
    · exact Term.faultOf_asKey hkey.isKey_eq hleft .comparison
    · intro name _
      rw [faultOf_andThen_safe fun v _ => rfl]
      exact Term.faultOf_asValue hvalue.isKey_eq hright .comparison
  | not inner ih =>
    rw [occurrences, ← ih h]
    exact faultOf_andThen_safe fun c _ => rfl
  | combine op left right ihl ihr =>
    rw [occurrences, firstFault_append, ← ihl h.1, ← ihr h.2]
    refine faultOf_andThen fun c _ => ?_
    exact faultOf_andThen_safe fun c' _ => rfl

theorem WhereClause.faultOf_bind {clause : WhereClause} {f : Filter} (hroot : clause.root = some f)
    (h : f.Suits) : faultOf (clause.bind ps) = firstFault ps clause.occurrences := by
  obtain ⟨root⟩ := clause
  obtain rfl : root = some f := hroot
  simpa [bind, occurrences] using Filter.faultOf_bind h

/-- A key of a SET clause is no placeholder, or binding would refuse it in any case. -/
theorem Assignment.faultOf_bind {a : Assignment} (h : a.Suits) (hkey : a.key.placeholder? = none) :
    faultOf (a.bind ps) = firstFault ps a.occurrences := by
  have hnone : ∀ p, a.key.atom ≠ .placeholder p := by
    intro p hp
    simp [Term.placeholder?, hp] at hkey
  rw [occurrences, firstFault_append,
    ← Term.faultOf_resolve h.1 fun _ p hp => absurd hp (hnone p),
    ← Term.faultOf_resolve h.2 (by simp), bind, if_neg (by simp [hkey])]
  refine faultOf_andThen fun left hleft => ?_
  rw [faultOf_andThen (e := faultOf (a.value.resolve ps)),
    Term.faultOf_asKey h.1.isKey_eq hleft, Option.none_or]
  intro name _
  refine faultOf_andThen_safe fun right hright => ?_
  rw [faultOf_andThen_safe fun v _ => rfl]
  exact Term.faultOf_asValue h.2.isKey_eq hright .set

/-- SORT permits no placeholder but that of a string. -/
theorem SortKey.faultOf_bind {s : SortKey} (h : s.key.Suits .sort true) :
    faultOf (s.bind ps) = firstFault ps s.occurrences := by
  have hstring : ∀ p, s.key.atom = .placeholder p → p.type = ⟨.string, false⟩ := by
    intro p hp
    exact beq_iff_eq.mp (h.permitted p hp)
  rw [occurrences, ← Term.faultOf_resolve h fun _ p hp => .inr (hstring p hp)]
  refine faultOf_andThen_safe fun r hr => ?_
  rw [faultOf_andThen_safe fun name _ => rfl]
  exact Term.faultOf_asKey h.isKey_eq hr .sort

/-- LIMIT permits no value but an integer. -/
theorem Term.SuitsLimit.exists_int {t : Term} {v : Value} (h : t.SuitsLimit)
    (hv : t.atom.resolve ps = .ok v) : ∃ n, v = .int n := by
  obtain ⟨hsuits, hint⟩ := h
  cases hatom : t.atom with
  | literal l =>
    obtain ⟨n, rfl⟩ := hint l hatom
    rw [hatom] at hv
    cases hv
    exact ⟨n, rfl⟩
  | placeholder p =>
    have htype : p.type = ⟨.int, false⟩ := beq_iff_eq.mp (hsuits.permitted p hatom)
    rw [hatom] at hv
    obtain ⟨w, -, hw⟩ := except_bind_eq_ok.mp hv
    split at hw
    · next haccepts =>
      cases hw
      have hvt : v.type = ⟨.int, false⟩ := (of_decide_eq_true haccepts).trans htype
      cases v <;> simp_all [Value.type]
    · cases hw

theorem Term.faultOf_bindLimit {t : Term} (h : t.SuitsLimit) :
    faultOf (bindLimit ps t) = firstFault ps (t.occurrences .limit) := by
  rw [← Term.faultOf_resolve h.1 (by simp)]
  refine faultOf_andThen_safe fun r hr => ?_
  obtain ⟨v, hv, hr'⟩ := except_bind_eq_ok.mp hr
  obtain ⟨n, rfl⟩ := h.exists_int hv
  simp only [h.1.isKey_eq] at hr'
  cases hr'
  rfl

end

namespace Statement

variable {s : Statement} {category : Category} {ps : Parameters}

/-- Every kind forbids SET or placeholders for its keys. -/
theorem placeholder?_key (h : s.violation? category = none) :
    ∀ a ∈ s.assignments.getD [], a.key.placeholder? = none := by
  intro a ha
  have hrules : Rule.setForbidden ∈ s.kind.rules ∨ Rule.setKeysLiteral ∈ s.kind.rules := by
    cases s.kind <;> decide
  rcases hrules with hrule | hrule
  · rw [(forbidden_clauses h).1 hrule] at ha
    cases ha
  · have hkept := rule_kept h hrule
    simp only [Rule.violation?, ite_eq_right_iff, reduceCtorEq, imp_false, List.any_eq_true,
      not_exists, not_and] at hkept
    simpa using hkept a ha

/-- Binding fails like the first faulty placeholder, in the order of the text. -/
theorem faultOf_bind (hsuits : s.Suits) (h : s.violation? category = none) :
    faultOf (s.bind ps) = firstFault ps s.occurrences := by
  have hset : faultOf ((s.assignments.getD []).mapM (Assignment.bind ps)) = _ :=
    faultOf_mapM fun a ha => Assignment.faultOf_bind (hsuits.assignments a ha)
      (placeholder?_key h a ha)
  have hfilter : faultOf (s.filter.mapM (WhereClause.bind ps)) = _ :=
    faultOf_mapM_option fun clause hclause => by
      obtain ⟨f, hroot, hf⟩ := hsuits.filter clause hclause
      exact WhereClause.faultOf_bind hroot hf
  have hsort : faultOf ((s.order.getD []).mapM (SortKey.bind ps)) = _ :=
    faultOf_mapM fun k hk => SortKey.faultOf_bind (hsuits.order k hk)
  have hlimit : faultOf (s.limit.mapM (bindLimit ps)) = _ :=
    faultOf_mapM_option fun t ht => Term.faultOf_bindLimit (hsuits.limit t ht)
  simp only [occurrences, firstFault_append, Option.or_assoc]
  rw [← hset, ← hfilter, ← hsort, ← hlimit]
  refine faultOf_andThen fun assignments _ => faultOf_andThen fun filter _ =>
    faultOf_andThen fun order _ => ?_
  exact faultOf_andThen_safe fun limit _ => rfl

end Statement

/-- Where placeholders are numbered in a row, the first faulty one is that of the least number. -/
theorem firstFault_eq_some {ps : Parameters} {os : List Occurrence} {count : Nat}
    {fault : BindingFault} (h : os.map Occurrence.index = List.range count) :
    firstFault ps os = some fault ↔ ∃ o ∈ os, o.fault? ps = some fault ∧
      ∀ o' ∈ os, o'.index < o.index → o'.fault? ps = none := by
  have hsorted : os.Pairwise fun o o' => o.index < o'.index := by
    rw [← List.pairwise_map, h]
    exact List.pairwise_lt_range
  rw [firstFault, List.findSome?_eq_some_iff]
  constructor
  · rintro ⟨before, o, after, rfl, ho, hbefore⟩
    refine ⟨o, by simp, ho, ?_⟩
    intro o' hmem hlt
    rw [List.pairwise_append, List.pairwise_cons] at hsorted
    rcases List.mem_append.mp hmem with hmem | hmem
    · exact hbefore o' hmem
    -- from the fault on, numbers only grow
    · rcases List.mem_cons.mp hmem with rfl | hmem
      · omega
      · have := hsorted.2.1.1 o' hmem
        omega
  · rintro ⟨o, hmem, ho, hfirst⟩
    obtain ⟨before, after, rfl⟩ := List.append_of_mem hmem
    refine ⟨before, o, after, rfl, ho, ?_⟩
    intro o' hbefore
    rw [List.pairwise_append] at hsorted
    exact hfirst o' (List.mem_append_left _ hbefore)
      (hsorted.2.2 o' hbefore o (List.mem_cons_self ..))

/-- A term is misused only as the key of a comparison. -/
theorem Occurrence.of_fault?_eq_some {ps : Parameters} {o : Occurrence} {fault : BindingFault}
    (h : o.fault? ps = some fault) :
    fault ≠ .incomplete ∧ ∀ cause, fault = .misuse cause →
      o.isComparisonKey ∧ o.type ≠ ⟨.string, false⟩ ∧
        ∃ v : Value, o.type.accepts v ∧ cause = .keyNotString v.description := by
  unfold fault? at h
  split at h
  · cases h
    simp
  · cases h
    simp
  · next v _ =>
    split at h
    · next haccepts =>
      split at h
      · next hkey =>
        cases h
        refine ⟨by simp, ?_⟩
        rintro cause hcause
        cases hcause
        exact ⟨hkey.1, hkey.2, v, haccepts, rfl⟩
      · cases h
    · cases h
      simp

namespace Compiled

variable {d : Descriptor} {c : Compiled} {host host₁ : Host}

theorem faultOf_bind_statement (h : d.compile host = (.ok c, host₁)) (ps : Parameters) :
    faultOf (c.statement.bind ps) = firstFault ps c.statement.occurrences := by
  obtain ⟨hparse, hrules, -⟩ := Descriptor.compile_eq_ok h
  exact Statement.faultOf_bind (suits_of_parse hparse) hrules

theorem bind_eq_ok_iff {ps : Parameters} {host₂ : Host} :
    (∃ handle host₃, c.bind ps host₂ = (.ok handle, host₃)) ↔
      faultOf (c.statement.bind ps) = none := by
  rw [faultOf_eq_none]
  constructor
  · rintro ⟨handle, host₃, h⟩
    obtain ⟨-, b, hb, -⟩ := bind_eq_ok h
    exact ⟨b, hb⟩
  · rintro ⟨b, hb⟩
    obtain ⟨host₃, h, -⟩ := bind_of_ok hb host₂
    exact ⟨_, host₃, h⟩

theorem bind_eq_error_iff {ps : Parameters} {fault : BindingFault} {host₂ host₃ : Host} :
    c.bind ps host₂ = (.error fault, host₃) ↔
      host₃ = host₂ ∧ faultOf (c.statement.bind ps) = some fault := by
  rw [faultOf_eq_some]
  constructor
  · intro h
    cases hb : c.statement.bind ps with
    | ok b =>
      obtain ⟨_, hok, -⟩ := bind_of_ok hb host₂
      rw [hok] at h
      cases h
    | error fault' =>
      rw [bind_of_error hb] at h
      cases h
      exact ⟨rfl, rfl⟩
  · rintro ⟨rfl, hb⟩
    exact bind_of_error hb host₃

/-- Binding succeeds exactly when no placeholder is faulty. Otherwise its fault is that of the
faulty placeholder with the least number, and the host is left as it was. Of all misuses only one
occurs, a placeholder that is the key of a comparison and not of string type, and a WHERE clause is
never found incomplete, not even in the places of its arena. -/
theorem bind_reports_first_fault (hcompile : d.compile host = (.ok c, host₁)) (ps : Parameters)
    (host₂ : Host) :
    c.statement.occurrences.map Occurrence.index = List.range c.statement.placeholders ∧
    ((∃ handle host₃, c.bind ps host₂ = (.ok handle, host₃)) ↔
      ∀ o ∈ c.statement.occurrences, o.fault? ps = none) ∧
    (∀ fault host₃, c.bind ps host₂ = (.error fault, host₃) ↔
      host₃ = host₂ ∧ ∃ o ∈ c.statement.occurrences, o.fault? ps = some fault ∧
        ∀ o' ∈ c.statement.occurrences, o'.index < o.index → o'.fault? ps = none) ∧
    (∀ fault host₃, c.bind ps host₂ = (.error fault, host₃) →
      fault ≠ .incomplete ∧ ∀ cause, fault = .misuse cause →
        ∃ o ∈ c.statement.occurrences, o.isComparisonKey ∧ o.type ≠ ⟨.string, false⟩ ∧
          ∃ v : Value, o.type.accepts v ∧ cause = .keyNotString v.description) ∧
    ∀ clause ∈ c.statement.filter,
      clause.arena.draft.bind ps = (clause.bind ps).mapError .binding := by
  obtain ⟨hparse, -, -⟩ := Descriptor.compile_eq_ok hcompile
  have hindex := map_index_of_parse hparse
  have hfault := faultOf_bind_statement hcompile ps
  refine ⟨hindex, ?_, ?_, ?_, ?_⟩
  · rw [bind_eq_ok_iff, hfault, firstFault, List.findSome?_eq_none_iff]
  · intro fault host₃
    rw [bind_eq_error_iff, hfault, firstFault_eq_some hindex]
  · intro fault host₃ hbind
    rw [bind_eq_error_iff, hfault, firstFault_eq_some hindex] at hbind
    obtain ⟨-, o, hmem, ho, -⟩ := hbind
    obtain ⟨hcomplete, hmisuse⟩ := Occurrence.of_fault?_eq_some ho
    exact ⟨hcomplete, fun cause hcause => ⟨o, hmem, hmisuse cause hcause⟩⟩
  · intro clause hclause
    obtain ⟨f, hroot, -⟩ := (suits_of_parse hparse).filter clause hclause
    obtain ⟨root⟩ := clause
    obtain rfl : root = some f := hroot
    exact Filter.bind_draft f ps

/-- Of four placeholders the second is without a value, the third is a key that is no string, and
the fourth has no parameter. -/
theorem bind_reports_first_fault_unbound :
    ∃ (c : Compiled) (host₁ : Host),
      Descriptor.compile ⟨⟨"c", []⟩, "QUERY c WHERE ?s = ?i OR ?b = 1 LIMIT ?i"⟩ {} =
        (.ok c, host₁) ∧
      ∀ host₂, c.bind ⟨[some (.string "k"), none, some (.boolean true)]⟩ host₂ =
        (.error (.unbound 1), host₂) := by
  let s : Statement :=
    { kind := .query, category := "c"
      filter := some ⟨some (.combine .or
        (.compare ⟨.placeholder ⟨0, .string, false⟩, true⟩ .equal
          ⟨.placeholder ⟨1, .int, false⟩, false⟩)
        (.compare ⟨.placeholder ⟨2, .boolean, false⟩, true⟩ .equal ⟨.literal (.int 1), false⟩))⟩
      limit := some ⟨.placeholder ⟨3, .int, false⟩, false⟩
      placeholders := 4 }
  have hparse : parse ⟨"c", []⟩ "QUERY c WHERE ?s = ?i OR ?b = 1 LIMIT ?i" = .ok s := by
    decide +kernel
  obtain ⟨c, hc, -, host₁, hcompile⟩ :=
    Descriptor.compile_of_parse (d := ⟨⟨"c", []⟩, _⟩) hparse (by decide +kernel) {}
  have hoccurrences : c.statement.occurrences =
      [⟨⟨0, .string, false⟩, .filter, true⟩, ⟨⟨1, .int, false⟩, .filter, false⟩,
        ⟨⟨2, .boolean, false⟩, .filter, true⟩, ⟨⟨3, .int, false⟩, .limit, false⟩] := by
    rw [hc]
    decide
  refine ⟨c, host₁, hcompile, fun host₂ => ?_⟩
  obtain ⟨-, -, herror, -⟩ := bind_reports_first_fault hcompile
    ⟨[some (.string "k"), none, some (.boolean true)]⟩ host₂
  rw [herror, hoccurrences]
  refine ⟨rfl, ⟨⟨1, .int, false⟩, .filter, false⟩, by simp, rfl, ?_⟩
  intro o ho hlt
  obtain rfl : o = ⟨⟨0, .string, false⟩, .filter, true⟩ := by
    revert o
    decide
  rfl

/-- Suppose every placeholder has a value of its type. Then the statement binds exactly when the
placeholders that are keys of comparisons are of string type. -/
theorem bind_ok_iff_string_keys {ps : Parameters} (hcompile : d.compile host = (.ok c, host₁))
    (hvalues : ∀ o ∈ c.statement.occurrences,
      ∃ v, ps.values[o.index]? = some (some v) ∧ o.type.accepts v) (host₂ : Host) :
    (∃ handle host₃, c.bind ps host₂ = (.ok handle, host₃)) ↔
      ∀ o ∈ c.statement.occurrences, o.isComparisonKey → o.type = ⟨.string, false⟩ := by
  rw [bind_eq_ok_iff, faultOf_bind_statement hcompile, firstFault, List.findSome?_eq_none_iff]
  refine forall₂_congr fun o ho => ?_
  obtain ⟨v, hv, haccepts⟩ := hvalues o ho
  simp [Occurrence.fault?, hv, haccepts]

theorem bind_ok_of_string_key :
    ∃ (c : Compiled) (host₁ : Host),
      Descriptor.compile ⟨⟨"c", []⟩, "QUERY c WHERE ?s = ?i"⟩ {} = (.ok c, host₁) ∧
      ∀ host₂, ∃ handle host₃, c.bind ⟨[some (.string "k"), some (.int 7)]⟩ host₂ =
        (.ok handle, host₃) := by
  let s : Statement :=
    { kind := .query, category := "c"
      filter := some ⟨some (.compare ⟨.placeholder ⟨0, .string, false⟩, true⟩ .equal
        ⟨.placeholder ⟨1, .int, false⟩, false⟩)⟩
      placeholders := 2 }
  have hparse : parse ⟨"c", []⟩ "QUERY c WHERE ?s = ?i" = .ok s := by decide +kernel
  obtain ⟨c, hc, -, host₁, hcompile⟩ :=
    Descriptor.compile_of_parse (d := ⟨⟨"c", []⟩, _⟩) hparse (by decide +kernel) {}
  have hoccurrences : c.statement.occurrences =
      [⟨⟨0, .string, false⟩, .filter, true⟩, ⟨⟨1, .int, false⟩, .filter, false⟩] := by
    rw [hc]
    decide
  refine ⟨c, host₁, hcompile, fun host₂ => (bind_ok_iff_string_keys hcompile ?_ host₂).mpr ?_⟩
  · rw [hoccurrences]
    simp only [List.forall_mem_cons]
    exact ⟨⟨.string "k", rfl, rfl⟩, ⟨.int 7, rfl, rfl⟩, by simp⟩
  · rw [hoccurrences]
    decide

/-- An integer suits the placeholder of an integer, and is still refused as a key. -/
theorem bind_refuses_int_key :
    ∃ (c : Compiled) (host₁ : Host),
      Descriptor.compile ⟨⟨"cat", []⟩, "QUERY cat WHERE ?i = 1"⟩ {} = (.ok c, host₁) ∧
      (∀ o ∈ c.statement.occurrences,
        ∃ v, [some (Value.int 4)][o.index]? = some (some v) ∧ o.type.accepts v) ∧
      ∀ host₂, c.bind ⟨[some (.int 4)]⟩ host₂ =
        (.error (.misuse (.keyNotString "?i")), host₂) := by
  let s : Statement :=
    { kind := .query, category := "cat"
      filter := some ⟨some (.compare ⟨.placeholder ⟨0, .int, false⟩, true⟩ .equal
        ⟨.literal (.int 1), false⟩)⟩
      placeholders := 1 }
  have hparse : parse ⟨"cat", []⟩ "QUERY cat WHERE ?i = 1" = .ok s := by decide +kernel
  obtain ⟨c, hc, -, host₁, hcompile⟩ :=
    Descriptor.compile_of_parse (d := ⟨⟨"cat", []⟩, _⟩) hparse (by decide +kernel) {}
  have hoccurrences : c.statement.occurrences = [⟨⟨0, .int, false⟩, .filter, true⟩] := by
    rw [hc]
    decide
  refine ⟨c, host₁, hcompile, ?_, fun host₂ => bind_of_error ?_ host₂⟩
  · rw [hoccurrences, List.forall_mem_singleton]
    exact ⟨.int 4, rfl, rfl⟩
  · rw [hc]
    rfl

end Compiled

end CategoryStatements
