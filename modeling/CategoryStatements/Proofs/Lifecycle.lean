import CategoryStatements.Proofs.Acceptance
import CategoryStatements.Proofs.Journal
import CategoryStatements.Proofs.RuleTable

/-! The life of a statement, as the store sees it. Compiling makes one call, which creates the
template, and none if the descriptor is refused. Of the two operations one runs the statements of
a kind and the other refuses them. A run that is refused or does not bind makes no call; any other
ends with one call on a new duplicate, whose answer is passed on. -/
namespace CategoryStatements

/-- The key that the template of a statement is created with: the first of the name that the
statement gives, and none if it gives none. Only aggregates give one, and a `distinct` must. -/
inductive Statement.CreatedWith (s : Statement) (category : Category) : Option Key → Prop
  | unkeyed (absent : s.aggregateKey = none) (optional : s.kind ≠ .distinct) :
      s.CreatedWith category none
  | keyed {key : Key} {before after : List Key} (aggregate : s.kind.isAggregate)
      (named : s.aggregateKey = some key.name) (keys : category.keys = before ++ key :: after)
      (first : ∀ other ∈ before, other.name ≠ key.name) : s.CreatedWith category (some key)

theorem Category.key?_eq_some {category : Category} {name : String} {key : Key} :
    category.key? name = some key ↔ key.name = name ∧ ∃ before after,
      category.keys = before ++ key :: after ∧ ∀ other ∈ before, other.name ≠ name := by
  simp [key?, List.find?_eq_some_iff_append]

/-- A statement leaves no choice of the key. -/
theorem Statement.CreatedWith.unique {s : Statement} {category : Category} {key key' : Option Key}
    (h : s.CreatedWith category key) (h' : s.CreatedWith category key') : key = key' := by
  cases h with
  | unkeyed absent =>
    cases h' with
    | unkeyed => rfl
    | keyed _ named => simp [absent] at named
  | @keyed key before after _ named keys first =>
    have hfound : category.key? key.name = some key :=
      Category.key?_eq_some.mpr ⟨rfl, before, after, keys, first⟩
    cases h' with
    | unkeyed absent => simp [absent] at named
    | @keyed key' before' after' _ named' keys' first' =>
      have hname : key.name = key'.name := Option.some.inj (named.symm.trans named')
      have hfound' : category.key? key'.name = some key' :=
        Category.key?_eq_some.mpr ⟨rfl, before', after', keys', first'⟩
      rw [← hfound, ← hfound', hname]

theorem Category.exists_key?_of_declares {category : Category} {name : String}
    (h : category.Declares name) : ∃ key, category.key? name = some key := by
  obtain ⟨key, hmem, hname⟩ := h
  exact Option.isSome_iff_exists.mp (List.find?_isSome.mpr ⟨key, hmem, by simpa using hname⟩)

theorem Kind.aggregateKeyKnown_mem_rules {kind : Kind} (h : kind.isAggregate) :
    Rule.aggregateKeyKnown ∈ kind.rules := by
  cases kind with
  | count | distinct => decide
  | query | add | replace | update | remove => cases h

/-- Only aggregates are spelled with a key. -/
theorem KindToken.isAggregate {text name : String} {kind : Kind}
    (h : KindToken text (kind, some name)) : kind.isAggregate := by
  cases h with
  | keyed aggregate => exact Kind.isAggregate_iff.mpr aggregate

namespace Statement

variable {s : Statement} {category : Category} {text : String}

theorem isAggregate_of_parse {name : String} (hparse : parse category text = .ok s)
    (hname : s.aggregateKey = some name) : s.kind.isAggregate := by
  obtain ⟨phrase, -, rfl⟩ := parseTokens_eq_ok.mp hparse
  have hreading : phrase.kind.reading = (phrase.statement.kind, some name) := Prod.ext rfl hname
  exact (hreading ▸ phrase.kind.derives).isAggregate

/-- What a statement passes when its template is created. The lookup would drop a key that the
category does not declare, but a rule has refused those. -/
theorem createdWith_templateKey? (hparse : parse category text = .ok s)
    (hrules : ∀ rule ∈ s.kind.rules, rule.Holds s category) :
    s.CreatedWith category (s.templateKey? category) := by
  cases hname : s.aggregateKey with
  | none =>
    have hkey : s.templateKey? category = none := by simp [templateKey?, hname]
    rw [hkey]
    refine .unkeyed hname ?_
    intro hkind
    exact hrules .aggregateKeyRequired (by rw [hkind]; decide) hname
  | some name =>
    have haggregate := isAggregate_of_parse hparse hname
    have hdeclared : category.Declares name :=
      hrules _ (Kind.aggregateKeyKnown_mem_rules haggregate) name hname
    obtain ⟨key, hkey⟩ := Category.exists_key?_of_declares hdeclared
    obtain ⟨rfl, before, after, hkeys, hfirst⟩ := Category.key?_eq_some.mp hkey
    have htemplate : s.templateKey? category = some key := by
      simp [templateKey?, haggregate, hname, hkey]
    rw [htemplate]
    exact .keyed haggregate hname hkeys hfirst

end Statement

theorem Descriptor.createdWith_of_check {d : Descriptor} {s : Statement} (h : d.check = .ok s) :
    s.CreatedWith d.category (s.templateKey? d.category) := by
  rw [check] at h
  split at h
  · cases h
  · next hparse =>
    split at h
    · cases h
    · next hrules =>
      cases h
      exact Statement.createdWith_templateKey? hparse
        (Statement.violation?_eq_none.mp (Statement.validate_eq_ok.mp hrules))

namespace Operation

/-- The operation that runs the statements of a kind. -/
def ofKind (kind : Kind) : Operation := if kind.isQuery then executeQuery else execute

def call : Operation → Handle → Call
  | execute => .execute
  | executeQuery => .executeQuery

def note : Operation → String → Note
  | execute => .executingWrite
  | executeQuery => .executingQuery

end Operation

/-- The answer of the store as a prepared statement returns it. -/
def passOn {α : Type} (answer : Except StorageFault α × Host) : Except ExecutionFault α × Host :=
  (answer.1.mapError .storage, answer.2)

theorem passOn_ne_illegal {α : Type} (answer : Except StorageFault α × Host)
    (operation : Operation) (kind : Kind) :
    (passOn answer).1 ≠ .error (.illegal operation kind) := by
  obtain ⟨_ | _, _⟩ := answer <;> simp [passOn, Except.mapError]

namespace Prepared

variable {α : Type} {p : Prepared} {operation : Operation}
  {run : Host → Handle → Except StorageFault α × Host}

/-- Both operations at once, without a second look at the kind of what is bound. -/
def runBy (p : Prepared) (operation : Operation)
    (run : Host → Handle → Except StorageFault α × Host) (host : Host) :
    Except ExecutionFault α × Host :=
  if Operation.ofKind p.compiled.kind = operation then
    match p.bind host with
    | (.error fault, host) => (.error (.binding fault), host)
    | (.ok copy, host) => passOn (run (host.note (operation.note p.compiled.render)) copy)
  else (.error (.illegal operation p.compiled.kind), host)

/-- A duplicate has the kind of its template, and so that of the statement. -/
theorem copy_of_bind (hkind : p.compiled.template.kind = p.compiled.kind) {host next : Host}
    {copy : Handle} (h : p.bind host = (.ok copy, next)) :
    copy = ⟨host.nextId, p.compiled.kind⟩ := by
  rw [(Compiled.bind_eq_ok h).1, hkind]

theorem execute_eq_runBy (hkind : p.compiled.template.kind = p.compiled.kind) (host : Host) :
    p.execute host = p.runBy .execute Host.execute host := by
  rw [execute, runBy, Operation.ofKind]
  cases hquery : p.compiled.kind.isQuery with
  | true => rfl
  | false =>
    simp only [Bool.false_eq_true, if_false, if_true]
    cases hbind : p.bind host with
    | mk result next =>
      cases result with
      | error fault => rfl
      -- what is bound is a write too, so the second check lets it pass
      | ok copy =>
        have hcopy : copy.kind = p.compiled.kind := by rw [copy_of_bind hkind hbind]
        simp only [hcopy, hquery, Bool.false_eq_true, if_false, Operation.note]
        rcases (next.note (.executingWrite p.compiled.render)).execute copy with ⟨_ | _, _⟩ <;> rfl

theorem executeQuery_eq_runBy (hkind : p.compiled.template.kind = p.compiled.kind)
    (host : Host) : p.executeQuery host = p.runBy .executeQuery Host.executeQuery host := by
  rw [executeQuery, runBy, Operation.ofKind]
  cases hquery : p.compiled.kind.isQuery with
  | false => rfl
  | true =>
    simp only [if_true]
    cases hbind : p.bind host with
    | mk result next =>
      cases result with
      | error fault => rfl
      | ok copy =>
        have hcopy : copy.kind = p.compiled.kind := by rw [copy_of_bind hkind hbind]
        simp only [hcopy, hquery, if_true, Operation.note]
        rcases (next.note (.executingQuery p.compiled.render)).executeQuery copy with
          ⟨_ | _, _⟩ <;> rfl

/-- What an operation does with a prepared statement. -/
structure Runs (p : Prepared) (operation : Operation)
    (run : Host → Handle → Except StorageFault α × Host) (host : Host)
    (outcome : Except ExecutionFault α × Host) : Prop where
  /-- The operation of the other kinds is refused, whatever the parameters are. -/
  refused : Operation.ofKind p.compiled.kind ≠ operation →
    outcome = (.error (.illegal operation p.compiled.kind), host)
  unbound : Operation.ofKind p.compiled.kind = operation → ∀ fault next,
    p.bind host = (.error fault, next) → outcome = (.error (.binding fault), host)
  bound : Operation.ofKind p.compiled.kind = operation → ∀ copy next,
    p.bind host = (.ok copy, next) →
      outcome = passOn (run (next.note (operation.note p.compiled.render)) copy) ∧
      copy = ⟨host.nextId, p.compiled.kind⟩ ∧
      ∃ b, p.compiled.statement.bind p.parameters = .ok b ∧
        outcome.2.calls = host.calls ++ p.compiled.bindCalls b copy ++ [operation.call copy]
  refused_only : ∀ other kind, outcome.1 = .error (.illegal other kind) →
    Operation.ofKind p.compiled.kind ≠ operation

theorem host_of_bind_error {host next : Host} {fault : BindingFault}
    (h : p.bind host = (.error fault, next)) : next = host := by
  rw [bind, Compiled.bind] at h
  split at h <;> cases h
  rfl

theorem runs_runBy (hkind : p.compiled.template.kind = p.compiled.kind)
    (hrun : ∀ host copy, (run host copy).2.calls = host.calls ++ [operation.call copy])
    (host : Host) : p.Runs operation run host (p.runBy operation run host) := by
  have hbound {copy : Handle} {next : Host}
      (hsame : Operation.ofKind p.compiled.kind = operation)
      (hbind : p.bind host = (.ok copy, next)) : p.runBy operation run host =
        passOn (run (next.note (operation.note p.compiled.render)) copy) := by
    rw [runBy, if_pos hsame, hbind]
  refine ⟨?_, ?_, ?_, ?_⟩
  · intro hother
    rw [runBy, if_neg hother]
  · intro hsame fault next hbind
    rw [runBy, if_pos hsame, hbind, host_of_bind_error hbind]
  · intro hsame copy next hbind
    obtain ⟨hcopy, b, hb, hcalls⟩ := Compiled.bind_eq_ok hbind
    refine ⟨hbound hsame hbind, copy_of_bind hkind hbind, b, hb, ?_⟩
    rw [hbound hsame hbind, passOn, hrun, Host.calls_note, hcalls, Compiled.bindCalls, hcopy]
  · intro other kind hillegal hsame
    cases hbind : p.bind host with
    | mk result next =>
      cases result with
      | error fault =>
        rw [runBy, if_pos hsame, hbind] at hillegal
        cases hillegal
      | ok copy =>
        rw [hbound hsame hbind] at hillegal
        exact passOn_ne_illegal _ _ _ hillegal

end Prepared

theorem Descriptor.calls_compile_of_error {d : Descriptor} {fault : DescriptorFault}
    (h : d.check = .error fault) (host : Host) :
    ∃ next, d.compile host = (.error fault, next) ∧ next.calls = host.calls := by
  obtain ⟨next, hcompile, hmakes⟩ := compile_of_error h host
  exact ⟨next, hcompile, by simpa using hmakes.calls_eq⟩

/-- A statement from its text to its runs. A descriptor is refused without a call, or else one
call creates a template of the statement's own kind and category. Whatever the parameters and the
state of the store, the operation of the other kinds is refused without a call, and so are
parameters that do not bind. What binds is run once on a new duplicate, after all that the
duplicate is told, and the answer is passed on. -/
theorem statement_life (d : Descriptor) (host : Host) :
    (∀ fault, parse d.category d.text = .error fault →
      ∃ next, d.compile host = (.error (.grammar fault), next) ∧ next.calls = host.calls) ∧
    (∀ s fault, parse d.category d.text = .ok s → s.validate d.category = .error fault →
      ∃ next, d.compile host = (.error fault, next) ∧ next.calls = host.calls) ∧
    ∀ s, parse d.category d.text = .ok s → s.validate d.category = .ok () →
      ∃ c next key, d.compile host = (.ok c, next) ∧
        next.calls = host.calls ++ [.create ⟨host.nextId, s.kind⟩ d.category key] ∧
        s.CreatedWith d.category key ∧
        c = ⟨d, s, ⟨host.nextId, s.kind⟩⟩ ∧
        ∀ (p : Prepared) (later : Host), p.compiled = c →
          p.Runs .execute Host.execute later (p.execute later) ∧
          p.Runs .executeQuery Host.executeQuery later (p.executeQuery later) := by
  refine ⟨?_, ?_, ?_⟩
  · intro fault hparse
    have hcheck : d.check = .error (.grammar fault) := by simp [Descriptor.check, hparse]
    exact Descriptor.calls_compile_of_error hcheck host
  · intro s fault hparse hbroken
    have hcheck : d.check = .error fault := by simp [Descriptor.check, hparse, hbroken]
    exact Descriptor.calls_compile_of_error hcheck host
  · intro s hparse hrules
    have hcheck : d.check = .ok s := by simp [Descriptor.check, hparse, hrules]
    obtain ⟨next, hcompile, hmakes⟩ := Descriptor.compile_of_ok hcheck host
    refine ⟨_, next, _, hcompile, hmakes.calls_eq, Descriptor.createdWith_of_check hcheck, rfl, ?_⟩
    intro p later hcompiled
    have hkind : p.compiled.template.kind = p.compiled.kind := by rw [hcompiled]; rfl
    constructor
    · rw [Prepared.execute_eq_runBy hkind]
      exact Prepared.runs_runBy hkind (fun host copy => (host.makes_execute copy).calls_eq) later
    · rw [Prepared.executeQuery_eq_runBy hkind]
      exact Prepared.runs_runBy hkind (fun host copy => (host.makes_executeQuery copy).calls_eq)
        later

/-- The distinct values of a key that is declared twice, up to a limit. Without the limit nothing
reaches the store, and a store that is down is asked once and says so. -/
theorem statement_life_distinct :
    let d : Descriptor := ⟨⟨"c", [⟨"k", none⟩, ⟨"k", some ⟨.int, false⟩⟩]⟩,
      "QUERY-DISTINCT(k) c LIMIT ?i"⟩
    let later : Host := { nextId := 1, behaviour := { failure := some (.backend "down") } }
    let copy : Handle := ⟨1, .distinct⟩
    ∃ c next, d.compile {} = (.ok c, next) ∧
      next.calls = [.create ⟨0, .distinct⟩ d.category (some ⟨"k", none⟩)] ∧
      Prepared.execute ⟨c, ⟨[none]⟩⟩ later = (.error (.illegal .execute .distinct), later) ∧
      Prepared.executeQuery ⟨c, ⟨[none]⟩⟩ later = (.error (.binding (.unbound 0)), later) ∧
      (Prepared.executeQuery ⟨c, ⟨[some (.int 5)]⟩⟩ later).1 =
        .error (.storage (.backend "down")) ∧
      (Prepared.executeQuery ⟨c, ⟨[some (.int 5)]⟩⟩ later).2.calls =
        [.duplicate c.template copy, .direct copy (.limit 5), .executeQuery copy] := by
  intro d later copy
  let s : Statement :=
    { kind := .distinct, category := "c", aggregateKey := some "k"
      limit := some ⟨.placeholder ⟨0, .int, false⟩, false⟩, placeholders := 1 }
  have hparse : parse d.category d.text = .ok s := by decide +kernel
  have hrules : s.validate d.category = .ok () := by decide +kernel
  obtain ⟨c, next, key, hcompile, hcalls, hcreated, rfl, hruns⟩ :=
    (statement_life d {}).2.2 s hparse hrules
  have hkey : key = some ⟨"k", none⟩ := by
    cases hcreated with
    | unkeyed absent => cases absent
    | @keyed key before _ _ named keys first =>
      cases before with
      | nil => rw [(List.cons.inj keys).1]
      | cons other before =>
        obtain ⟨rfl, -⟩ := List.cons.inj keys
        exact absurd (Option.some.inj named) (first _ (List.mem_cons_self ..))
  obtain ⟨hexecute, hquery⟩ := hruns ⟨_, ⟨[none]⟩⟩ later rfl
  obtain ⟨-, hquery'⟩ := hruns ⟨_, ⟨[some (.int 5)]⟩⟩ later rfl
  obtain ⟨hran, -, b, hb, hcalls'⟩ := hquery'.bound rfl copy _ rfl
  refine ⟨_, next, hcompile, ?_, hexecute.refused (by decide), hquery.unbound rfl _ _ rfl, ?_, ?_⟩
  · rw [hcalls, hkey]
    rfl
  · rw [hran]
    rfl
  · rw [hcalls']
    cases hb
    rfl

end CategoryStatements
