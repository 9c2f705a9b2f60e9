import CategoryStatements.Proofs.Lifecycle
import CategoryStatements.Proofs.Soundness

/-! Lookups through the cache against compiling afresh. Reading a text needs the name of its
category, and the rules of a statement need the names of the keys, so that descriptors that agree
describe one statement. An entry was compiled for a descriptor that agrees with the one looked up,
whatever went on before; it may differ from a fresh one only by the types that keys declare. -/
namespace CategoryStatements

namespace Category

variable {a b : Category}

theorem agrees_iff : a.agrees b = true ↔
    a.name = b.name ∧ a.keys.map Key.name = b.keys.map Key.name := by
  simp [agrees]

theorem name_key? (h : a.keys.map Key.name = b.keys.map Key.name) (name : String) :
    (a.key? name).map Key.name = (b.key? name).map Key.name := by
  have hfind (category : Category) : (category.key? name).map Key.name =
      (category.keys.map Key.name).find? fun n => n = name := by
    rw [List.find?_map]
    rfl
  rw [hfind, hfind, h]

theorem hasKey_congr (h : a.keys.map Key.name = b.keys.map Key.name) (name : String) :
    a.hasKey name = b.hasKey name := by
  have hkey := congrArg Option.isSome (name_key? h name)
  rwa [Option.isSome_map, Option.isSome_map] at hkey

theorem keyNames_congr (h : a.keys.map Key.name = b.keys.map Key.name) :
    a.keyNames = b.keyNames := by
  rw [keyNames, keyNames, h]

end Category

section Congruence

variable {a b : Category}

/-- Reading a text asks only for the name of the category. -/
theorem parse_congr (h : a.name = b.name) (text : String) : parse a text = parse b text := by
  have hname : Reader.categoryName a = Reader.categoryName b := by
    unfold Reader.categoryName
    rw [h]
  have hstatement : Reader.statement a = Reader.statement b := by
    unfold Reader.statement
    rw [hname]
  rw [parse, parse, parseTokens, parseTokens, hstatement]

theorem Statement.violation?_congr (h : a.agrees b = true) (s : Statement) :
    s.violation? a = s.violation? b := by
  obtain ⟨hname, hkeys⟩ := Category.agrees_iff.mp h
  have hrule (rule : Rule) : rule.violation? s a = rule.violation? s b := by
    cases rule with
    | setKeysExact => simp only [Rule.violation?, Category.keyNames_congr hkeys]
    | setKeysKnown => simp only [Rule.violation?, Category.hasKey_congr hkeys]
    | aggregateKeyKnown => simp only [Rule.violation?, Category.hasKey_congr hkeys, hname]
    | _ => rfl
  simp only [violation?, hrule]

theorem Statement.name_templateKey? (h : a.agrees b = true) (s : Statement) :
    (s.templateKey? a).map Key.name = (s.templateKey? b).map Key.name := by
  obtain ⟨-, hkeys⟩ := Category.agrees_iff.mp h
  unfold templateKey?
  split
  · cases s.aggregateKey with
    | none => rfl
    | some name => exact Category.name_key? hkeys name
  · rfl

theorem Descriptor.agrees_iff {d e : Descriptor} : d.agrees e = true ↔
    d.category.agrees e.category = true ∧ d.text = e.text := by
  simp [agrees]

theorem Descriptor.agrees_refl (d : Descriptor) : d.agrees d = true :=
  agrees_iff.mpr ⟨Category.agrees_iff.mpr ⟨rfl, rfl⟩, rfl⟩

/-- Descriptors that agree describe one statement, or are refused for one reason. -/
theorem Descriptor.check_congr {d e : Descriptor} (h : d.agrees e = true) : d.check = e.check := by
  obtain ⟨hcategory, htext⟩ := agrees_iff.mp h
  have hname := (Category.agrees_iff.mp hcategory).1
  have hvalidate (s : Statement) : s.validate d.category = s.validate e.category := by
    rw [Statement.validate, Statement.validate, Statement.violation?_congr hcategory]
  rw [check, check, htext, parse_congr hname]
  cases parse e.category e.text with
  | error fault => rfl
  | ok s =>
    dsimp only
    rw [hvalidate]

end Congruence

theorem Descriptor.statement_compile (d : Descriptor) (host : Host) :
    (d.compile host).1.map Compiled.statement = d.check := by
  cases hcheck : d.check with
  | error fault =>
    obtain ⟨next, hcompile, -⟩ := compile_of_error hcheck host
    rw [hcompile]
    rfl
  | ok s =>
    obtain ⟨next, hcompile, -⟩ := compile_of_ok hcheck host
    rw [hcompile]
    rfl

namespace Compiled

/-- Binding tells a new duplicate of the template these things. -/
def Tells (c : Compiled) (ps : Parameters) (host : Host) (directives : List Directive) : Prop :=
  ∃ copy next, c.bind ps host = (.ok copy, next) ∧
    next.calls = host.calls ++ .duplicate c.template copy :: directives.map (.direct copy)

/-- Whatever the parameters, two statements fail for one reason and ask nothing of the store, or
tell it the same. -/
def BindsLike (c c' : Compiled) : Prop :=
  ∀ (ps : Parameters) (host host' : Host),
    (∃ fault, c.bind ps host = (.error fault, host) ∧ c'.bind ps host' = (.error fault, host')) ∨
    ∃ directives, c.Tells ps host directives ∧ c'.Tells ps host' directives

theorem bindsLike_of_statement {c c' : Compiled} (hstatement : c.statement = c'.statement)
    (hkind : c.template.kind = c'.template.kind) : c.BindsLike c' := by
  intro ps host host'
  cases hb : c.statement.bind ps with
  | error fault =>
    exact .inl ⟨fault, bind_of_error hb host, bind_of_error (hstatement ▸ hb) host'⟩
  | ok b =>
    obtain ⟨next, hbind, hcalls⟩ := bind_of_ok hb host
    obtain ⟨next', hbind', hcalls'⟩ := bind_of_ok (hstatement ▸ hb) host'
    rw [← hkind] at hbind' hcalls'
    exact .inr ⟨b.directives c.template.kind, ⟨_, next, hbind, hcalls⟩, _, next', hbind', hcalls'⟩

end Compiled

/-- Two outcomes of preparing a statement that cannot be told apart: one fault, or one statement
with equal parameters that binds alike. -/
inductive PreparesLike : Except ExecutionFault Prepared → Except ExecutionFault Prepared → Prop
  | refused (fault : ExecutionFault) : PreparesLike (.error fault) (.error fault)
  | prepared {p q : Prepared} (statement : p.compiled.statement = q.compiled.statement)
      (parameters : p.parameters = q.parameters) (binds : p.compiled.BindsLike q.compiled) :
      PreparesLike (.ok p) (.ok q)

namespace Session.Sound

variable {s : Session} {d : Descriptor} {c : Compiled}

theorem check_of_get? (hs : s.Sound) (h : s.cache.get? d = some c) : d.check = .ok c.statement := by
  rw [← Descriptor.check_congr (Cache.agrees_of_get? h)]
  exact (hs.backed c (knows_of_get? h)).checked

/-- A lookup yields the statement that the descriptor describes, or the reason to refuse it. -/
theorem statement_getOrCompile (hs : s.Sound) (d : Descriptor) :
    (s.cache.getOrCompile d s.host).1.map Compiled.statement = d.check := by
  obtain ⟨c, hget, h⟩ | ⟨-, fault, next, hcheck, h, -⟩ | ⟨-, statement, next, hcheck, h, -⟩ :=
    s.cache.getOrCompile_cases d s.host
  · rw [h, hs.check_of_get? hget]
    rfl
  · rw [h, hcheck]
    rfl
  · rw [h, hcheck]
    rfl

/-- A statement prepared through the cache cannot be told from one that is prepared without. -/
theorem preparesLike (hs : s.Sound) (d : Descriptor) (elsewhere : Host) :
    PreparesLike (s.cache.prepare d s.host).1 (Prepared.prepare d elsewhere).1 := by
  obtain ⟨c, hget, h⟩ | ⟨-, fault, next, hcheck, h, -⟩ | ⟨-, statement, next, hcheck, h, -⟩ :=
    s.cache.getOrCompile_cases d s.host
  · obtain ⟨other, hprepare, -⟩ := Prepared.prepare_of_ok (hs.check_of_get? hget) elsewhere
    have hkind : c.template.kind = c.kind := (hs.backed c (knows_of_get? hget)).kind
    rw [Cache.prepare, h, hprepare]
    exact .prepared rfl rfl (Compiled.bindsLike_of_statement rfl hkind)
  · obtain ⟨other, hprepare, -⟩ := Prepared.prepare_of_error hcheck elsewhere
    rw [Cache.prepare, h, hprepare]
    exact .refused _
  · obtain ⟨other, hprepare, -⟩ := Prepared.prepare_of_ok hcheck elsewhere
    rw [Cache.prepare, h, hprepare]
    exact .prepared rfl rfl (Compiled.bindsLike_of_statement rfl rfl)

end Session.Sound

/-- The cache is transparent. After any commands, a lookup yields the statement that compiling
afresh would, or is refused for the same reason; what is prepared through the cache has as many
parameters and binds as it would without; and what is found is the statement described. -/
theorem Session.cache_transparent (capacity : Nat) (behaviour : Behaviour)
    (commands : List Command) (d : Descriptor) (elsewhere : Host) :
    let s := ((fresh capacity behaviour).run commands).2
    (s.cache.getOrCompile d s.host).1.map Compiled.statement =
        (d.compile elsewhere).1.map Compiled.statement ∧
      PreparesLike (s.cache.prepare d s.host).1 (Prepared.prepare d elsewhere).1 ∧
      ∀ c, s.cache.get? d = some c →
        (d.compile elsewhere).1.map Compiled.statement = .ok c.statement := by
  intro s
  have hs : s.Sound := (sound_fresh capacity behaviour).run commands
  have hcompile := d.statement_compile elsewhere
  refine ⟨?_, hs.preparesLike d elsewhere, fun c hc => ?_⟩
  · rw [hs.statement_getOrCompile, hcompile]
  · rw [hcompile]
    exact hs.check_of_get? hc

/-- A compiled statement suits a descriptor: it was read from the same text for a category of the
same name and with the same names of keys, and the one call that yields its template hands over
that category, with the aggregate key as that category declares it. The descriptor's own category
has the key under the same name. -/
structure Compiled.MadeFor (c : Compiled) (d : Descriptor) (calls : List Call) : Prop where
  text : c.descriptor.text = d.text
  name : c.descriptor.category.name = d.category.name
  keys : c.descriptor.category.keys.map Key.name = d.category.keys.map Key.name
  checked : c.descriptor.check = .ok c.statement
  created : ∃ key own, (calls.filter fun call => call.issued? = some c.template) =
      [.create c.template c.descriptor.category key] ∧
    c.statement.CreatedWith c.descriptor.category key ∧
    c.statement.CreatedWith d.category own ∧ key.map Key.name = own.map Key.name

/-- Stored after a miss, a statement is found for every descriptor that agrees. -/
theorem Cache.get?_store {cache : Cache} (hcapacity : cache.capacity ≠ 0) {c : Compiled}
    (hmiss : cache.get? c.descriptor = none) {d : Descriptor}
    (h : c.descriptor.agrees d = true) :
    (cache.store c.descriptor c).2.1.get? d = some c := by
  obtain ⟨hcategory, htext⟩ := Descriptor.agrees_iff.mp h
  have hkey : c.descriptor.cacheKey = d.cacheKey := by
    rw [Descriptor.cacheKey, Descriptor.cacheKey, (Category.agrees_iff.mp hcategory).1, htext]
  have hpush (cache : Cache) : (cache.push c.descriptor.cacheKey c).1.get? d = some c := by
    rw [get?, push, hkey, Std.HashMap.getElem?_insert_self]
    exact Option.filter_eq_some_iff.mpr ⟨rfl, h⟩
  rw [store, if_neg hcapacity]
  split
  · exact hpush cache
  · next existing hfound =>
    have hother : ¬existing.descriptor.agrees c.descriptor := by
      simpa [get?, hfound] using hmiss
    rw [if_neg hother]
    exact hpush _

namespace Session

variable {s : Session} {d : Descriptor} {c : Compiled}

/-- What a lookup yields was found or is compiled for the descriptor itself. -/
theorem get?_or_of_getOrCompile (h : (s.cache.getOrCompile d s.host).1 = .ok c) :
    s.cache.get? d = some c ∨ c.descriptor = d := by
  obtain ⟨c', hget, hlook⟩ | ⟨-, fault, next, -, hlook, -⟩ | ⟨-, statement, next, -, hlook, -⟩ :=
    s.cache.getOrCompile_cases d s.host
  · rw [hlook] at h
    cases h
    exact .inl hget
  · rw [hlook] at h
    cases h
  · rw [hlook] at h
    cases h
    exact .inr rfl

theorem Sound.madeFor (hs : s.Sound) (hbacked : c.Backed s.host.calls)
    (h : c.descriptor.agrees d = true) : c.MadeFor d s.host.calls := by
  obtain ⟨hcategory, htext⟩ := Descriptor.agrees_iff.mp h
  obtain ⟨hname, hkeys⟩ := Category.agrees_iff.mp hcategory
  have hown : d.check = .ok c.statement := by
    rw [← Descriptor.check_congr h]
    exact hbacked.checked
  exact ⟨htext, hname, hkeys, hbacked.checked, _, _,
    filter_issued? hs.nodup_issued hbacked.created rfl,
    Descriptor.createdWith_of_check hbacked.checked, Descriptor.createdWith_of_check hown,
    c.statement.name_templateKey? hcategory⟩

/-- All entries of the cache were compiled for some of these descriptors. -/
def CachedFor (s : Session) (descriptors : List Descriptor) : Prop :=
  ∀ (key : CacheKey) (c : Compiled), s.cache.entries[key]? = some c → c.descriptor ∈ descriptors

theorem cachedFor_run (capacity : Nat) (behaviour : Behaviour) (commands : List Command) :
    ((fresh capacity behaviour).run commands).2.CachedFor
      (commands.filterMap Command.lookup?) := by
  refine run_keeps (P := fun s => s.CachedFor _) (fun s command hcommand hs key c hfound => ?_) ?_
  · rcases cached_of_step hfound with hfound | ⟨d, hlookup, rfl, -⟩
    · exact hs key c hfound
    · exact List.mem_filterMap.mpr ⟨command, hcommand, hlookup⟩
  · intro key c hfound
    simp [fresh] at hfound

/-- The cache serves by names. After any commands, what is found for a descriptor was compiled
from its text for a category with its name and its names of keys, in order; and what a lookup
yields was compiled for the very descriptor or for one that was looked up before, so that the
types of its keys are those declared there. -/
theorem cache_serves_by_names (capacity : Nat) (behaviour : Behaviour) (commands : List Command)
    (d : Descriptor) :
    let s := ((fresh capacity behaviour).run commands).2
    (∀ c, s.cache.get? d = some c →
      c.MadeFor d s.host.calls ∧ c.descriptor ∈ commands.filterMap Command.lookup?) ∧
    ∀ c, (s.cache.getOrCompile d s.host).1 = .ok c →
      c.MadeFor d (s.cache.getOrCompile d s.host).2.2.calls ∧
        (c.descriptor = d ∨ c.descriptor ∈ commands.filterMap Command.lookup?) := by
  intro s
  have hs : s.Sound := (sound_fresh capacity behaviour).run commands
  have hcached := cachedFor_run capacity behaviour commands
  have hfound (c : Compiled) (hget : s.cache.get? d = some c) :
      c.MadeFor d s.host.calls ∧ c.descriptor ∈ commands.filterMap Command.lookup? :=
    ⟨hs.madeFor (hs.backed c (knows_of_get? hget)) (Cache.agrees_of_get? hget),
      hcached _ c (Cache.getElem?_of_get? hget)⟩
  refine ⟨hfound, fun c hc => ?_⟩
  -- the lookup as a command, so that all that holds of sessions holds after it
  have hlookup : (Command.cacheCompile d).lookup? = some d := rfl
  have hnext := hs.step (.cacheCompile d)
  have hsub := hs.subset_step (.cacheCompile d)
  rw [(step_of_lookup? hlookup).2] at hsub
  have hbacked : c.Backed (s.cache.getOrCompile d s.host).2.2.calls :=
    (knows_of_getOrCompile hc).elim (fun hknown => (hs.backed c hknown).mono hsub) id
  rw [← (step_of_lookup? hlookup).2] at hbacked ⊢
  rcases get?_or_of_getOrCompile hc with hget | hnew
  · exact ⟨hnext.madeFor hbacked (Cache.agrees_of_get? hget), .inr (hfound c hget).2⟩
  · have hagrees : c.descriptor.agrees d = true := hnew ▸ c.descriptor.agrees_refl
    exact ⟨hnext.madeFor hbacked hagrees, .inl hnew⟩

/-- What the first lookup of all leaves behind, for descriptors that agree with its own. -/
theorem get?_of_first_lookup (capacity : Nat) (hcapacity : capacity ≠ 0) (behaviour : Behaviour)
    {d e : Descriptor} {statement : Statement} (hcheck : d.check = .ok statement)
    (h : d.agrees e = true) :
    let s := ((fresh capacity behaviour).run [.cacheCompile d]).2
    s.cache.get? e = some ⟨d, statement, ⟨0, statement.kind⟩⟩ ∧
      s.host.calls = [.create ⟨0, statement.kind⟩ d.category
        (statement.templateKey? d.category)] := by
  have hlookup : (Command.cacheCompile d).lookup? = some d := rfl
  obtain ⟨hcache, hhost⟩ := step_of_lookup? (s := fresh capacity behaviour) hlookup
  have hrun : ((fresh capacity behaviour).run [.cacheCompile d]).2 =
      ((fresh capacity behaviour).step (.cacheCompile d)).2 := rfl
  have hempty : (fresh capacity behaviour).cache.get? d = none := by simp [fresh, Cache.get?]
  obtain ⟨c, hget, -⟩ | ⟨-, fault, -, hfault, -⟩ | ⟨-, statement', next, hcheck', hlook, hmakes⟩ :=
    (fresh capacity behaviour).cache.getOrCompile_cases d (fresh capacity behaviour).host
  · rw [hempty] at hget
    cases hget
  · rw [hcheck] at hfault
    cases hfault
  · obtain rfl : statement = statement' := Except.ok.inj (hcheck.symm.trans hcheck')
    constructor
    · rw [hrun, hcache, hlook]
      exact Cache.get?_store (c := ⟨d, statement, ⟨0, statement.kind⟩⟩) hcapacity hempty h
    · rw [hrun, hhost, hlook, hmakes.calls_eq]
      rfl

/-- The distinct values of a key, whatever type it declares. -/
def distinctValues (element : Element) : Descriptor :=
  ⟨⟨"c", [⟨"k", some ⟨element, false⟩⟩]⟩, "QUERY-DISTINCT(k) c"⟩

theorem check_distinctValues (element : Element) : (distinctValues element).check =
    .ok { kind := .distinct, category := "c", aggregateKey := some "k" } := by
  have hagrees : (distinctValues element).agrees (distinctValues .long) = true := by
    cases element <;> decide
  rw [Descriptor.check_congr hagrees]
  decide +kernel

theorem cache_serves_by_names_retyped :
    let s := ((fresh 256 {}).run [.cacheCompile (distinctValues .long)]).2
    ∃ c, s.cache.get? (distinctValues .string) = some c ∧
      c.MadeFor (distinctValues .string) s.host.calls ∧ c.descriptor = distinctValues .long := by
  intro s
  obtain ⟨hget, -⟩ := get?_of_first_lookup 256 (by decide) {} (check_distinctValues .long)
    (e := distinctValues .string) (by decide)
  obtain ⟨hmade, -⟩ := (cache_serves_by_names 256 {} [.cacheCompile (distinctValues .long)]
    (distinctValues .string)).1 _ hget
  exact ⟨_, hget, hmade, rfl⟩

/-- A key that declares another type now is served as it was declared before: neither the category
nor the type of the aggregate key is the one asked for. -/
theorem cache_serves_other_types :
    let asked := distinctValues .string
    let s := ((fresh 256 {}).run [.cacheCompile (distinctValues .long)]).2
    ∃ c, s.cache.get? asked = some c ∧ (s.cache.getOrCompile asked s.host).1 = .ok c ∧
      c.descriptor.category ≠ asked.category ∧
      ∀ category key,
        .create c.template category key ∈ (s.cache.getOrCompile asked s.host).2.2.calls →
          ¬c.statement.CreatedWith asked.category key := by
  intro asked s
  obtain ⟨hget, hcalls⟩ := get?_of_first_lookup 256 (by decide) {} (check_distinctValues .long)
    (e := asked) (by decide)
  refine ⟨_, hget, by rw [Cache.getOrCompile_of_get? hget], by decide, fun category key hmem => ?_⟩
  rw [Cache.getOrCompile_of_get? hget, Host.calls_note, hcalls, List.mem_singleton] at hmem
  cases hmem
  intro hasked
  have hown := Descriptor.createdWith_of_check (check_distinctValues .string)
  exact absurd (hasked.unique hown) (by decide)

end Session
end CategoryStatements
