import CategoryStatements.Cache

/-! Sessions: one host, one cache, and prepared statements in named slots, driven by commands. -/
namespace CategoryStatements

structure Session where
  host : Host := {}
  cache : Cache := {}
  slots : List (String × Prepared) := []

/-- What to do with a bound statement: run it, and run a duplicate of it. -/
structure FollowUp where
  run : Bool := false
  rerun : Bool := false

/-- New settings of the store. What is absent stays as it is. -/
structure Setting where
  failure : Option (Option StorageFault) := none
  affected : Option Nat := none
  rows : Option (List Row) := none

def Behaviour.change (b : Behaviour) (s : Setting) : Behaviour where
  failure := s.failure.getD b.failure
  affected := s.affected.getD b.affected
  rows := s.rows.getD b.rows

inductive Command
  | prepare (slot : String) (d : Descriptor)
  | cachePrepare (slot : String) (d : Descriptor)
  | cacheCompile (d : Descriptor)
  | cacheGet (d : Descriptor)
  | cacheInfo
  | cacheClear
  | share (slot source : String)
  | clone (slot source : String)
  | describe (slot : String)
  | set (slot : String) (index : Nat) (offer : Offer)
  | get (slot : String) (index : Nat)
  | parameters (slot : String)
  | clear (slot : String)
  | bind (slot : String) (next : FollowUp)
  | bindTo (slot : String) (offers : List (Option Offer)) (next : FollowUp)
  | execute (slot : String)
  | executeQuery (slot : String)
  | configure (setting : Setting)

/-- What a run of a bound statement gives. -/
inductive Yield
  | affected (n : Nat)
  | rows (rs : List Row)
  | failed (fault : StorageFault)

inductive Reply
  | done
  | nothing
  | noSlot
  | compiled (c : Compiled)
  | prepared (p : Prepared)
  | cacheState (size capacity : Nat)
  | value (v : Value)
  | parameters (ps : Parameters)
  | bound (isQuery : Bool) (run rerun : Option Yield)
  | yield (y : Yield)
  | descriptorFault (fault : DescriptorFault)
  | bindingFault (fault : BindingFault)
  | executionFault (fault : ExecutionFault)

/-- Runs a statement of the store as it stands. -/
def Host.run (host : Host) (handle : Handle) : Yield × Host :=
  if handle.kind.isQuery then
    match host.executeQuery handle with
    | (.ok rs, host) => (.rows rs, host)
    | (.error fault, host) => (.failed fault, host)
  else
    match host.execute handle with
    | (.ok n, host) => (.affected n, host)
    | (.error fault, host) => (.failed fault, host)

/-- Runs a fresh duplicate of a statement of the store. -/
def Host.rerun (host : Host) (handle : Handle) : Yield × Host :=
  let (copy, host) := host.duplicate handle
  host.run copy

def Host.runIf (host : Host) (wanted : Bool) (run : Host → Yield × Host) : Option Yield × Host :=
  if wanted then
    let (y, host) := run host
    (some y, host)
  else (none, host)

namespace Session

def slot? (s : Session) (name : String) : Option Prepared := s.slots.lookup name

def put (s : Session) (name : String) (p : Prepared) : Session :=
  { s with slots := (name, p) :: s.slots.filter fun entry => entry.1 ≠ name }

def withHost (s : Session) (host : Host) : Session := { s with host }

/-- Answers from the statement in a slot, if there is one. -/
def withSlot (s : Session) (name : String) (f : Prepared → Reply × Session) : Reply × Session :=
  match s.slot? name with
  | some p => f p
  | none => (.noSlot, s)

/-- Puts a statement that was prepared into a slot. A failure leaves the slot alone. -/
def keep (s : Session) (name : String) : Except ExecutionFault Prepared → Reply × Session
  | .ok p => (.prepared p, s.put name p)
  | .error fault => (.executionFault fault, s)

/-- Binds parameters and does with the bound statement what is asked for. -/
def bindWith (s : Session) (c : Compiled) (ps : Parameters) (next : FollowUp) :
    Reply × Session :=
  match c.bind ps s.host with
  | (.error fault, host) => (.bindingFault fault, s.withHost host)
  | (.ok handle, host) =>
    let (run, host) := host.runIf next.run fun host => host.run handle
    let (rerun, host) := host.runIf next.rerun fun host => host.rerun handle
    (.bound handle.kind.isQuery run rerun, s.withHost host)

def step (s : Session) : Command → Reply × Session
  | .prepare slot d =>
    let (result, host) := Prepared.prepare d s.host
    (s.withHost host).keep slot result
  | .cachePrepare slot d =>
    let (result, cache, host) := s.cache.prepare d s.host
    { s with host, cache }.keep slot result
  | .cacheCompile d =>
    match s.cache.getOrCompile d s.host with
    | (.ok c, cache, host) => (.compiled c, { s with host, cache })
    | (.error fault, cache, host) => (.descriptorFault fault, { s with host, cache })
  | .cacheGet d =>
    match s.cache.get? d with
    | some c => (.compiled c, s)
    | none => (.nothing, s)
  | .cacheInfo => (.cacheState s.cache.size s.cache.capacity, s)
  | .cacheClear => (.done, { s with cache := s.cache.clear })
  | .share slot source => s.withSlot source fun p => s.keep slot (.ok (.ofCompiled p.compiled))
  | .clone slot source => s.withSlot source fun p => s.keep slot (.ok p)
  | .describe slot => s.withSlot slot fun p => (.compiled p.compiled, s)
  | .set slot index offer => s.withSlot slot fun p =>
    match p.set index offer with
    | .ok p => (.done, s.put slot p)
    | .error fault => (.bindingFault fault, s)
  | .get slot index => s.withSlot slot fun p =>
    match p.parameters.get index with
    | .ok value => (.value value, s)
    | .error fault => (.bindingFault fault, s)
  | .parameters slot => s.withSlot slot fun p => (.parameters p.parameters, s)
  | .clear slot => s.withSlot slot fun p => (.done, s.put slot p.clear)
  | .bind slot next => s.withSlot slot fun p => s.bindWith p.compiled p.parameters next
  | .bindTo slot offers next => s.withSlot slot fun p =>
    match offers.mapM fun offer => offer.mapM Offer.value with
    | .ok values => s.bindWith p.compiled ⟨values⟩ next
    | .error fault => (.bindingFault fault, s)
  | .execute slot => s.withSlot slot fun p =>
    match p.execute s.host with
    | (.ok n, host) => (.yield (.affected n), s.withHost host)
    | (.error fault, host) => (.executionFault fault, s.withHost host)
  | .executeQuery slot => s.withSlot slot fun p =>
    match p.executeQuery s.host with
    | (.ok rs, host) => (.yield (.rows rs), s.withHost host)
    | (.error fault, host) => (.executionFault fault, s.withHost host)
  | .configure setting =>
    (.done, s.withHost { s.host with behaviour := s.host.behaviour.change setting })

/-- Runs commands one after the other. Each reply comes with what happened meanwhile. -/
def run (s : Session) : List Command → List (Reply × List Event) × Session
  | [] => ([], s)
  | command :: commands =>
    let (reply, next) := s.step command
    let (replies, last) := next.run commands
    ((reply, next.host.journal.drop s.host.journal.length) :: replies, last)

end Session
end CategoryStatements
