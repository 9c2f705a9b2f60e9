import CategoryStatements.Log
import CategoryStatements.Store

/-! The host of statements: a store and a log. Everything that happens is kept in one journal,
oldest first. -/
namespace CategoryStatements

inductive Event
  | call (c : Call)
  | note (n : Note)

def Event.call? : Event → Option Call
  | call c => some c
  | note _ => none

def Event.note? : Event → Option Note
  | note n => some n
  | call _ => none

structure Host where
  /-- The number of the next statement, whether created or duplicated. -/
  nextId : Nat := 0
  behaviour : Behaviour := {}
  journal : List Event := []

namespace Host

def record (host : Host) (events : List Event) : Host :=
  { host with journal := host.journal ++ events }

def note (host : Host) (n : Note) : Host := host.record [.note n]

def calls (host : Host) : List Call := host.journal.filterMap Event.call?

def create (host : Host) (kind : Kind) (category : Category) (key : Option Key) :
    Handle × Host :=
  let handle : Handle := ⟨host.nextId, kind⟩
  (handle, { host with nextId := host.nextId + 1 }.record [.call (.create handle category key)])

/-- A new statement of the same kind, about which the store has been told nothing. -/
def duplicate (host : Host) (source : Handle) : Handle × Host :=
  let copy : Handle := ⟨host.nextId, source.kind⟩
  (copy, { host with nextId := host.nextId + 1 }.record [.call (.duplicate source copy)])

def direct (host : Host) (target : Handle) (directives : List Directive) : Host :=
  host.record (directives.map fun d => .call (.direct target d))

def execute (host : Host) (target : Handle) : Except StorageFault Nat × Host :=
  let host := host.record [.call (.execute target)]
  match host.behaviour.failure with
  | some fault => (.error fault, host)
  | none => (.ok host.behaviour.affected, host)

def executeQuery (host : Host) (target : Handle) : Except StorageFault (List Row) × Host :=
  let host := host.record [.call (.executeQuery target)]
  match host.behaviour.failure with
  | some fault => (.error fault, host)
  | none => (.ok host.behaviour.rows, host)

end Host
end CategoryStatements
