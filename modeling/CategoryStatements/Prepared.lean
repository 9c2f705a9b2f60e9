import CategoryStatements.Compiled

/-! Prepared statements: a compiled statement with parameters of its own. -/
namespace CategoryStatements

inductive Operation
  | execute | executeQuery
  deriving DecidableEq

def Operation.name : Operation → String
  | execute => "execute"
  | executeQuery => "execute_query"

inductive ExecutionFault
  | descriptor (fault : DescriptorFault)
  | binding (fault : BindingFault)
  | storage (fault : StorageFault)
  | illegal (operation : Operation) (kind : Kind)

def ExecutionFault.message : ExecutionFault → String
  | descriptor fault => "Descriptor parsing failed: " ++ fault.message
  | binding fault => "Parameter binding failed: " ++ fault.message
  | storage fault => fault.message
  | illegal operation kind =>
    operation.name ++ " is not valid for " ++ kind.spelling ++ " statements"

structure Prepared where
  compiled : Compiled
  parameters : Parameters

namespace Prepared

/-- A prepared statement without values. -/
def ofCompiled (c : Compiled) : Prepared := ⟨c, .unbound c.statement.placeholders⟩

def prepare (d : Descriptor) (host : Host) : Except ExecutionFault Prepared × Host :=
  match d.compile host with
  | (.error fault, host) => (.error (.descriptor fault), host)
  | (.ok c, host) => (.ok (ofCompiled c), host)

/-- Takes a value on offer. One that cannot be built is reported before a bad index. -/
def set (p : Prepared) (index : Nat) (offer : Offer) : Except BindingFault Prepared := do
  let value ← offer.value
  return { p with parameters := ← p.parameters.set index value }

def clear (p : Prepared) : Prepared := { p with parameters := p.parameters.clear }

def bind (p : Prepared) (host : Host) : Except BindingFault Handle × Host :=
  p.compiled.bind p.parameters host

/-- Runs a write. The kind is checked before anything is bound. -/
def execute (p : Prepared) (host : Host) : Except ExecutionFault Nat × Host :=
  if p.compiled.kind.isQuery then (.error (.illegal .execute p.compiled.kind), host)
  else
    match p.bind host with
    | (.error fault, host) => (.error (.binding fault), host)
    | (.ok handle, host) =>
      if handle.kind.isQuery then (.error (.illegal .execute p.compiled.kind), host)
      else
        match (host.note (.executingWrite p.compiled.render)).execute handle with
        | (.error fault, host) => (.error (.storage fault), host)
        | (.ok affected, host) => (.ok affected, host)

/-- Runs a query. The kind is checked before anything is bound. -/
def executeQuery (p : Prepared) (host : Host) : Except ExecutionFault (List Row) × Host :=
  if p.compiled.kind.isQuery then
    match p.bind host with
    | (.error fault, host) => (.error (.binding fault), host)
    | (.ok handle, host) =>
      if handle.kind.isQuery then
        match (host.note (.executingQuery p.compiled.render)).executeQuery handle with
        | (.error fault, host) => (.error (.storage fault), host)
        | (.ok rows, host) => (.ok rows, host)
      else (.error (.illegal .executeQuery p.compiled.kind), host)
  else (.error (.illegal .executeQuery p.compiled.kind), host)

end Prepared
end CategoryStatements
