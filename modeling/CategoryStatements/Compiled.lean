import CategoryStatements.Grammar
import CategoryStatements.Host
import CategoryStatements.Statement.Rendering

/-! Compiled statements: read, checked, and backed by a template in the store that every
binding duplicates. -/
namespace CategoryStatements

/-- Why a descriptor is refused. -/
inductive DescriptorFault
  | grammar (fault : Fault)
  | rule (kind : Kind) (broken : Rule) (violation : Violation)
  deriving DecidableEq

namespace DescriptorFault

def message : DescriptorFault → String
  | grammar fault => fault.message
  | rule _ _ violation => violation.message

def span? : DescriptorFault → Option Span
  | grammar fault => fault.span?
  | rule _ _ _ => none

def expected? : DescriptorFault → Option String
  | grammar fault => fault.expected?
  | rule _ _ _ => none

def found? : DescriptorFault → Option String
  | grammar fault => fault.found?
  | rule _ _ _ => none

/-- Only broken rules are noted in the log. -/
def notes : DescriptorFault → List Note
  | grammar _ => []
  | rule kind broken violation => [.rejected kind broken violation]

end DescriptorFault

namespace Statement

/-- Checks the rules of a statement's kind. -/
def validate (s : Statement) (category : Category) : Except DescriptorFault Unit :=
  match s.violation? category with
  | some (broken, violation) => .error (.rule s.kind broken violation)
  | none => .ok ()

/-- The key that an aggregate works on, as the category declares it. -/
def templateKey? (s : Statement) (category : Category) : Option Key :=
  if s.kind.isAggregate then s.aggregateKey.bind category.key? else none

end Statement

structure Compiled where
  descriptor : Descriptor
  statement : Statement
  template : Handle

namespace Descriptor

/-- The statement that a descriptor describes, if it is well formed and keeps all rules. -/
def check (d : Descriptor) : Except DescriptorFault Statement :=
  match parse d.category d.text with
  | .error fault => .error (.grammar fault)
  | .ok statement =>
    match statement.validate d.category with
    | .error fault => .error fault
    | .ok () => .ok statement

def compile (d : Descriptor) (host : Host) : Except DescriptorFault Compiled × Host :=
  match d.check with
  | .error fault => (.error fault, host.record (fault.notes.map .note))
  | .ok statement =>
    let (template, host) :=
      host.create statement.kind d.category (statement.templateKey? d.category)
    (.ok ⟨d, statement, template⟩,
      host.note (.parsed d.text statement.kind statement.placeholders))

end Descriptor

namespace Compiled

def kind (c : Compiled) : Kind := c.statement.kind

def render (c : Compiled) : String := c.statement.render

/-- Binds the parameters, and only then asks the store for a duplicate of the template. -/
def bind (c : Compiled) (ps : Parameters) (host : Host) : Except BindingFault Handle × Host :=
  match c.statement.bind ps with
  | .error fault => (.error fault, host)
  | .ok bound =>
    let (copy, host) := host.duplicate c.template
    (.ok copy, (host.direct copy (bound.directives copy.kind)).note (.bound c.render))

end Compiled
end CategoryStatements
