import CategoryStatements.Binding
import CategoryStatements.Category

/-! The store behind the statements, as far as statements can tell: it hands out numbered
statements, takes directives for them, and runs them. What it answers is a setting. -/
namespace CategoryStatements

inductive StorageFault
  | backend (reason : String)
  | unsupported (reason : String)
  deriving DecidableEq

def StorageFault.message : StorageFault → String
  | backend reason => "Storage failure: " ++ reason
  | unsupported reason => "Unsupported statement: " ++ reason

/-- A row of a result. One bad row does not end the result. -/
abbrev Row := Except StorageFault Json

/-- A statement of the store. -/
structure Handle where
  id : Nat
  kind : Kind
  deriving DecidableEq

/-- A call to the store. -/
inductive Call
  | create (handle : Handle) (category : Category) (key : Option Key)
  | duplicate (source copy : Handle)
  | direct (target : Handle) (directive : Directive)
  | execute (target : Handle)
  | executeQuery (target : Handle)

/-- What a run of a statement yields. -/
structure Behaviour where
  failure : Option StorageFault := none
  affected : Nat := 1
  rows : List Row := []

end CategoryStatements
