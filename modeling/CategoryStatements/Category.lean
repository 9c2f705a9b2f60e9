import CategoryStatements.ParamType
import CategoryStatements.Text.Named

/-! Categories: a name and a list of keys, each with or without a declared type. A key is
known by its name, so that two categories agree when their names and the names of their keys
do, whatever types the keys declare. -/
namespace CategoryStatements

structure Key where
  name : String
  type : Option ParamType := none
  deriving DecidableEq

structure Category where
  name : String
  keys : List Key
  deriving DecidableEq

/-- Where a text is wanted, a category stands for its name. -/
instance : Coe Category String := ⟨Category.name⟩

namespace Category

/-- The first key of that name. -/
def key? (category : Category) (name : String) : Option Key :=
  category.keys.find? fun key => key.name = name

def hasKey (category : Category) (name : String) : Bool := (category.key? name).isSome

/-- The names of the keys, each once and in order. -/
def keyNames (category : Category) : List String := distinctNames (category.keys.map Key.name)

/-- The keys in order of name, of equal names the last. -/
def orderedKeys (category : Category) : List Key := orderedByName Key.name category.keys

def agrees (a b : Category) : Bool :=
  a.name == b.name && a.keys.map Key.name == b.keys.map Key.name

end Category

/-- A statement yet to be read: its text, and the category it is about. -/
structure Descriptor where
  category : Category
  text : String
  deriving DecidableEq

/-- Descriptors agree when their categories do and their texts are equal. -/
def Descriptor.agrees (a b : Descriptor) : Bool :=
  a.category.agrees b.category && a.text == b.text

end CategoryStatements
