import CategoryStatements.Binding.Fault

/-! The values for the placeholders of a statement, by index. -/
namespace CategoryStatements

structure Parameters where
  values : List (Option Value)

namespace Parameters

/-- That many parameters, all without a value. -/
def unbound (count : Nat) : Parameters := ⟨List.replicate count none⟩

def size (ps : Parameters) : Nat := ps.values.length

def get (ps : Parameters) (index : Nat) : Except BindingFault Value :=
  match ps.values[index]? with
  | none => .error (.indexOutOfRange index ps.size)
  | some none => .error (.unbound index)
  | some (some value) => .ok value

def set (ps : Parameters) (index : Nat) (value : Value) : Except BindingFault Parameters :=
  if index < ps.size then .ok ⟨ps.values.set index (some value)⟩
  else .error (.indexOutOfRange index ps.size)

def clear (ps : Parameters) : Parameters := unbound ps.size

end Parameters

/-- What a record is built from: the JSON form of an object, or why it has none. -/
abbrev RecordSource := Except String Json

/-- A value on offer. Records come as their sources and may turn out not to be records. -/
inductive Offer
  | ready (value : Value)
  | record (typeName : String) (source : RecordSource)
  | records (typeName : String) (sources : List RecordSource)

/-- Builds a record, which must be an object. -/
def Record.ofSource (typeName : String) : RecordSource → Except BindingFault Record
  | .ok (.object fields) => .ok ⟨typeName, fields⟩
  | .ok _ => .error (.notARecord typeName)
  | .error reason => .error (.notSerializable reason)

/-- The value on offer. Of several sources the first bad one decides. -/
def Offer.value : Offer → Except BindingFault Value
  | ready value => .ok value
  | record typeName source => do return .record (← Record.ofSource typeName source)
  | records typeName sources => do return .records (← sources.mapM (Record.ofSource typeName))

end CategoryStatements
