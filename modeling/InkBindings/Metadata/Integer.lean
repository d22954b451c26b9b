import InkBindings.Metadata.Error
/-!
JSON values as the integers and the lists that the bodies of type definitions ask for. Numbers
lose their fraction, texts are read as numerals, and what has members can be gone through.
-/

namespace InkBindings.Metadata

/-- Why a document cannot be read: it is no metadata of a contract, or it cannot even be told. -/
inductive ReadFailure
  | metadata (e : MetadataError)
  | undecodable
  | tooManyDigits (count : Nat)
  | tooDeep (container : Json.Container)
  | bodyNotAnObject (typeName : String)
  | infiniteNumber

def ReadFailure.message : ReadFailure → String
  | .metadata e => e.message
  | .undecodable => "the document is no text in its encoding"
  | .tooManyDigits count => (DefinitionProblem.tooManyDigits count).message
  | .tooDeep container =>
    "maximum recursion depth exceeded while decoding a JSON " ++ container.name ++
      " from a unicode string"
  | .bodyNotAnObject typeName => s!"'{typeName}' object has no attribute 'get'"
  | .infiniteNumber => "cannot convert float infinity to integer"

inductive BodyFailure
  | problem (p : DefinitionProblem)
  | other (f : ReadFailure)

def integer : Json → Except BodyFailure Int
  | .bool b => .ok (if b then 1 else 0)
  | .int n => .ok n
  | .float x =>
    match x.truncate? with
    | some n => .ok n
    | none => if x.isNan then .error (.problem .notANumber) else .error (.other .infiniteNumber)
  | .str s =>
    match Text.readInteger s with
    | .ok n => .ok n
    | .error .notANumeral => .error (.problem (.notANumeral s))
    | .error (.tooManyDigits count) => .error (.problem (.tooManyDigits count))
  | j => .error (.problem (.noInteger j.typeName))

/-- The parts of a value that is gone through: items, characters or names of members. -/
def parts : Json → Except BodyFailure (List Json)
  | .array items => .ok items
  | .str s => .ok (s.toList.map fun c => .str (String.singleton c))
  | .object members => .ok (members.map fun m => .str m.1)
  | j => .error (.problem (.notIterable j.typeName))

def bodyMember (body : Json) (name : String) : Except BodyFailure Json :=
  match body with
  | .object members =>
    match Json.member? members name with
    | some j => .ok j
    | none => .error (.problem (.missingKey name))
  | .array _ => .error (.problem .listMember)
  | .str _ => .error (.problem .textMember)
  | j => .error (.problem (.noMembers j.typeName))

end InkBindings.Metadata
