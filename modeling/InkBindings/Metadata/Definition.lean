import InkBindings.Metadata.Document
import InkBindings.Metadata.Integer
/-!
Reading the definition of a type: one member, which names the kind and holds the body.
-/

namespace InkBindings.Metadata

def primitives : List (String × Primitive) :=
  let kinds : List (Bool × Scale.IntWidth) :=
    [Scale.IntWidth.w8, .w16, .w32, .w64, .w128, .w256].flatMap fun w => [(false, w), (true, w)]
  kinds.map (fun (signed, width) =>
    let kind : Scale.IntKind := ⟨signed, width⟩
    (kind.name, .int kind)) ++ [("bool", .bool), ("char", .char), ("str", .str)]

def Primitive.ofName? (name : String) : Option Primitive :=
  (primitives.find? (·.1 = name)).map (·.2)

def metadataFailure {α : Type} (e : MetadataError) : Except BodyFailure α :=
  .error (.other (.metadata e))

/-- Components all named or all without a name; with none at all they count as unnamed. -/
def fieldsOf (id : TypeId) (context : String) (components : List Document.Component) :
    Except BodyFailure Fields :=
  let field (c : Document.Component) : Field := ⟨c.typeId, c.typeName, c.docs⟩
  if components.all (·.name.isNone) then .ok (.positional (components.map field))
  else
    match components.mapM fun c => c.name.map (·, field c) with
    | some named => .ok (.named named)
    | none => metadataFailure (.mixedFields id context)

/-- Checks the shape of a component; its issues are only counted. -/
def checkPart {α : Type} (model : String) (check : Check α) (j : Json) : Except BodyFailure α :=
  match check j with
  | .ok a => .ok a
  | .bad _ more => .error (.problem (.shape (more.length + 1) model))

/-- The parts of a member of a body. A body that is not present has no members, and a member that
is left out has no parts. -/
def bodyParts (body : Json) (name : String) : Except BodyFailure (List Json) :=
  if body.isPresent then
    match body with
    | .object members => parts ((Json.member? members name).getD (.array []))
    | j => .error (.other (.bodyNotAnObject j.typeName))
  else .ok []

def alternativeOf (id : TypeId) (v : Document.Variant) : Except BodyFailure Alternative := do
  let fields ← fieldsOf id s!"variant {v.name}" v.fields
  return ⟨v.name, v.index, fields, v.docs⟩

def readPrimitive (id : TypeId) (body : Json) : Except BodyFailure Definition :=
  let found :=
    match body with
    | .str name => Primitive.ofName? name
    | _ => none
  match found with
  | some p => .ok (.primitive p)
  | none => metadataFailure (.unsupported id (.unknownPrimitive body))

def readBody (id : TypeId) (kind : String) (body : Json) : Except BodyFailure Definition := do
  match kind with
  | "primitive" => readPrimitive id body
  | "tuple" => return .tuple (← (← parts body).mapM integer)
  | "array" =>
    let item ← integer (← bodyMember body "type")
    return .array item (← integer (← bodyMember body "len"))
  | "sequence" => return .sequence (← integer (← bodyMember body "type"))
  | "compact" => return .compact (← integer (← bodyMember body "type"))
  | "composite" =>
    let components ← (← bodyParts body "fields").mapM
      (checkPart Check.componentModel Check.component)
    return .composite (← fieldsOf id "composite" components)
  | "variant" =>
    let variants ← (← bodyParts body "variants").mapM (checkPart Check.variantModel Check.variant)
    return .variant (← variants.mapM (alternativeOf id))
  | "bitsequence" =>
    let store ← integer (← bodyMember body "bit_store_type")
    return .bitSequence store (← integer (← bodyMember body "bit_order_type"))
  | kind => metadataFailure (.unsupported id (.unknownDefinition kind))

def malformed (problem : DocumentProblem) (location : Option String) : ReadFailure :=
  .metadata (.malformed problem location)

def typeLocation (id : TypeId) : Option String :=
  some s!"types[{id}]"

def readDefinition (id : TypeId) (definition : Json.Members) : Except ReadFailure Definition :=
  match definition with
  | [(kind, body)] =>
    match readBody id kind body with
    | .ok d => .ok d
    | .error (.problem p) => .error (malformed (.definition kind p) (typeLocation id))
    | .error (.other f) => .error f
  | members =>
    let kinds := (members.map (·.1)).mergeSort fun a b => decide (a ≤ b)
    .error (malformed (.definitionCount kinds) (typeLocation id))

end InkBindings.Metadata
