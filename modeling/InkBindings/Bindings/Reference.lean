import InkBindings.Bindings.Annotation
import InkBindings.Bindings.Error
import InkBindings.Metadata.Registry
import InkBindings.Room
/-!
What the ids of types stand for: an annotation and a codec. Both descend through tuples, arrays,
sequences, compacts and the arguments of the built-in types, and the annotation through those of
declared types as well. A descent that is longer than the registry never ends, and one for which
there is no room is given up.
-/

namespace InkBindings.Bindings

open Metadata (TypeId TypeEntry Declaration Registry)

structure Scope where
  registry : Registry
  declarations : List Declaration
  room : Room := .unbounded

inductive Builtin
  | option
  | result
  | map
  deriving DecidableEq, Repr

def Builtin.ofName? : String → Option Builtin
  | "Option" => some .option
  | "Result" => some .result
  | "BTreeMap" => some .map
  | _ => none

inductive Reserved
  | accountId
  | hash
  | langError
  deriving DecidableEq, Repr

def Reserved.ofName? : String → Option Reserved
  | "AccountId" => some .accountId
  | "Hash" => some .hash
  | "LangError" => some .langError
  | _ => none

/-- A composite or a variant type by what its path makes of it. -/
inductive Named
  | reserved (r : Reserved)
  | option (inner : TypeId)
  | result (ok err : TypeId)
  | map (key value : TypeId)
  | declared (d : Declaration)

namespace Scope

def resolve (s : Scope) (id : TypeId) : Outcome TypeEntry :=
  ofMetadata (s.registry.resolve id)

def declaration? (s : Scope) (e : TypeEntry) : Option Declaration :=
  s.declarations.find? (·.path = e.path)

def builtin (e : TypeEntry) (b : Builtin) : Outcome Named :=
  let wrongCount (expected : Nat) : Outcome Named :=
    unsupported e.id (.parameterCount e.name expected e.arguments.length)
  match b, e.arguments with
  | .option, [inner] => .ok (.option inner)
  | .option, _ => wrongCount 1
  | .result, [ok, err] => .ok (.result ok err)
  | .result, _ => wrongCount 2
  | .map, [key, value] => .ok (.map key value)
  | .map, _ => wrongCount 2

def named (s : Scope) (e : TypeEntry) : Outcome Named :=
  match e.kind with
  | .reserved =>
    match Reserved.ofName? e.name with
    | some r => .ok (.reserved r)
    | none => unsupported e.id (.unknownReserved e.path)
  | .builtin =>
    match Builtin.ofName? e.name with
    | some b => builtin e b
    | none => unsupported e.id (.unknownBuiltin e.name)
  | .custom =>
    match s.declaration? e with
    | some d => .ok (.declared d)
    | none => unsupported e.id (.undeclared e.name)

end Scope

def primitiveAnnotation : Metadata.Primitive → Annotation
  | .int _ => .int
  | .bool => .bool
  | .char | .str => .str

def primitiveCodec : Metadata.Primitive → Scale.Codec
  | .int kind => .int kind
  | .bool => .bool
  | .char => .char
  | .str => .str

def Reserved.annotation : Reserved → Annotation
  | .accountId => .accountId
  | .hash => .hash
  | .langError => .langError

def Reserved.codec : Reserved → Scale.Codec
  | .accountId => .accountId
  | .hash => .hash
  | .langError => .raisedLangError

def declaredCodec (d : Declaration) (id : TypeId) : Scale.Codec :=
  if d.isGeneric then .reference (.instantiation (d.instanceName id) d.name)
  else .reference (.declared d.name)

namespace Scope

def entryAnnotation (s : Scope) (sub : TypeId → Outcome Annotation) (e : TypeEntry) :
    Outcome Annotation := do
  match e.definition with
  | .primitive p => return primitiveAnnotation p
  | .tuple [] => return .none
  | .tuple items => return .tuple (← items.mapM sub)
  | .array item _ | .sequence item =>
    if (← s.resolve item).isU8 then return .bytes else return .list (← sub item)
  | .compact item => return .compact (← sub item)
  | .bitSequence _ _ => unsupported e.id .bitSequence
  | .composite _ | .variant _ =>
    match ← s.named e with
    | .reserved r => return r.annotation
    | .option inner => return .optional (← sub inner)
    | .result ok err =>
      let ok ← sub ok
      return .result ok (← sub err)
    | .map key value =>
      let key ← sub key
      return .dict key (← sub value)
    | .declared d => return .declared d.name (← e.arguments.mapM sub)

def entryCodec (s : Scope) (sub : TypeId → Outcome Scale.Codec) (e : TypeEntry) :
    Outcome Scale.Codec := do
  match e.definition with
  | .primitive p => return primitiveCodec p
  | .tuple [] => return .unit
  | .tuple items => return .tuple (← items.mapM sub)
  | .array item length =>
    if (← s.resolve item).isU8 then return .fixedBytes length
    else return .array (← sub item) length
  | .sequence item =>
    if (← s.resolve item).isU8 then return .bytes else return .sequence (← sub item)
  | .compact item => return .compact (← sub item)
  | .bitSequence _ _ => unsupported e.id .bitSequence
  | .composite _ | .variant _ =>
    match ← s.named e with
    | .reserved r => return r.codec
    | .option inner => return .option (← sub inner)
    | .result ok err =>
      let ok ← sub ok
      return .result ok (← sub err)
    | .map key value =>
      let key ← sub key
      return .map key (← sub value)
    | .declared d => return declaredCodec d e.id

/-- The calls by which a descent comes from an entry to the types it refers to. -/
def callsBelow (e : TypeEntry) : Nat :=
  match e.definition with
  | .primitive _ | .array .. | .sequence _ | .compact _ | .bitSequence .. => 2
  | .tuple _ => 4
  | .composite _ | .variant _ => if e.kind = .custom then 5 else 4

def callsToResolve : Nat := 4

/-- The annotation of a type, in a descent of less than `depth` steps. -/
def annotationWithin (s : Scope) : (depth : Nat) → Room → TypeId → Outcome Annotation
  | 0, _, _ => .error .endless
  | depth + 1, room, id => do
    if !room.holds callsToResolve then throw .endless
    let e ← s.resolve id
    s.entryAnnotation (s.annotationWithin depth (room.inside (callsBelow e))) e

/-- The codec of a type, in a descent of less than `depth` steps. -/
def codecWithin (s : Scope) : (depth : Nat) → Room → TypeId → Outcome Scale.Codec
  | 0, _, _ => .error .endless
  | depth + 1, room, id => do
    if !room.holds callsToResolve then throw .endless
    let e ← s.resolve id
    s.entryCodec (s.codecWithin depth (room.inside (callsBelow e))) e

/-- A longer descent passes some entry twice. The last step may be to an id that is not there. -/
def depth (s : Scope) : Nat :=
  s.registry.entries.length + 1

def annotation (s : Scope) (id : TypeId) : Outcome Annotation :=
  s.annotationWithin s.depth s.room id

def codec (s : Scope) (id : TypeId) : Outcome Scale.Codec :=
  s.codecWithin s.depth s.room id

end Scope

end InkBindings.Bindings
