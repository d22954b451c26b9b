import InkBindings.Bytes.Basic
import InkBindings.Scale.Codec
/-!
Labels of messages. A label of two parts, separated by two colons, has a namespace and a method
name; a label of one part has no namespace.
-/

namespace InkBindings.Label

/-- The parts of a label between the separators, which are found from left to right. -/
def splitChars : List Char → List (List Char)
  | [] => [[]]
  | ':' :: ':' :: rest => [] :: splitChars rest
  | c :: rest =>
    match splitChars rest with
    | [] => [[c]]
    | part :: more => (c :: part) :: more

def parts (label : String) : List String :=
  (splitChars label.toList).map String.ofList

def namespace? (label : String) : Option String :=
  match parts label with
  | [first, _] => some first
  | _ => none

def methodName (label : String) : String :=
  (parts label).getLastD ""

end InkBindings.Label

/-!
The metadata of a contract: its types, its constructors and messages, and its events.
-/

namespace InkBindings.Metadata

/-- Types go by the number the document gives them. -/
abbrev TypeId := Int

inductive Primitive
  | int (kind : Scale.IntKind)
  | bool
  | char
  | str
  deriving DecidableEq, Repr

def Primitive.name : Primitive → String
  | int kind => kind.name
  | bool => "bool"
  | char => "char"
  | str => "str"

structure Field where
  typeId : TypeId
  /-- The type as the contract's source spells it. -/
  typeName : Option String
  docs : List String
  deriving DecidableEq, Repr

/-- The components of a record or an alternative: all of them have a name, or none has. -/
inductive Fields
  | named (fields : List (String × Field))
  | positional (fields : List Field)
  deriving DecidableEq, Repr

def Fields.toList : Fields → List Field
  | .named fields => fields.map (·.2)
  | .positional fields => fields

structure Alternative where
  name : String
  index : Int
  fields : Fields
  docs : List String
  deriving DecidableEq, Repr

inductive Definition
  | primitive (p : Primitive)
  | tuple (items : List TypeId)
  | array (item : TypeId) (length : Int)
  | sequence (item : TypeId)
  | compact (item : TypeId)
  | composite (fields : Fields)
  | variant (alternatives : List Alternative)
  | bitSequence (store order : TypeId)
  deriving DecidableEq, Repr

structure Parameter where
  name : String
  typeId : Option TypeId
  deriving DecidableEq, Repr

structure TypeEntry where
  id : TypeId
  definition : Definition
  path : List String
  parameters : List Parameter
  docs : List String
  deriving DecidableEq, Repr

/-- The last segment of the path. -/
def TypeEntry.name (e : TypeEntry) : String :=
  e.path.getLastD ""

def TypeEntry.arguments (e : TypeEntry) : List TypeId :=
  e.parameters.filterMap (·.typeId)

structure Argument where
  label : String
  typeId : TypeId
  deriving DecidableEq, Repr

/-- A constructor or a message. -/
structure EntryPoint where
  label : String
  selector : Bytes
  arguments : List Argument
  returnType : Option TypeId
  mutates : Bool
  payable : Bool
  docs : List String
  deriving DecidableEq, Repr

def EntryPoint.namespace? (e : EntryPoint) : Option String :=
  Label.namespace? e.label

def EntryPoint.methodName (e : EntryPoint) : String :=
  Label.methodName e.label

structure EventField where
  label : String
  typeId : TypeId
  docs : List String
  indexed : Bool
  deriving DecidableEq, Repr

structure Event where
  label : String
  fields : List EventField
  docs : List String
  deriving DecidableEq, Repr

end InkBindings.Metadata

namespace InkBindings

open Metadata in
/-- The types are in the order of the document. -/
structure Metadata where
  codeHash : Bytes
  types : List TypeEntry
  constructors : List EntryPoint
  messages : List EntryPoint
  events : List Event
  name : Option String
  deriving DecidableEq, Repr

end InkBindings
