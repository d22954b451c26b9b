import InkBindings.Bindings.Annotation
import InkBindings.Bytes.Basic
import InkBindings.Scale.Codec
/-!
The bindings of a contract: a Python module in parts. Each part holds what its text is made of; the
layouts are the codecs of the declared types, and the methods tell what a call is packed from.
-/

namespace InkBindings

namespace Bindings

structure Row where
  name : String
  annotation : Annotation
  codec : Scale.Codec
  docs : List String

def layoutOf (rows : List Row) : Scale.Fields :=
  rows.map fun r => (r.name, r.codec)

/-- An alternative of an emitted sum, which has a class of its own. -/
structure Alternative where
  label : String
  index : Int
  className : String
  rows : List Row
  docs : List String

inductive Shape
  | record (rows : List Row)
  | sum (alternatives : List Alternative)

/-- What is bound to a declared type. Alternatives go by their classes. -/
inductive Layout
  | record (fields : Scale.Fields)
  | sum (alternatives : List (String × Scale.Fields))

/-- A declared type with its own layout, or with those of its instantiations. -/
structure DeclaredType where
  name : String
  docs : List String
  shape : Shape
  layouts : List (Scale.Reference × Layout)

structure Parameter where
  name : String
  annotation : Annotation
  codec : Scale.Codec

inductive CallType
  | exec
  | execNeedsValue
  | read
  deriving DecidableEq, Repr

def CallType.name : CallType → String
  | .exec => "ExecCall"
  | .execNeedsValue => "ExecCallNeedsValue"
  | .read => "ReadCall"

structure Constructor where
  name : String
  docs : List String
  parameters : List Parameter
  selector : Bytes
  payable : Bool

/-- A method for a message, as far as its interface tells. -/
structure Signature where
  name : String
  docs : List String
  parameters : List Parameter
  callType : CallType
  returns : Annotation

structure Message where
  signature : Signature
  selector : Bytes
  returnCodec : Scale.Codec

/-- The messages of one namespace: an interface, its implementation, and the property by which an
instance gives it. -/
structure Namespace where
  label : String
  interface : String
  implementation : String
  property : String
  signatures : List Signature
  messages : List Message

end Bindings

open Bindings in
structure Bindings where
  contractName : Option String
  codeHash : Bytes
  declared : List DeclaredType
  /-- The alternatives of the type of all events. -/
  events : List Alternative
  namespaces : List Namespace
  constructors : List Constructor
  messages : List Message

end InkBindings
