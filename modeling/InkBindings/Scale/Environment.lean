import InkBindings.Room
import InkBindings.Scale.Error
/-!
Declared types: which classes there are, what they are made of, and the layouts that are bound to
them.
-/

namespace InkBindings.Scale

structure Attribute where
  name : String
  default? : Option Value

/-- An alternative of a declared sum as its class knows it. -/
structure AlternativeClass where
  label : String
  index : Option Int
  attributes : List Attribute

inductive Shape
  | record (attributes : List Attribute)
  | sum (alternatives : List AlternativeClass)

structure Alternative where
  label : String
  index : UInt8
  fields : Fields

inductive Layout
  | record (fields : Fields)
  | sum (alternatives : List Alternative)

structure Environment where
  shapes : List (String × Shape)
  /-- The instantiations by their keys, with the declared types they are of. -/
  instantiations : List (String × String)
  layouts : List (Reference × Layout)
  /-- The room for the calls by which values are read and written. -/
  room : Room := .unbounded

namespace Environment

def empty : Environment := ⟨[], [], [], .unbounded⟩

def usual : Environment := ⟨[], [], [], .usual⟩

def shape? (env : Environment) (name : String) : Option Shape :=
  (env.shapes.find? (·.1 = name)).map (·.2)

def layout? (env : Environment) (r : Reference) : Option Layout :=
  (env.layouts.find? (·.1 = r.binding)).map (·.2)

/-- The calls by which a declared type is read, up to what it makes of its fields. -/
def readingCalls (env : Environment) (r : Reference) : Nat :=
  match env.layout? r with
  | some (.record (_ :: _)) => r.calls + 2
  | _ => r.calls + 1

def writingCalls (env : Environment) (r : Reference) : Nat :=
  match env.layout? r with
  | some (.record []) => r.calls
  | some (.record _) => r.calls + 2
  | _ => r.calls + 1

def recordAttributes? (env : Environment) (name : String) : Option (List Attribute) :=
  match env.shape? name with
  | some (.record attributes) => some attributes
  | _ => none

def alternatives (env : Environment) (name : String) : List AlternativeClass :=
  match env.shape? name with
  | some (.sum alternatives) => alternatives
  | _ => []

def alternative? (env : Environment) (owner label : String) : Option AlternativeClass :=
  (env.alternatives owner).find? (·.label = label)

def alternativeNamed? (env : Environment) (name : String) : Option (String × String) :=
  env.shapes.findSome? fun (owner, _) =>
    ((env.alternatives owner).find? (Value.alternativeName owner ·.label = name)).map
      fun c => (owner, c.label)

def reference? (env : Environment) (name : String) : Option Reference :=
  match env.instantiations.find? (·.1 = name) with
  | some (key, owner) => some (.instantiation key owner)
  | none =>
    if (env.shape? name).isSome then some (.declared name)
    else (env.alternativeNamed? name).map fun (owner, label) => .alternative owner label

/-- Adds a type. An earlier one of the same name is forgotten. -/
def addShape (env : Environment) (name : String) (shape : Shape) : Environment :=
  { env with shapes := env.shapes.filter (·.1 ≠ name) ++ [(name, shape)] }

/-- Adds an instantiation. An earlier one with the same key is forgotten. -/
def addInstantiation (env : Environment) (key owner : String) : Environment :=
  { env with instantiations := env.instantiations.filter (·.1 ≠ key) ++ [(key, owner)] }

/-- Binds a layout. An earlier one is forgotten. -/
def addLayout (env : Environment) (r : Reference) (layout : Layout) : Environment :=
  { env with layouts := env.layouts.filter (·.1 ≠ r) ++ [(r, layout)] }

end Environment

def lastValue? (values : List (String × Value)) (name : String) : Option Value :=
  (values.reverse.find? (·.1 = name)).map (·.2)

/-- What an instance has under these names is its own, and gives way to no value: its class, and
the references that do not keep it alive. -/
def fixedAttributes : List String := ["__class__", "__weakref__"]

def Attribute.isFixed (a : Attribute) : Bool :=
  fixedAttributes.contains a.name

/-- Arranges values given by name in the order of the attributes; nothing unless they are for
these, and for all that have no value by themselves. -/
def arrange? (attributes : List Attribute) (values : List (String × Value)) :
    Option (List (String × Value)) :=
  if attributes.any (·.isFixed) then none
  else if values.all fun v => attributes.any (·.name = v.1) then
    attributes.mapM fun a => ((lastValue? values a.name).or a.default?).map (a.name, ·)
  else none

inductive InstanceError
  | unknownClass
  | wrongFields
  | endless
  deriving DecidableEq, Repr

/-- Where instances of a class come into being. -/
def creationName : String := "__new__"

/-- What follows the making of an instance. -/
def completionName : String := "__post_init__"

namespace AlternativeClass

def takes (c : AlternativeClass) (count : Nat) : Bool :=
  count ≤ c.attributes.length && (c.attributes.drop count).all (·.default?.isSome) &&
    !c.attributes.any (·.isFixed)

end AlternativeClass

namespace Environment

def makeRecord (env : Environment) (name : String) (values : List (String × Value)) :
    Except InstanceError Value :=
  match env.recordAttributes? name with
  | none => .error .unknownClass
  | some attributes =>
    match arrange? attributes values with
    | some fields => .ok (.record name fields)
    | none => .error .wrongFields

/-- Whether what follows the making of an alternative fails: one of those before it, which is made
anew each time, needs values. -/
def completionFails (env : Environment) (owner label : String) : Bool :=
  ((env.alternatives owner).takeWhile (·.label ≠ label)).any fun c =>
    c.label = completionName && !c.takes 0

def makeVariant (env : Environment) (owner label : String) (values : List (String × Value)) :
    Except InstanceError Value :=
  match env.alternative? owner label with
  | none => .error .unknownClass
  | some c =>
    if (env.alternative? owner creationName).isSome then .error .endless
    else
      match arrange? c.attributes values with
      | some fields =>
        if env.completionFails owner label then .error .wrongFields
        else .ok (.variant owner label fields)
      | none => .error .wrongFields

def make (env : Environment) (name : String) (values : List (String × Value)) :
    Except InstanceError Value :=
  match env.recordAttributes? name, env.alternativeNamed? name with
  | none, some (owner, label) => env.makeVariant owner label values
  | _, _ => env.makeRecord name values

end Environment
end InkBindings.Scale
