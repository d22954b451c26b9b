import InkBindings.Scale.Environment
/-!
What declared classes have under some names by themselves: the operations of their kind, and what
every class and every instance has. A field of such a name takes this for its value where none is
given, and so does a field that a layout asks for and the class lacks.
-/

namespace InkBindings.Scale

/-- A declared class: a record, a sum with the labels of its alternatives, or an alternative with
the labels of those made before it. -/
inductive ClassKind
  | record (name : String)
  | sum (name : String) (labels : List String)
  | alternative (owner label : String) (earlier : List String)

namespace ClassKind

def name : ClassKind → String
  | record name | sum name _ => name
  | alternative owner label _ => Value.alternativeName owner label

/-- The name without the type that the class belongs to. -/
def label : ClassKind → String
  | record name | sum name _ => name
  | alternative _ label _ => label

def display (k : ClassKind) : String := Codec.className k.name

def base : ClassKind → String
  | record _ => "<class 'ink_wrapper_types.scale.Struct'>"
  | sum .. => "<class 'ink_wrapper_types.scale.Enum'>"
  | alternative owner .. => Codec.className owner

def isRecord : ClassKind → Bool
  | record _ => true
  | _ => false

/-! ### Operations -/

/-- The operations of the class itself, each with the class that defines it. -/
def operations (k : ClassKind) : List (String × String) :=
  ["_codec", "encode_to", "decode_from", "decode", "__class_getitem__"].map (·, "_Declared") ++
    (if k.isRecord then [("layout", "Struct")] else [("layout", "Enum"), ("alternative", "Enum")])

def boundMethod (definer name target : String) : Value :=
  .member "method" s!"<bound method {definer}.{name} of {target}>"

def sibling? (k : ClassKind) (name : String) : Option Value :=
  let among (owner : String) (labels : List String) : Option Value :=
    if labels.contains name then
      some (.member "type" (Codec.className (Value.alternativeName owner name)))
    else none
  match k with
  | record _ => none
  | sum owner labels | alternative owner _ labels => among owner labels

/-- A member of the class that is the same at its instances. -/
def shared? (k : ClassKind) (name : String) : Option Value :=
  (k.sibling? name).or ((k.operations.find? (·.1 = name)).map fun (name, definer) =>
    boundMethod definer name k.display)

def encodeName : String := "encode"

def codecName : String := "__scale_codec__"

def indexName : String := "__scale_index__"

/-! ### What every class has -/

/-- How objects are made, compared, shown and changed. -/
def slots : List String :=
  ["__delattr__", "__eq__", "__ge__", "__getattribute__", "__gt__", "__hash__", "__init__",
    "__le__", "__lt__", "__ne__", "__repr__", "__setattr__", "__str__"]

def ownSlots : List String :=
  ["__delattr__", "__eq__", "__hash__", "__init__", "__repr__", "__setattr__"]

def plainMethods : List String :=
  ["__dir__", "__format__", "__getstate__", "__reduce__", "__reduce_ex__", "__sizeof__"]

def makingMethods : List String := ["__init_subclass__", "__new__", "__subclasshook__"]

/-- Methods of classes that instances do not have. -/
def classMethods : List String :=
  ["__instancecheck__", "__prepare__", "__subclasscheck__", "__subclasses__", "mro"]

def classSlots : List String := ["__call__", "__or__", "__ror__"]

def builtinMethod (name target : String) : Value :=
  .member "builtin_function_or_method" s!"<built-in method {name} of {target}>"

def moduleName : String := "contract"

/-- What belongs to the class alone, and so comes before any alternative of the name. -/
def ownAtClass? (k : ClassKind) : String → Option Value
  | "__module__" => some (.str moduleName)
  | "__name__" | "__qualname__" => some (.str k.label)
  | "__doc__" | "__text_signature__" => some .none
  | "__class__" => some (.member "type" "<class 'type'>")
  | "__base__" => some (.member "type" k.base)
  | "__bases__" => some (.tuple [.member "type" k.base])
  | "__mro__" => some (.tuple [.member "type" k.display, .member "type" k.base])
  | "__basicsize__" => some (.int 24)
  | "__dictoffset__" => some (.int (-48))
  | "__flags__" => some (.int 546320)
  | "__itemsize__" => some (.int 0)
  | "__weakrefoffset__" => some (.int 16)
  | _ => none

/-- How instances are made, compared and kept. -/
def parameters : Value :=
  .member "_DataclassParams" ("_DataclassParams(init=True,repr=True,eq=True,order=False," ++
    "unsafe_hash=False,frozen=True)")

def commonAtClass? (k : ClassKind) (name : String) : Option Value :=
  if name = codecName || name = indexName && !k.isRecord then some .none
  else if name = "__dataclass_params__" then some parameters
  else if name = "__weakref__" then
    some (.member "getset_descriptor" "<attribute '__weakref__' of '_Declared' objects>")
  else if slots.contains name then
    some (.member "wrapper_descriptor" s!"<slot wrapper '{name}' of 'object' objects>")
  else if plainMethods.contains name then
    some (.member "method_descriptor" s!"<method '{name}' of 'object' objects>")
  else if (makingMethods ++ classMethods).contains name then
    some (builtinMethod name "type object")
  else if classSlots.contains name then
    some (.member "method-wrapper" s!"<method-wrapper '{name}' of type object>")
  else none

def member? (k : ClassKind) (name : String) : Option Value :=
  (k.ownAtClass? name).or <| (k.shared? name).or <|
    if name = encodeName then some (.member "function" "<function _Declared.encode>")
    else k.commonAtClass? name

/-- The members of a class that may change, and so can be no value that fields share. -/
def changeable : List String := ["__annotations__", "__dict__"]

/-! ### What every instance has -/

def annotation : Value := .str "typing.Any"

def parameter (a : Attribute) : String :=
  a.name ++ ": " ++ annotation.display ++
    match a.default? with
    | some v => " = " ++ v.display
    | none => ""

def signature (k : ClassKind) (attributes : List Attribute) : String :=
  Value.displayCall k.label (attributes.map parameter)

/-- What belongs to the class of an instance alone. -/
def ownAtInstance? (k : ClassKind) (attributes : List Attribute) (v : Value)
    (fields : List (String × Value)) (name : String) : Option Value :=
  match name with
  | "__class__" => some (.member "type" k.display)
  | "__dict__" => some (.dict (fields.map fun f => (.str f.1, f.2)))
  | "__weakref__" => some .none
  | "__module__" => some (.str moduleName)
  | "__doc__" => some (.str (k.signature attributes))
  | "__annotations__" => some (.dict (fields.map fun f => (.str f.1, annotation)))
  | "__match_args__" => some (.tuple (fields.map fun f => .str f.1))
  | "__dataclass_fields__" =>
    some (.dict (fields.map fun f => (.str f.1, .member "Field" s!"Field(name='{f.1}')")))
  | "__dataclass_params__" => some parameters
  | name =>
    if ownSlots.contains name then some (boundMethod k.label name v.display) else none

def commonAtInstance? (k : ClassKind) (v : Value) (name : String) : Option Value :=
  let target := s!"{k.label} object"
  if name = encodeName then some (boundMethod "_Declared" name v.display)
  else if slots.contains name then
    some (.member "method-wrapper" s!"<method-wrapper '{name}' of {target}>")
  else if plainMethods.contains name then some (builtinMethod name target)
  else if makingMethods.contains name then some (builtinMethod name "type object")
  else none

end ClassKind

namespace Environment

def classOf? (env : Environment) : Value → Option (ClassKind × List (String × Value))
  | .record name fields => some (.record name, fields)
  | .variant owner label fields =>
    some (.alternative owner label ((env.alternatives owner).map (·.label)), fields)
  | _ => none

def classAttributes (env : Environment) : Value → List Attribute
  | .record name _ => (env.recordAttributes? name).getD []
  | .variant owner label _ => ((env.alternative? owner label).map (·.attributes)).getD []
  | _ => []

def boundCodec? (env : Environment) : Value → Option Value
  | .record name _ =>
    (env.layout? (.declared name)).map fun _ => .member "StructCodec" name
  | .variant owner .. =>
    (env.layout? (.declared owner)).map fun _ => .member "EnumCodec" owner
  | _ => none

def registeredIndex? (env : Environment) : Value → Option Value
  | .variant owner label _ =>
    (env.alternative? owner label).map fun c => (c.index.map .int).getD .none
  | _ => none

/-- A member as it is found at an instance that has no field of this name. -/
def memberOf? (env : Environment) (v : Value) (name : String) : Option Value := do
  let (k, fields) ← env.classOf? v
  if name = ClassKind.indexName then env.registeredIndex? v
  else if name = ClassKind.codecName then
    (env.boundCodec? v).or ((k.sibling? name).or (some .none))
  else
    (k.ownAtInstance? (env.classAttributes v) v fields name).or <|
      (k.shared? name).or (k.commonAtInstance? v name)

end Environment
end InkBindings.Scale
