import InkBindings.Naming
import InkBindings.Scale.Hiding
import InkBindings.Text.Composition
import InkBindings.Text.Identifier
/-!
Declaring types: records, sums and instantiations of these.
-/

namespace InkBindings.Scale

/-- An alternative as it is declared: its label, its index if it has one, and its attributes. -/
structure AlternativeDeclaration where
  label : String
  index : Option Int
  attributes : List String

inductive Declaration
  | record (name : String) (attributes : List String)
  | sum (name : String) (alternatives : List AlternativeDeclaration)
  | instantiation (key owner : String)

inductive DeclarationError
  | invalidName (name : String)
  | invalidAttribute (name : String)
  | repeatedAttribute (name : String)
  /-- An attribute that needs a value follows one that has a value by itself. -/
  | attributeOrder (name : String)
  | changeableDefault (name : String)
  | constantAttribute (name : String)
  /-- An earlier alternative has taken a name by which alternatives are made. -/
  | makerHidden (label : String)
  | attributesHidden (label : String)
  /-- The label is a name under which a class keeps something of another kind. -/
  | reservedLabel (label : String)
  /-- The label is a name under which a class keeps what never changes. -/
  | fixedLabel (label : String)
  | unknownType (name : String)
  deriving DecidableEq, Repr

/-- An attribute is named by an identifier, written in the one form that stands for all. -/
def isAttributeName (name : String) : Bool :=
  Text.isIdentifier name && !Naming.keywords.contains name && Text.isComposed name

def checkAttributes (seen : List String) : List String → Except DeclarationError Unit
  | [] => .ok ()
  | name :: rest =>
    if !isAttributeName name then .error (.invalidAttribute name)
    else if seen.contains name then .error (.repeatedAttribute name)
    else checkAttributes (name :: seen) rest

def checkName (name : String) : Except DeclarationError Unit :=
  if name.contains '\x00' then .error (.invalidName name) else .ok ()

/-- Gives the attributes what the class has under their names, after those `seen`. -/
def withDefaults (k : ClassKind) (seen : List Attribute) :
    List String → Except DeclarationError (List Attribute)
  | [] => .ok seen
  | name :: rest =>
    let default? := k.member? name
    if default?.isNone && seen.any (·.default?.isSome) then .error (.attributeOrder name)
    else withDefaults k (seen ++ [⟨name, default?⟩]) rest

/-- The constant of the language that is no keyword. -/
def constantName : String := "__debug__"

def attributesOf (k : ClassKind) (names : List String) :
    Except DeclarationError (List Attribute) := do
  checkAttributes [] names
  checkName k.label
  if let some name := names.find? ClassKind.changeable.contains then
    throw (.changeableDefault name)
  let attributes ← withDefaults k [] names
  if names.contains constantName then throw (.constantAttribute constantName)
  return attributes

def makerName : String := "alternative"

/-- The name under which a class is told of one that is made from it. -/
def makingHookName : String := "__init_subclass__"

def hidesMaker (c : AlternativeClass) : Bool :=
  c.label = makerName || c.label = makingHookName && !c.takes 0

/-- The name under which a class keeps the attributes that it hands on. -/
def attributesName : String := "__dataclass_fields__"

/-- The labels under which a class keeps texts, other classes or its own kind. -/
def reservedLabels : List String := ["__bases__", "__class__", "__name__", "__qualname__"]

def fixedLabels : List String :=
  ["__base__", "__basicsize__", "__dict__", "__dictoffset__", "__flags__", "__itemsize__", "__mro__",
    "__text_signature__", "__weakrefoffset__"]

def checkLabel (label : String) : Except DeclarationError Unit :=
  if reservedLabels.contains label then .error (.reservedLabel label)
  else if fixedLabels.contains label then .error (.fixedLabel label)
  else .ok ()

/-- The classes of alternatives, after those `made`. Of two with one label the later counts. -/
def alternativesOf (owner : String) (made : List AlternativeClass) :
    List AlternativeDeclaration → Except DeclarationError (List AlternativeClass)
  | [] => .ok made
  | a :: rest =>
    if made.any hidesMaker then .error (.makerHidden a.label)
    else if made.any (·.label = attributesName) then .error (.attributesHidden a.label)
    else do
      let attributes ←
        attributesOf (.alternative owner a.label (made.map (·.label))) a.attributes
      checkLabel a.label
      alternativesOf owner (made.filter (·.label ≠ a.label) ++ [⟨a.label, a.index, attributes⟩]) rest

def Environment.declare (env : Environment) : Declaration → Except DeclarationError Environment
  | .record name attributes => do
    return env.addShape name (.record (← attributesOf (.record name) attributes))
  | .sum name alternatives => do
    checkName name
    return env.addShape name (.sum (← alternativesOf name [] alternatives))
  | .instantiation key owner =>
    if (env.shape? owner).isSome then .ok (env.addInstantiation key owner)
    else .error (.unknownType owner)

end InkBindings.Scale
