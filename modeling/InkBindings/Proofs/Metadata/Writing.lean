import InkBindings.Metadata.Reading

/-!
Metadata written out as a document, member by member. A member that is null, false or empty says no
more than one that is left out, and a document may do either.
-/

namespace InkBindings.Metadata

/-- How members that say nothing are written. -/
inductive Manner
  | full
  | brief
  deriving DecidableEq, Repr

/-- The fields with their names. -/
def Fields.parts : Fields → List (Option String × Field)
  | .named fields => fields.map fun (name, f) => (some name, f)
  | .positional fields => fields.map (none, ·)

namespace Manner

/-- A member that says nothing if it is `silent`. -/
def member (manner : Manner) (silent : Bool) (j : Json) : Option Json :=
  if manner = .brief && silent then none else some j

def written (members : List (String × Option Json)) : Json.Members :=
  members.filterMap fun m => m.2.map (m.1, ·)

/-- An object of those members that are written. -/
def object (members : List (String × Option Json)) : Json :=
  .object (written members)

def nullable {α : Type} (write : α → Json) : Option α → Json
  | some a => write a
  | none => .null

variable (manner : Manner)

def optional {α : Type} (write : α → Json) (a : Option α) : Option Json :=
  manner.member a.isNone (nullable write a)

def list {α : Type} (write : α → Json) (as : List α) : Option Json :=
  manner.member as.isEmpty (.array (as.map write))

def flag (b : Bool) : Option Json :=
  manner.member (!b) (.bool b)

/-! ### Types -/

def component (part : Option String × Field) : Json :=
  object [("name", manner.optional .str part.1), ("type", some (.int part.2.typeId)),
    ("typeName", manner.optional .str part.2.typeName), ("docs", manner.list .str part.2.docs)]

def alternative (a : Alternative) : Json :=
  object [("name", some (.str a.name)), ("index", some (.int a.index)),
    ("fields", manner.list manner.component a.fields.parts), ("docs", manner.list .str a.docs)]

/-- The kind of a definition, and its body. -/
def definition : Definition → String × Json
  | .primitive p => ("primitive", .str p.name)
  | .tuple items => ("tuple", .array (items.map .int))
  | .array item length =>
    ("array", object [("len", some (.int length)), ("type", some (.int item))])
  | .sequence item => ("sequence", object [("type", some (.int item))])
  | .compact item => ("compact", object [("type", some (.int item))])
  | .composite fields =>
    ("composite", object [("fields", manner.list manner.component fields.parts)])
  | .variant alternatives =>
    ("variant", object [("variants", manner.list manner.alternative alternatives)])
  | .bitSequence store order =>
    ("bitsequence", object [("bit_store_type", some (.int store)),
      ("bit_order_type", some (.int order))])

def parameter (p : Parameter) : Json :=
  object [("name", some (.str p.name)), ("type", manner.optional .int p.typeId)]

def typeNode (e : TypeEntry) : Json :=
  object [("path", manner.list .str e.path), ("params", manner.list manner.parameter e.parameters),
    ("def", some (.object [manner.definition e.definition])), ("docs", manner.list .str e.docs)]

def typeItem (e : TypeEntry) : Json :=
  object [("id", some (.int e.id)), ("type", some (manner.typeNode e))]

/-! ### Entry points and events -/

def typeUse (id : TypeId) : Json :=
  object [("type", some (.int id)), ("displayName", manner.list .str [])]

def argument (a : Argument) : Json :=
  object [("label", some (.str a.label)), ("type", some (manner.typeUse a.typeId))]

def hex (b : Bytes) : Json :=
  .str ("0x" ++ Hex.encode b)

def entryMembers (e : EntryPoint) : List (String × Option Json) :=
  [("args", manner.list manner.argument e.arguments), ("docs", manner.list .str e.docs),
    ("label", some (.str e.label)), ("payable", manner.flag e.payable),
    ("returnType", manner.optional manner.typeUse e.returnType),
    ("selector", some (hex e.selector))]

/-- That a constructor changes the contract goes without saying. -/
def constructor (e : EntryPoint) : Json :=
  object (manner.entryMembers e)

def message (e : EntryPoint) : Json :=
  object (("mutates", manner.flag e.mutates) :: manner.entryMembers e)

def eventField (f : EventField) : Json :=
  object [("docs", manner.list .str f.docs), ("indexed", manner.flag f.indexed),
    ("label", some (.str f.label)), ("type", some (manner.typeUse f.typeId))]

def event (e : Event) : Json :=
  object [("args", manner.list manner.eventField e.fields), ("docs", manner.list .str e.docs),
    ("label", some (.str e.label))]

/-! ### The document -/

def contract (name : Option String) : Option Json :=
  manner.member name.isNone (object [("name", manner.optional .str name)])

def spec (m : Metadata) : Json :=
  object [("constructors", manner.list manner.constructor m.constructors),
    ("events", manner.list manner.event m.events),
    ("messages", manner.list manner.message m.messages)]

def document (m : Metadata) : Json :=
  object [("source", some (object [("hash", some (hex m.codeHash))])),
    ("contract", manner.contract m.name), ("spec", some (manner.spec m)),
    ("types", some (.array (m.types.map manner.typeItem))), ("version", some (.str "4"))]

end Manner
end InkBindings.Metadata
