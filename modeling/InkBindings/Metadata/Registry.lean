import InkBindings.Metadata.Error
import InkBindings.Naming
/-!
The types of a contract by their ids. A type belongs to the framework, is built in, or is declared
by the contract. What the contract declares is grouped by path: the instantiations of a generic
type have one path and make one declaration.
-/

namespace InkBindings.Metadata

structure Registry where
  entries : List TypeEntry

inductive Kind
  | builtin
  | reserved
  | custom
  deriving DecidableEq, Repr

def Kind.name : Kind → String
  | builtin => "builtin"
  | reserved => "reserved"
  | custom => "custom"

def reservedNamespace : String := "ink_primitives"

def langErrorName : String := "LangError"

def Definition.isStructured : Definition → Bool
  | .composite _ | .variant _ => true
  | _ => false

def TypeEntry.kind (e : TypeEntry) : Kind :=
  if e.path.head? = some reservedNamespace then .reserved
  else if e.path.length ≤ 1 || !e.definition.isStructured then .builtin
  else .custom

def TypeEntry.isLangError (e : TypeEntry) : Bool :=
  e.kind = .reserved && e.name = langErrorName

/-- Sequences and arrays of this type are byte strings. -/
def TypeEntry.isU8 (e : TypeEntry) : Bool :=
  e.definition = .primitive (.int ⟨false, .w8⟩)

namespace Registry

def find? (r : Registry) (id : TypeId) : Option TypeEntry :=
  r.entries.find? (·.id = id)

def contains (r : Registry) (id : TypeId) : Bool :=
  (r.find? id).isSome

def resolve (r : Registry) (id : TypeId) : Except MetadataError TypeEntry :=
  match r.find? id with
  | some e => .ok e
  | none => .error (.unresolved id)

end Registry

/-- A type that the contract declares: its entries are the first one and the further
instantiations, in the order of the registry. -/
structure Declaration where
  name : String
  path : List String
  first : TypeEntry
  others : List TypeEntry

namespace Declaration

def entries (d : Declaration) : List TypeEntry :=
  d.first :: d.others

/-- Whether the type has several instantiations, or parameters. -/
def isGeneric (d : Declaration) : Bool :=
  !d.others.isEmpty || !d.first.arguments.isEmpty

def isVariant (d : Declaration) : Bool :=
  match d.first.definition with
  | .variant _ => true
  | _ => false

def instanceName (d : Declaration) (id : TypeId) : String :=
  s!"_{d.name}_{id}"

end Declaration

/-- Adds an entry to those of its path, which come last if there were none. -/
def addToPath (e : TypeEntry) :
    List (TypeEntry × List TypeEntry) → List (TypeEntry × List TypeEntry)
  | [] => [(e, [])]
  | (first, others) :: rest =>
    if first.path = e.path then (first, others ++ [e]) :: rest
    else (first, others) :: addToPath e rest

/-- The entries of each path: the first of them and the others. -/
def groupByPath (entries : List TypeEntry) : List (TypeEntry × List TypeEntry) :=
  entries.foldl (fun groups e => addToPath e groups) []

/-- Names the declarations by the last segments of their paths. -/
def declare : (groups : List (TypeEntry × List TypeEntry)) → (taken : List String) →
    List Declaration
  | [], _ => []
  | (first, others) :: rest, taken =>
    let name := Naming.identifier first.name taken
    ⟨name, first.path, first, others⟩ :: declare rest (name :: taken)

/-- The types that the contract declares, in the order of the registry. No name of theirs is
reserved. -/
def Registry.declarations (r : Registry) (reserved : List String) : List Declaration :=
  declare (groupByPath (r.entries.filter (·.kind = .custom))) reserved

end InkBindings.Metadata
