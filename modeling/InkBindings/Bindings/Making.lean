import InkBindings.Bindings.Basic
import InkBindings.Bindings.Names
import InkBindings.Bindings.Reference
import InkBindings.Metadata.Grouping
/-!
Making the bindings of a contract from its metadata. Names of the module are chosen one after the
other, each against all that were chosen before.
-/

namespace InkBindings.Bindings

open Metadata (Declaration EntryPoint TypeEntry TypeId)

/-- What a part of the bindings is made with: the scope, and the names in use in the module. -/
structure Context where
  scope : Scope
  names : List String

/-- Chooses the name of the module for what was wanted. -/
def Context.choose (c : Context) (wanted : String) : String × Context :=
  let name := Naming.identifier wanted c.names
  (name, { c with names := name :: c.names })

/-! ### Declared types -/

def fieldNames : Metadata.Fields → List String
  | .named fields => Naming.uniqueNames (fields.map (·.1)) recordNames
  | .positional fields => (List.range fields.length).map fun i => s!"_{i}"

/-- Whether all instantiations have a component of this type in this place. -/
def agree (instantiations : List Metadata.Fields) (place : Nat) (id : TypeId) : Bool :=
  instantiations.all fun fields => (fields.toList[place]?.map (·.typeId)) = some id

def makeRow (s : Scope) (instantiations : List Metadata.Fields) (name : String) (place : Nat)
    (field : Metadata.Field) : Outcome Row := do
  let annotation ←
    if agree instantiations place field.typeId then s.annotation field.typeId else pure .any
  return ⟨name, annotation, ← s.codec field.typeId, field.docs⟩

/-- The components of a record of which there may be further instantiations. -/
def makeRows (s : Scope) (first : Metadata.Fields) (others : List Metadata.Fields) :
    Outcome (List Row) :=
  ((fieldNames first).zip first.toList).zipIdx.mapM fun ((name, field), place) =>
    makeRow s (first :: others) name place field

def recordFields (e : TypeEntry) : Outcome Metadata.Fields :=
  match e.definition with
  | .composite fields => .ok fields
  | _ => .error .notARecord

def sumAlternatives (e : TypeEntry) : Outcome (List Metadata.Alternative) :=
  match e.definition with
  | .variant alternatives => .ok alternatives
  | _ => .error .notASum

def makeLayouts (d : Declaration) (layout : TypeEntry → Outcome Layout) :
    Outcome (List (Scale.Reference × Layout)) :=
  d.entries.mapM fun e => do
    return (.instantiation (d.instanceName e.id) d.name, ← layout e)

def makeRecord (s : Scope) (d : Declaration) (first : Metadata.Fields) :
    Outcome DeclaredType := do
  let others ← d.others.mapM recordFields
  let rows ← makeRows s first others
  let layouts ←
    if d.isGeneric then
      makeLayouts d fun e => do
        return .record (layoutOf (← makeRows s (← recordFields e) []))
    else pure [(.declared d.name, .record (layoutOf rows))]
  return ⟨d.name, d.first.docs, .record rows, layouts⟩

/-- The components of the alternative of a name; there are none if it is missing. -/
def fieldsOfAlternative (name : String) (alternatives : List Metadata.Alternative) :
    Metadata.Fields :=
  match alternatives.find? (·.name = name) with
  | some a => a.fields
  | none => .positional []

def makeAlternative (c : Context) (d : Declaration) (first : List Metadata.Alternative)
    (a : Metadata.Alternative) : Outcome (Alternative × Context) := do
  let (className, c) := c.choose s!"_{d.name}_{a.name}"
  let others ← d.others.mapM sumAlternatives
  let rows ← makeRows c.scope (fieldsOfAlternative a.name first)
    (others.map (fieldsOfAlternative a.name))
  return (⟨a.name, a.index, className, rows, a.docs⟩, c)

def makeAlternatives (d : Declaration) (first : List Metadata.Alternative) (c : Context) :
    List Metadata.Alternative → Outcome (List Alternative × Context)
  | [] => .ok ([], c)
  | a :: rest => do
    let (alternative, c) ← makeAlternative c d first a
    let (more, c) ← makeAlternatives d first c rest
    return (alternative :: more, c)

/-- The class of the alternative that was emitted last under a label. -/
def classOf (emitted : List Alternative) (label : String) : Outcome String :=
  match emitted.reverse.find? (·.label = label) with
  | some a => .ok a.className
  | none => .error (.missingAlternative label)

def makeSumLayout (s : Scope) (emitted : List Alternative)
    (alternatives : List Metadata.Alternative) : Outcome Layout := do
  return .sum (← alternatives.mapM fun a => do
    let className ← classOf emitted a.name
    return (className, layoutOf (← makeRows s a.fields [])))

def makeSum (c : Context) (d : Declaration) (first : List Metadata.Alternative) :
    Outcome (DeclaredType × Context) := do
  let (emitted, c) ← makeAlternatives d first c first
  let layouts ←
    if d.isGeneric then
      makeLayouts d fun e => do makeSumLayout c.scope emitted (← sumAlternatives e)
    else do
      pure [(.declared d.name, ← makeSumLayout c.scope emitted first)]
  return (⟨d.name, d.first.docs, .sum emitted, layouts⟩, c)

def makeDeclared (c : Context) (d : Declaration) : Outcome (DeclaredType × Context) := do
  match d.first.definition with
  | .composite fields => return (← makeRecord c.scope d fields, c)
  | _ => makeSum c d (← sumAlternatives d.first)

def makeAllDeclared (c : Context) : List Declaration → Outcome (List DeclaredType × Context)
  | [] => .ok ([], c)
  | d :: rest => do
    let (declared, c) ← makeDeclared c d
    let (more, c) ← makeAllDeclared c rest
    return (declared :: more, c)

/-! ### Events -/

def makeEventRow (s : Scope) (name : String) (field : Metadata.EventField) : Outcome Row := do
  let annotation ← s.annotation field.typeId
  return ⟨name, annotation, ← s.codec field.typeId, field.docs⟩

def makeEvent (s : Scope) (className : String) (index : Nat) (e : Metadata.Event) :
    Outcome Alternative := do
  let names := Naming.uniqueNames (e.fields.map (·.label)) recordNames
  let rows ← (names.zip e.fields).mapM fun (name, field) => makeEventRow s name field
  return ⟨e.label, index, className, rows, e.docs⟩

/-- Events go by their places in the document. -/
def makeEvents (s : Scope) (events : List Metadata.Event) : Outcome (List Alternative) :=
  let names := Naming.uniqueNames (events.map (·.label)) [eventClass]
  (names.zip events).zipIdx.mapM fun ((name, e), index) => makeEvent s name index e

/-! ### Constructors and messages -/

def makeParameter (s : Scope) (name : String) (a : Metadata.Argument) : Outcome Parameter := do
  let annotation ← s.annotation a.typeId
  return ⟨name, annotation, ← s.codec a.typeId⟩

/-- Parameters take no name of the module. -/
def makeParameters (c : Context) (e : EntryPoint) : Outcome (List Parameter) :=
  let names := Naming.uniqueNames (e.arguments.map (·.label)) c.names
  (names.zip e.arguments).mapM fun (name, a) => makeParameter c.scope name a

def makeConstructor (c : Context) (e : EntryPoint) (name : String) : Outcome Constructor := do
  return ⟨name, e.docs, ← makeParameters c e, e.selector, e.payable⟩

/-- The type of calls of a message. What changes the contract goes by its selector. -/
def callType (mutators : List Bytes) (e : EntryPoint) : CallType :=
  if mutators.contains e.selector then
    if e.payable then .execNeedsValue else .exec
  else .read

def returnAnnotation (s : Scope) (e : EntryPoint) : Outcome Annotation :=
  match e.returnType with
  | some id => s.annotation id
  | none => .ok .none

def returnCodec (s : Scope) (e : EntryPoint) : Outcome Scale.Codec :=
  match e.returnType with
  | some id => s.codec id
  | none => .ok .unit

def makeSignature (c : Context) (mutators : List Bytes) (e : EntryPoint) (name : String) :
    Outcome Signature := do
  let parameters ← makeParameters c e
  return ⟨name, e.docs, parameters, callType mutators e, ← returnAnnotation c.scope e⟩

def makeMessage (c : Context) (mutators : List Bytes) (e : EntryPoint) (name : String) :
    Outcome Message := do
  let parameters ← makeParameters c e
  let codec ← returnCodec c.scope e
  let returns ← returnAnnotation c.scope e
  return ⟨⟨name, e.docs, parameters, callType mutators e, returns⟩, e.selector, codec⟩

/-- Makes the namespace of a label. Its property is none of those in `properties`. -/
def makeNamespace (c : Context) (mutators : List Bytes) (properties : List String)
    (label : String) (messages : List EntryPoint) : Outcome (Namespace × Context) := do
  let (interface, c) := c.choose label
  let (implementation, c) := c.choose s!"_Instance{interface}"
  let methods := messages.zip
    (Naming.uniqueNames (messages.map (·.methodName)) instanceNames)
  let signatures ← methods.mapM fun (e, name) => makeSignature c mutators e name
  let messages ← methods.mapM fun (e, name) => makeMessage c mutators e name
  let property := Naming.identifier label (properties ++ instanceNames)
  return (⟨label, interface, implementation, property, signatures, messages⟩, c)

def makeNamespaces (mutators : List Bytes) (c : Context) (properties : List String) :
    List (String × List EntryPoint) → Outcome (List Namespace × Context)
  | [] => .ok ([], c)
  | (label, messages) :: rest => do
    let (first, c) ← makeNamespace c mutators properties label messages
    let (more, c) ← makeNamespaces mutators c (first.property :: properties) rest
    return (first :: more, c)

/-! ### The module -/

/-- The names of the methods of an instance, those of its constructors first. -/
def methodNames (constructors messages : List EntryPoint) (properties : List String) :
    List String :=
  Naming.uniqueNames (constructors.map (·.label) ++ messages.map (·.label))
    (instanceNames ++ properties)

/-- The bindings of a contract, made where there is so much room for calls. -/
def within? (room : Room) (m : Metadata) : Outcome Bindings := do
  let groups ← ofMetadata (Metadata.groupMessages m.messages)
  let registry : Metadata.Registry := ⟨m.types⟩
  let declarations := registry.declarations moduleNames
  let scope : Scope := ⟨registry, declarations, room⟩
  let mutators := (Metadata.mutators m.messages).map (·.selector)
  let (declared, c) ← makeAllDeclared ⟨scope, moduleNames ++ declarations.map (·.name)⟩ declarations
  let events ← makeEvents scope m.events
  let (namespaces, c) ← makeNamespaces mutators c [] groups.grouped
  let names := methodNames m.constructors groups.inherent (namespaces.map (·.property))
  let constructors ← (m.constructors.zip names).mapM fun (e, name) => makeConstructor c e name
  let messages ← (groups.inherent.zip (names.drop m.constructors.length)).mapM fun (e, name) =>
    makeMessage c mutators e name
  return ⟨m.name, m.codeHash, declared, events, namespaces, constructors, messages⟩

def ofMetadata? (m : Metadata) : Outcome Bindings := within? .unbounded m

end InkBindings.Bindings
