import InkBindings.Bindings.Basic
import InkBindings.Bindings.Docstring
import InkBindings.Bindings.Expression
import InkBindings.Bindings.Names
import InkBindings.Bytes.Hex
import InkBindings.Naming
import InkBindings.Text.Quoted
/-!
The text of bindings. Blocks of the module are two blank lines apart, and the members of a class
begin with a blank line each.
-/

namespace InkBindings.Bindings

open Text (indent unlines)

def formVersion : String := "0.1.0"

/-! ### Records and sums -/

def rowLines (qualifier : String) (r : Row) : List String :=
  s!"{r.name}: {r.annotation.text qualifier}" :: (docstring? r.docs).toList

def recordBody (qualifier : String) (docs : List String) (rows : List Row) : String :=
  let components := rows.flatMap (rowLines qualifier)
  let lines :=
    match docstring? docs, components with
    | none, [] => ["pass"]
    | none, _ => components
    | some doc, [] => [doc]
    | some doc, _ => doc :: "" :: components
  indent (unlines lines)

def recordText (name : String) (docs : List String) (rows : List Row) : String :=
  unlines ["@dataclass(frozen=True)", s!"class {name}(scale.Struct):", recordBody "" docs rows]

def sumText (name : String) (docs : List String) : String :=
  unlines [s!"class {name}(scale.Enum):", indent ((docstring? docs).getD "pass")]

def alternativeText (qualifier base : String) (a : Alternative) : String :=
  unlines [s!"@{base}.alternative(\"{a.label}\", {a.index})", "@dataclass(frozen=True)",
    s!"class {a.className}({base}):", recordBody qualifier a.docs a.rows]

def declaredBlocks (d : DeclaredType) : List String :=
  match d.shape with
  | .record rows => [recordText d.name d.docs rows]
  | .sum alternatives =>
    sumText d.name d.docs :: alternatives.map (alternativeText "" d.name)

def layoutText (qualifier : String) : Layout → String
  | .record fields => fieldList qualifier fields
  | .sum alternatives =>
    let entry (a : String × Scale.Fields) : String := s!"({a.1}, {fieldList qualifier a.2})"
    "[" ++ ", ".intercalate (alternatives.map entry) ++ "]"

/-- The statement that makes the codec of an instantiation. A class is its own codec. -/
def codecStatement? : Scale.Reference × Layout → Option String
  | (.instantiation key owner, .record _) => some s!"{key} = scale.StructCodec({owner})"
  | (.instantiation key owner, .sum _) => some s!"{key} = scale.EnumCodec({owner})"
  | _ => none

def bindingStatement : Scale.Reference × Layout → String
  | (.instantiation key _, layout) => key ++ ".bind(" ++ layoutText "" layout ++ ")"
  | (r, layout) => r.name ++ ".layout(" ++ layoutText "" layout ++ ")"

/-- A block of statements, unless there are none. -/
def statementBlock : List String → List String
  | [] => []
  | statements => [unlines statements]

/-- The declared types: the classes, then the codecs of instantiations, then all layouts. -/
def typeBlocks (declared : List DeclaredType) : List String :=
  let layouts := declared.flatMap (·.layouts)
  declared.flatMap declaredBlocks ++ statementBlock (layouts.filterMap codecStatement?) ++
    statementBlock (layouts.map bindingStatement)

/-! ### Classes with members -/

def memberBlock (members : List String) : String :=
  unlines (members.map fun m => "\n" ++ indent m)

def eventLayout (events : List Alternative) : Layout :=
  .sum (events.map fun e => (e.className, layoutOf e.rows))

def eventText (events : List Alternative) : String :=
  let members := events.map (alternativeText moduleQualifier eventClass)
  unlines ["class event:", "    \"\"\"Events emitted by the contract.\"\"\"", "",
    "    class Event(scale.Enum):",
    "        \"\"\"One alternative per contract event, in declaration order.\"\"\"",
    memberBlock members,
    s!"    Event.layout({layoutText moduleQualifier (eventLayout events)})"]

def functionText (decorators : List String) (signature : String) (body : List String) : String :=
  unlines (decorators ++ signature :: body.map indent)

def parameterText (p : Parameter) : String :=
  p.name ++ ": " ++ p.annotation.text ""

def selectorText (selector : Bytes) : String :=
  "[" ++ ", ".intercalate (selector.map fun b => toString b.toNat) ++ "]"

def parameterNames (ps : List Parameter) : List String :=
  ps.map (·.name)

def bufferName (ps : List Parameter) : String :=
  Naming.fresh "data" (parameterNames ps)

def saltName (ps : List Parameter) : String :=
  Naming.fresh "salt" (parameterNames ps)

/-- The statements that pack a call: the selector, then each argument by its codec. -/
def packingLines (selector : Bytes) (ps : List Parameter) : List String :=
  let buffer := bufferName ps
  let append (p : Parameter) : String :=
    expression "" p.codec ++ s!".encode_to({p.name}, {buffer})"
  if ps.isEmpty then [] else s!"{buffer} = bytearray({selectorText selector})" :: ps.map append

def packed (selector : Bytes) (ps : List Parameter) : String :=
  if ps.isEmpty then s!"bytes({selectorText selector})" else s!"bytes({bufferName ps})"

def constructorText (c : Constructor) : String :=
  let callType := if c.payable then "InstantiateCallNeedsValue" else "InstantiateCall"
  let salt := saltName c.parameters
  let parameters := c.parameters.map parameterText ++ ["*", s!"{salt}: bytes = b\"\""]
  let parameterList := ", ".intercalate parameters
  let result :=
    s!"return {callType}(CODE_HASH, {packed c.selector c.parameters}, Instance, salt={salt})"
  functionText ["@staticmethod"]
    s!"def {c.name}({parameterList}) -> {callType}[Instance]:"
    ((docstring? c.docs).toList ++ packingLines c.selector c.parameters ++ [result])

def signatureLine (s : Signature) : String :=
  let parameterList := ", ".intercalate ("self" :: s.parameters.map parameterText)
  s!"def {s.name}({parameterList}) -> {s.callType.name}" ++ "[" ++ s.returns.text "" ++ "]:"

def signatureText (s : Signature) : String :=
  functionText ["@abc.abstractmethod"] (signatureLine s) [(docstring? s.docs).getD "..."]

def messageText (m : Message) : String :=
  let s := m.signature
  let result :=
    s!"return {s.callType.name}(self.account_id, {packed m.selector s.parameters}, " ++
      expression "" m.returnCodec ++ ")"
  functionText [] (signatureLine s)
    ((docstring? s.docs).toList ++ packingLines m.selector s.parameters ++ [result])

def interfaceText (n : Namespace) : String :=
  unlines [s!"class {n.interface}(abc.ABC):",
    s!"    \"\"\"Messages of the ``{n.label}`` namespace.\"\"\"",
    memberBlock (n.signatures.map signatureText)]

def implementationText (n : Namespace) : String :=
  unlines [s!"class {n.implementation}({n.interface}):",
    s!"    \"\"\"``{n.label}`` messages bound to one contract instance.\"\"\"", "",
    "    __slots__ = (\"account_id\",)", "",
    "    def __init__(self, account_id: AccountId) -> None:",
    "        self.account_id = account_id",
    memberBlock (n.messages.map messageText)]

def propertyText (n : Namespace) : String :=
  unlines ["@property", s!"def {n.property}(self) -> {n.interface}:",
    s!"    return {n.implementation}(self.account_id)"]

/-- The name of the contract, if it has one that is not empty. -/
def shownName? (contractName : Option String) : Option String :=
  contractName.filter fun name => !name.isEmpty

def quotedName (name : String) : String := s!"``{name}``"

def instanceText (b : Bindings) : String :=
  let title := ((shownName? b.contractName).map quotedName).getD "ink!"
  let members := b.namespaces.map propertyText ++ b.constructors.map constructorText ++
    b.messages.map messageText
  unlines ["class Instance(ContractInstance):",
    s!"    \"\"\"Handle to one deployed {title} contract.\"\"\"", "",
    "    Event = event.Event", memberBlock members]

/-! ### The module -/

def bannerLine : String :=
  s!"# This file was auto-generated with ink-wrapper {formVersion}. Do not edit by hand."

def headerText (b : Bindings) : String :=
  let title := ((shownName? b.contractName).map fun name => quotedName name ++ " ").getD ""
  unlines [s!"\"\"\"Typed bindings for the {title}ink! contract.\"\"\"", "",
    "from __future__ import annotations", "",
    "import abc", "import os", "import sys", "from dataclasses import dataclass",
    "from typing import Any, Dict, List, Optional, Tuple", "",
    "from ink_wrapper_types import (AccountId, Compact, ContractInstance, ExecCall,",
    "                               ExecCallNeedsValue, Hash, InkLangError,",
    "                               InstantiateCall, InstantiateCallNeedsValue,",
    "                               ReadCall, Result, UploadCall, scale)", "",
    "_contract = sys.modules[__name__]", "",
    s!"CODE_HASH = bytes.fromhex(\"{Hex.encode b.codeHash}\")"]

def uploadText (path : String) : String :=
  unlines [
    "_WASM_PATH = os.path.join(os.path.dirname(os.path.abspath(__file__)), " ++
      s!"{Text.quote path})", "", "",
    "def upload() -> UploadCall:",
    "    \"\"\"Upload the contract code; the upload fails unless it hashes to CODE_HASH.\"\"\"",
    "    with open(_WASM_PATH, \"rb\") as f:",
    "        wasm = f.read()",
    "    return UploadCall(wasm, CODE_HASH)"]

structure PrintOptions where
  banner : Bool
  wasmPath : Option String

def blocks (b : Bindings) (options : PrintOptions) : List String :=
  let header := if options.banner then unlines [bannerLine, headerText b] else headerText b
  header :: typeBlocks b.declared ++ [eventText b.events] ++
    b.namespaces.flatMap (fun n => [interfaceText n, implementationText n]) ++
    [instanceText b] ++ (options.wasmPath.map uploadText).toList

def text (b : Bindings) (options : PrintOptions) : String :=
  "\n\n\n".intercalate (blocks b options) ++ "\n"

end InkBindings.Bindings
