import InkBindings.Json.Reader
import InkBindings.Metadata.Model
import InkBindings.Text.Numeral
/-!
Why a document is not the metadata of a contract, and why no bindings can be made of it.
-/

namespace InkBindings.Metadata

inductive Step
  | key (name : String)
  | index (i : Nat)
  deriving DecidableEq, Repr

def Step.text : Step → String
  | .key name => name
  | .index i => toString i

inductive ShapeProblem
  | missing
  | notARecord (model : String)
  | notAnObject
  | notAList
  | notAText
  | notAnInteger
  | notAnIntegerText
  | fractional
  | notFinite
  | integerTooLarge
  | notATruthValue
  | unknownTruthValue
  deriving DecidableEq, Repr

def ShapeProblem.message : ShapeProblem → String
  | .missing => "Field required"
  | .notARecord model => s!"Input should be a valid dictionary or instance of {model}"
  | .notAnObject => "Input should be a valid dictionary"
  | .notAList => "Input should be a valid list"
  | .notAText => "Input should be a valid string"
  | .notAnInteger => "Input should be a valid integer"
  | .notAnIntegerText => "Input should be a valid integer, unable to parse string as an integer"
  | .fractional => "Input should be a valid integer, got a number with a fractional part"
  | .notFinite => "Input should be a finite number"
  | .integerTooLarge => "Unable to parse input string as an integer, exceeded maximum size"
  | .notATruthValue => "Input should be a valid boolean"
  | .unknownTruthValue => "Input should be a valid boolean, unable to interpret input"

inductive DefinitionProblem
  | missingKey (key : String)
  | noMembers (typeName : String)
  | listMember
  | textMember
  | notIterable (typeName : String)
  | noInteger (typeName : String)
  | notANumeral (text : String)
  | tooManyDigits (count : Nat)
  | notANumber
  | shape (count : Nat) (model : String)
  deriving DecidableEq, Repr

def DefinitionProblem.message : DefinitionProblem → String
  | .missingKey key => Text.quote key
  | .noMembers typeName => s!"'{typeName}' object is not subscriptable"
  | .listMember => "list indices must be integers or slices, not str"
  | .textMember => "string indices must be integers, not 'str'"
  | .notIterable typeName => s!"'{typeName}' object is not iterable"
  | .noInteger typeName =>
    "int() argument must be a string, a bytes-like object or a real number, " ++
      s!"not '{typeName}'"
  | .notANumeral text => Text.NumeralError.notANumeral.message (Text.quote text)
  | .tooManyDigits count => (Text.NumeralError.tooManyDigits count).message ""
  | .notANumber => "cannot convert float NaN to integer"
  | .shape count model =>
    s!"{count} validation error" ++ (if count = 1 then "" else "s") ++ s!" for {model}"

inductive Version
  | text (s : String)
  | number (n : Int)
  deriving DecidableEq, Repr

namespace Version

def plain : Version → String
  | .text s => s
  | .number n => toString n

def display : Version → String
  | .text s => Text.quote s
  | .number n => toString n

end Version

inductive DocumentProblem
  | syntaxProblem (problem : Json.Problem) (position : Nat) (text : String)
  | notAnObject (typeName : String)
  | legacy
  | unsupportedVersion (version : Version)
  | shape (problem : ShapeProblem)
  | duplicateType (id : TypeId)
  | definitionCount (kinds : List String)
  | definition (kind : String) (problem : DefinitionProblem)
  | unreadable (path reason : String)
  deriving DecidableEq, Repr

def supportedVersions : List String := ["4"]

def DocumentProblem.message : DocumentProblem → String
  | .syntaxProblem problem position text =>
    "invalid JSON: " ++ problem.messageAt position text
  | .notAnObject typeName => s!"expected a JSON object, got {typeName}"
  | .legacy => "legacy (ink! 3) metadata is not supported"
  | .unsupportedVersion version =>
    s!"unsupported metadata version {version.display} " ++
      "(supported: " ++ ", ".intercalate supportedVersions ++ ")"
  | .shape problem => problem.message
  | .duplicateType id => s!"duplicate type id {id}"
  | .definitionCount kinds =>
    "expected exactly one definition kind, got [" ++
      ", ".intercalate (kinds.map Text.quote) ++ "]"
  | .definition kind problem => s!"invalid {kind} definition: {problem.message}"
  | .unreadable path reason => s!"cannot read {path}: {reason}"

inductive UnsupportedReason
  | unknownPrimitive (body : Json)
  | unknownDefinition (kind : String)
  | bitSequence
  | parameterCount (name : String) (expected got : Nat)
  | unknownReserved (path : List String)
  | unknownBuiltin (name : String)
  | undeclared (name : String)

def UnsupportedReason.message : UnsupportedReason → String
  | .unknownPrimitive body => s!"unknown primitive {body.display}"
  | .unknownDefinition kind => s!"unknown type definition {Text.quote kind}"
  | .bitSequence => "bit sequences are not supported"
  | .parameterCount name expected got =>
    s!"{name} expects {expected} type parameter(s), got {got}"
  | .unknownReserved path => "unknown ink! type " ++ "::".intercalate path
  | .unknownBuiltin name =>
    "unknown builtin type " ++ (if name.isEmpty then "<anonymous>" else name)
  | .undeclared name => s!"custom type {name} was not declared"

end Metadata

open Metadata in
inductive MetadataError
  | malformed (problem : DocumentProblem) (location : Option String)
  | unresolved (id : TypeId)
  | mixedFields (id : TypeId) (context : String)
  | nestedNamespace (label : String)
  | invalidHex (field value : String) (length : Option Int)
  | unsupported (id : TypeId) (reason : UnsupportedReason)

def MetadataError.message : MetadataError → String
  | .malformed problem (some location) =>
    if location.isEmpty then s!"malformed metadata: {problem.message}"
    else s!"malformed metadata at {location}: {problem.message}"
  | .malformed problem none => s!"malformed metadata: {problem.message}"
  | .unresolved id => s!"Type {id} not found"
  | .mixedFields id context =>
    s!"Type {id}" ++ (if context.isEmpty then "" else s!" ({context})") ++
      " mixes named and unnamed fields"
  | .nestedNamespace label =>
    s!"Nested modules in method names are unsupported: {Text.quote label}"
  | .invalidHex field value (some length) =>
    s!"{field}: expected {length} hex-encoded bytes, got {Text.quote value}"
  | .invalidHex field value none => s!"{field}: invalid hex string {Text.quote value}"
  | .unsupported id reason => s!"Type {id} is unsupported: {reason.message}"

end InkBindings
