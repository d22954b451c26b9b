import InkBindings.Json.Encoding
import InkBindings.Metadata.Definition
/-!
Reading the metadata of a contract from a document: first its shape, then what the shape cannot
tell, in the order of the document.
-/

namespace InkBindings.Metadata

def selectorSize : Nat := 4
def hashSize : Nat := 32

def liftError {α : Type} : Except MetadataError α → Except ReadFailure α
  | .ok a => .ok a
  | .error e => .error (.metadata e)

def checkVersion : Option Version → Except ReadFailure Unit
  | none => .ok ()
  | some v =>
    if supportedVersions.contains v.plain then .ok ()
    else .error (malformed (.unsupportedVersion v) none)

/-- Bytes in hexadecimal, with or without its mark; where a length is asked for, so many. -/
def readHex (field : String) (length : Option Int) (value : String) : Except MetadataError Bytes :=
  let digits := Hex.stripMark value
  if digits.length % 2 ≠ 0 then .error (.invalidHex field value length)
  else
    match Hex.decode digits with
    | .error _ => .error (.invalidHex field value length)
    | .ok b =>
      if length.all (· = (b.length : Int)) then .ok b else .error (.invalidHex field value length)

/-- Reads the types in order. No two may have the same id. -/
def readTypes (seen : List TypeEntry) : List Document.TypeItem → Except ReadFailure (List TypeEntry)
  | [] => .ok seen
  | item :: rest =>
    if seen.any (·.id = item.id) then
      .error (malformed (.duplicateType item.id) (some "types"))
    else do
      let definition ← readDefinition item.id item.type.definition
      readTypes (seen ++ [⟨item.id, definition, item.type.path, item.type.parameters,
        item.type.docs⟩]) rest

/-- Reads an entry point; `place` tells where it is. -/
def readEntry (place : String) (e : Document.EntryItem) : Except ReadFailure EntryPoint := do
  let selector ← liftError (readHex (place ++ ".selector") (some selectorSize) e.selector)
  return ⟨e.label, selector, e.arguments, e.returnType, e.mutates, e.payable, e.docs⟩

def readEntries (list : String) (index : Nat) :
    List Document.EntryItem → Except ReadFailure (List EntryPoint)
  | [] => .ok []
  | e :: rest => do
    let entry ← readEntry s!"spec.{list}[{index}]" e
    return entry :: (← readEntries list (index + 1) rest)

def ofDocument (d : Document) : Except ReadFailure Metadata := do
  checkVersion d.version
  let types ← readTypes [] d.types
  let constructors ← readEntries "constructors" 0 d.spec.constructors
  let messages ← readEntries "messages" 0 d.spec.messages
  let codeHash ← liftError (readHex "source.hash" (some hashSize) d.hash)
  return ⟨codeHash, types, constructors, messages, d.spec.events, d.name⟩

def ofJson (j : Json) : Except ReadFailure Metadata :=
  match j with
  | .object members =>
    if members.any fun m => m.1 = "V3" || m.1 = "V1" then .error (malformed .legacy none)
    else
      match Check.document members with
      | .ok d => ofDocument d
      | .bad first _ => .error (malformed (.shape first.problem) (some first.location))
  | j => .error (malformed (.notAnObject j.typeName) none)

def ofRead (text : String) : Except Json.ReadError Json → Except ReadFailure Metadata
  | .ok j => ofJson j
  | .error (.malformed problem position) =>
    .error (malformed (.syntaxProblem problem position text) none)
  | .error (.tooManyDigits count) => .error (.tooManyDigits count)
  | .error (.tooDeep container) => .error (.tooDeep container)

def ofText (text : String) : Except ReadFailure Metadata :=
  ofRead text (Json.read text)

/-- Reads a document that is given as the bytes of a text. Bytes may start with a byte order mark;
a second one is no value. -/
def ofBytes (b : Bytes) : Except ReadFailure Metadata :=
  match Json.textOfBytes? b with
  | some text => ofRead text (Json.readChars text.toList)
  | none => .error .undecodable

def unreadable (path reason : String) : ReadFailure :=
  malformed (.unreadable path reason) none

end InkBindings.Metadata
