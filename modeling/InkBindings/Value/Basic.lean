import InkBindings.Number.Binary64
import InkBindings.Bytes.Hex
/-!
The values that calls, events and declared types carry. They are dynamic: which values a codec
takes is a question for the codec.
-/

namespace InkBindings

/-! ### Identifiers of 32 bytes: accounts and hashes -/

def identifierSize : Nat := 32

structure Identifier where
  bytes : Bytes
  size_eq : bytes.length = identifierSize
  deriving DecidableEq

namespace Identifier

def ofBytes? (b : Bytes) : Option Identifier :=
  if h : b.length = identifierSize then some ⟨b, h⟩ else none

def text (i : Identifier) : String :=
  "0x" ++ Hex.encode i.bytes

end Identifier

/-! ### Values -/

inductive Value
  | none
  | bool (b : Bool)
  | int (n : Int)
  | float (x : Binary64)
  | str (s : String)
  | bytes (b : Bytes)
  /-- A byte string that may change; unlike `bytes` it is no key of a dictionary. -/
  | byteArray (b : Bytes)
  | accountId (id : Identifier)
  | hash (id : Identifier)
  | list (items : List Value)
  | tuple (items : List Value)
  /-- Entries in the order of insertion, no two keys equal. -/
  | dict (entries : List (Value × Value))
  /-- A value that asks for the compact form. -/
  | compact (inner : Value)
  | ok (inner : Value)
  | err (inner : Value)
  | record (name : String) (fields : List (String × Value))
  | variant (owner label : String) (fields : List (String × Value))
  /-- The one alternative of the language error: the input could not be read. -/
  | langError
  | raisedLangError
  | exception (kind text : String)
  /-- What a class has under a name by itself, where a field of that name has no other value: the
  kind of member, and its text. -/
  | member (kind text : String)
  deriving Inhabited

namespace Value

def langErrorLabel : String := "CouldNotReadInput"
def langErrorName : String := "LangError"
def raisedLangErrorName : String := "InkLangError"

/-- The name of the value's type, without the type it belongs to. -/
def typeName : Value → String
  | .none => "NoneType"
  | .bool _ => "bool"
  | .int _ => "int"
  | .float _ => "float"
  | .str _ => "str"
  | .bytes _ => "bytes"
  | .byteArray _ => "bytearray"
  | .accountId _ => "AccountId"
  | .hash _ => "Hash"
  | .list _ => "list"
  | .tuple _ => "tuple"
  | .dict _ => "dict"
  | .compact _ => "Compact"
  | .ok _ => "Ok"
  | .err _ => "Err"
  | .record name _ => name
  | .variant _ label _ => label
  | .langError => langErrorLabel
  | .raisedLangError => raisedLangErrorName
  | .exception kind _ => kind
  | .member kind _ => kind

def alternativeName (owner label : String) : String :=
  owner ++ "." ++ label

/-- The name of the value's type, with the sum that an alternative belongs to. -/
def qualifiedName : Value → String
  | .variant owner label _ => alternativeName owner label
  | .langError => alternativeName langErrorName langErrorLabel
  | v => v.typeName

def byteContent? : Value → Option Bytes
  | .bytes b | .byteArray b => some b
  | .accountId id | .hash id => some id.bytes
  | _ => Option.none

mutual

def depth : Value → Nat
  | .list items | .tuple items => depthOfItems items + 1
  | .dict entries => depthOfEntries entries + 1
  | .compact inner | .ok inner | .err inner => depth inner + 1
  | .record _ fields | .variant _ _ fields => depthOfFields fields + 1
  | _ => 0
  termination_by structural v => v

def depthOfItems : List Value → Nat
  | [] => 0
  | v :: rest => max (depth v) (depthOfItems rest)
  termination_by structural vs => vs

def depthOfEntries : List (Value × Value) → Nat
  | [] => 0
  | (k, v) :: rest => max (max (depth k) (depth v)) (depthOfEntries rest)
  termination_by structural es => es

def depthOfFields : List (String × Value) → Nat
  | [] => 0
  | (_, v) :: rest => max (depth v) (depthOfFields rest)
  termination_by structural fs => fs

end

mutual

/-- A value can be a key of a dictionary unless it holds something that may change. -/
def isHashable : Value → Bool
  | .byteArray _ | .list _ | .dict _ => false
  | .tuple items => areHashable items
  | .compact inner | .ok inner | .err inner => isHashable inner
  | .record _ fields | .variant _ _ fields => haveHashable fields
  | _ => true
  termination_by structural v => v

def areHashable : List Value → Bool
  | [] => true
  | v :: rest => isHashable v && areHashable rest
  termination_by structural vs => vs

def haveHashable : List (String × Value) → Bool
  | [] => true
  | (_, v) :: rest => isHashable v && haveHashable rest
  termination_by structural fs => fs

end

end Value
end InkBindings
