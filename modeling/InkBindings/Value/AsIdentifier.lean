import InkBindings.Value.Conversion
/-!
Reading a value as an identifier: hexadecimal text, or anything that gives a byte string of the
right size.
-/

namespace InkBindings

inductive IdentifierKind
  | account
  | hash
  deriving DecidableEq, Repr

def IdentifierKind.name : IdentifierKind → String
  | .account => "AccountId"
  | .hash => "Hash"

inductive IdentifierError
  | invalidHex (kind : IdentifierKind) (position : Nat)
  | wrongSize (kind : IdentifierKind) (size : Nat)
  | conversion (e : ConversionError)
  deriving DecidableEq, Repr

def Hex.failureText (position : Nat) : String :=
  s!"non-hexadecimal number found in fromhex() arg at position {position}"

def IdentifierError.message? : IdentifierError → Option String
  | .invalidHex kind position => some s!"invalid hex for {kind.name}: {Hex.failureText position}"
  | .wrongSize kind size => some s!"{kind.name} must be 32 bytes, got {size}"
  | .conversion _ => none

namespace IdentifierKind

def ofBytes (kind : IdentifierKind) (b : Bytes) : Except IdentifierError Identifier :=
  match Identifier.ofBytes? b with
  | some id => .ok id
  | none => .error (.wrongSize kind b.length)

def read (kind : IdentifierKind) (v : Value) : Except IdentifierError Identifier :=
  match v with
  | .str s =>
    match Hex.decode (Hex.stripMark s) with
    | .error position => .error (.invalidHex kind position)
    | .ok b => kind.ofBytes b
  | v =>
    match v.byteSource with
    | .error e => .error (.conversion e)
    | .ok source =>
      if source.size = identifierSize then kind.ofBytes source.bytes
      else .error (.wrongSize kind source.size)

def wrap : IdentifierKind → Identifier → Value
  | .account => .accountId
  | .hash => .hash

end IdentifierKind
end InkBindings
