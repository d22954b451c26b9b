import InkBindings.Scale.Codec
import InkBindings.Text.Utf8
import InkBindings.Value.AsIdentifier
import InkBindings.Value.Display
/-!
Why a value cannot be written, and why bytes cannot be read.
-/

namespace InkBindings.Scale

inductive EncodeError
  | integerExpected (kind : IntKind) (got : Value)
  | outOfRange (n : Int) (kind : IntKind)
  | boolExpected (got : Value)
  | characterExpected (got : Value)
  | textExpected (got : Value)
  | unitExpected (got : Value)
  | bytesExpected (codec : Codec) (got : Value)
  | byteCount (codec : Codec) (expected : Int) (got : Nat)
  | compactExpected (got : Value)
  | compactTooLarge (n : Int)
  | tupleExpected (codec : Codec) (size : Nat) (got : Value)
  | itemCount (codec : Codec) (expected : Int) (got : Nat)
  | resultExpected (codec : Codec) (got : Value)
  | recordExpected (name : String) (got : Value)
  | notAnAlternative (got : Value) (name : String)
  | missingField (got : Value) (field : String)

def EncodeError.message : EncodeError → String
  | .integerExpected kind got => s!"{kind.name} expects int, got {got.typeName}"
  | .outOfRange n kind => s!"{n} out of range for {kind.name}"
  | .boolExpected got => s!"bool expects bool, got {got.typeName}"
  | .characterExpected got => s!"char expects a 1-character str, got {got.display}"
  | .textExpected got => s!"str expects str, got {got.typeName}"
  | .unitExpected got => s!"() expects None, got {got.display}"
  | .bytesExpected codec got => s!"{codec.display} expects bytes, got {got.typeName}"
  | .byteCount codec expected got => s!"{codec.display} expects {expected} bytes, got {got}"
  | .compactExpected got => s!"compact expects a non-negative int, got {got.display}"
  | .compactTooLarge n => s!"{n} too large for compact encoding"
  | .tupleExpected codec size got => s!"{codec.display} expects a {size}-tuple, got {got.display}"
  | .itemCount codec expected got => s!"{codec.display} expects {expected} items, got {got}"
  | .resultExpected codec got => s!"{codec.display} expects Ok or Err, got {got.typeName}"
  | .recordExpected name got => s!"{name} expects {name}, got {got.typeName}"
  | .notAnAlternative got name => s!"{got.qualifiedName} is not a variant of {name}"
  | .missingField got field => s!"{got.typeName} has no field {Text.quote field}"

inductive LayoutError
  /-- The type has no layout of its own, only its instantiations have. -/
  | generic (name : String)
  /-- The layout of an instantiation has not been given yet. -/
  | unbound (name : String)
  deriving DecidableEq, Repr

def LayoutError.message : LayoutError → String
  | .generic name => s!"{name} is generic; use the codec of a concrete instantiation"
  | .unbound name => s!"layout of {name} is not bound"

inductive ContainerError
  | noSize
  | noMembers
  | emptyEntry
  | entrySize
  deriving DecidableEq, Repr

inductive BufferError
  | oneByte
  | bytes
  deriving DecidableEq, Repr

inductive EncodeFailure
  | value (e : EncodeError)
  | layout (e : LayoutError)
  | container (e : ContainerError)
  | buffer (e : BufferError)
  /-- An alternative stands where an operation of its class is looked for, and does not do. -/
  | hidden
  /-- An operation of a class leads back to itself, or there is no room for the nesting of the
  value. -/
  | endless

/-- The spelling of a compact integer that another, shorter one would replace. -/
inductive CompactFault
  | twoByte
  | fourByte
  | trailingZero
  | bigInteger
  deriving DecidableEq, Repr

def CompactFault.message : CompactFault → String
  | .twoByte => "two-byte mode"
  | .fourByte => "four-byte mode"
  | .trailingZero => "big-integer mode, trailing zero"
  | .bigInteger => "big-integer mode"

inductive DecodeError
  | truncated (needed offset available : Int)
  | invalidBool (got : Int)
  | invalidCodePoint (n : Nat)
  | invalidText (fault : Utf8.Fault)
  | nonCanonical (fault : CompactFault)
  | compactOutOfRange (n : Int) (kind : IntKind)
  | sequenceTooLong (n : Int)
  | mapTooLong (n : Int)
  | invalidOptionTag (got : Int)
  | invalidResultTag (got : Int)
  | unknownAlternative (index : String) (name : String)
  | trailing (count : Int) (name : String)
  deriving DecidableEq, Repr

/-- A byte in two hexadecimal digits; other numbers have as many as they need. -/
def shortHex (n : Int) : String :=
  if n < 0 then "-" ++ Hex.ofNat n.natAbs
  else if n < 16 then "0" ++ Hex.ofNat n.natAbs
  else Hex.ofNat n.natAbs

def DecodeError.message : DecodeError → String
  | .truncated needed offset available =>
    s!"truncated input: need {needed} byte(s) at offset {offset}, have {available}"
  | .invalidBool got => "invalid bool byte 0x" ++ shortHex got
  | .invalidCodePoint n => "invalid char code point 0x" ++ Hex.ofNat n
  | .invalidText fault => "invalid utf-8 in str: " ++ fault.message
  | .nonCanonical fault => s!"non-canonical compact ({fault.message})"
  | .compactOutOfRange n kind => s!"compact value {n} out of range for {kind.name}"
  | .sequenceTooLong n => s!"sequence length {n} exceeds remaining input"
  | .mapTooLong n => s!"map length {n} exceeds remaining input"
  | .invalidOptionTag got => "invalid Option tag 0x" ++ shortHex got
  | .invalidResultTag got => "invalid Result tag 0x" ++ shortHex got
  | .unknownAlternative index name => s!"unknown variant index {index} for {name}"
  | .trailing count name => s!"{count} trailing byte(s) after {name}"

inductive DecodeFailure
  | bytes (e : DecodeError)
  | noByte
  | conversion (e : ConversionError)
  | noText
  | identifier (e : IdentifierError)
  | layout (e : LayoutError)
  | construction (name : String)
  | hidden
  /-- A declared type contains itself with no byte in between, or more often than there is room for,
  or an operation of a class leads back to itself. -/
  | endless
  deriving DecidableEq, Repr

end InkBindings.Scale
