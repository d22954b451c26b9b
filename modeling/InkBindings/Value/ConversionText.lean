import InkBindings.Text.Numeral
import InkBindings.Value.AsIdentifier
import InkBindings.Value.Display
/-!
What is said of a value that is read as another kind of value and is none: the kind of the error,
and its text.
-/

namespace InkBindings

def ConversionError.kind : ConversionError → String
  | .notConvertible => "TypeError"
  | .infinite | .tooLarge | .beyondAddresses => "OverflowError"
  | .beyondMemory => "MemoryError"
  | .notText => "UnicodeDecodeError"
  | .notANumeral | .notANumber | .negativeCount | .itemOutOfRange => "ValueError"

namespace Value

def literalText (literal : String) (r : Except Text.NumeralError Int) : String :=
  match r with
  | .ok _ => ""
  | .error e => e.message literal

def integerText (e : ConversionError) : Value → String
  | .compact inner => integerText e inner
  | v =>
    match e with
    | .infinite => "cannot convert float infinity to integer"
    | .notANumber => "cannot convert float NaN to integer"
    | .notANumeral =>
      match v, v.byteContent? with
      | .str s, _ => literalText (Text.quote s) (Text.readInteger s)
      | _, some b => literalText (Text.quoteBytes b) (readByteNumeral b)
      | _, Option.none => ""
    | _ => "int() argument must be a string, a bytes-like object or a real number, " ++
        s!"not '{v.typeName}'"

def itemText (e : ConversionError) (item : Value) : String :=
  match e, item with
  | .itemOutOfRange, _ => "bytes must be in range(0, 256)"
  | e, .compact inner => integerText e inner
  | _, item => s!"'{item.typeName}' object cannot be interpreted as an integer"

def byteItems : Value → List Value
  | .list items | .tuple items => items
  | .dict entries => entries.map (·.1)
  | _ => []

def isByte (v : Value) : Bool := v.byteOfItem.toOption.isSome

def byteSourceText (e : ConversionError) (v : Value) : String :=
  match v.byteItems.find? (!isByte ·) with
  | some item => itemText e item
  | Option.none =>
    match e, v with
    | .negativeCount, _ => "negative count"
    | .tooLarge, _ => "byte string is too large"
    | .beyondAddresses, v => s!"cannot fit '{v.typeName}' into an index-sized integer"
    | .beyondMemory, _ => ""
    | _, .str _ => "string argument without an encoding"
    | .notConvertible, v => s!"cannot convert '{v.typeName}' object to bytes"
    | e, v => integerText e v

end Value

def IdentifierError.kind : IdentifierError → String
  | .conversion e => e.kind
  | .invalidHex .. | .wrongSize .. => "ValueError"

def IdentifierError.text (v : Value) : IdentifierError → String
  | .conversion e => v.byteSourceText e
  | e => e.message?.getD ""

end InkBindings
