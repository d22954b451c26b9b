import InkBindings.Text.Numeral
import InkBindings.Value.Basic
/-!
Reading one kind of value as another: integers, byte strings and sequences.
-/

namespace InkBindings

inductive ConversionError
  | notConvertible
  | notANumeral
  | notANumber
  | infinite
  | negativeCount
  | itemOutOfRange
  | notText
  /-- A count for which there are addresses, but not for what goes with it. -/
  | tooLarge
  /-- A count that no address space holds. -/
  | beyondAddresses
  | beyondMemory
  deriving DecidableEq, Repr

/-- A byte string that is given, or one of zeros of which only the length is. -/
inductive ByteSource
  | zeros (count : Nat)
  | content (b : Bytes)

namespace ByteSource

def size : ByteSource → Nat
  | .zeros count => count
  | .content b => b.length

def bytes : ByteSource → Bytes
  | .zeros count => List.replicate count 0
  | .content b => b

end ByteSource

namespace Value

def asciiDigit? (c : Char) : Option Nat :=
  if c.isDigit then some (c.toNat - 48) else Option.none

def readByteNumeral (b : Bytes) : Except Text.NumeralError Int :=
  Text.readSigned asciiDigit? (Text.trimChars Hex.isBlank (b.map fun x => Char.ofNat x.toNat))

def integerOfBytes (b : Bytes) : Except ConversionError Int :=
  match readByteNumeral b with
  | .ok n => .ok n
  | .error _ => .error .notANumeral

/-- The integer a value stands for: numbers lose their fraction, texts are read as numerals. -/
def integer : Value → Except ConversionError Int
  | .bool b => .ok (if b then 1 else 0)
  | .int n => .ok n
  | .float x =>
    match x.truncate? with
    | some n => .ok n
    | Option.none => .error (if x.isNan then .notANumber else .infinite)
  | .str s =>
    match Text.readInteger s with
    | .ok n => .ok n
    | .error _ => .error .notANumeral
  | .bytes b | .byteArray b => integerOfBytes b
  | .accountId id | .hash id => integerOfBytes id.bytes
  | .compact inner => integer inner
  | _ => .error .notConvertible

/-- The integer a value is, as a count or as an item of a byte string. -/
def index? : Value → Option (Except ConversionError Int)
  | .bool b => some (.ok (if b then 1 else 0))
  | .int n => some (.ok n)
  | .compact inner => some (integer inner)
  | _ => Option.none

def byteOfItem (v : Value) : Except ConversionError UInt8 :=
  match v.index? with
  | Option.none => .error .notConvertible
  | some n => do
    let n ← n
    if 0 ≤ n ∧ n < 256 then .ok (UInt8.ofNat n.toNat) else .error .itemOutOfRange

def maxZeros : Nat := 2 ^ 36

def zerosOf (n : Int) : Except ConversionError ByteSource :=
  if n < -(2 ^ 63) ∨ 2 ^ 63 ≤ n then .error .beyondAddresses
  else if 2 ^ 63 - 34 < n then .error .tooLarge
  else if n < 0 then .error .negativeCount
  else if maxZeros < n.toNat then .error .beyondMemory
  else .ok (.zeros n.toNat)

/-- The byte string a value gives: its content, as many zeros as it counts, or its items. -/
def byteSource (v : Value) : Except ConversionError ByteSource :=
  match v.byteContent? with
  | some b => .ok (.content b)
  | Option.none =>
    match v with
    | .list items | .tuple items => (items.mapM byteOfItem).map .content
    | .dict entries => (entries.mapM fun e => byteOfItem e.1).map .content
    | v =>
      match v.index? with
      | some n => n.bind zerosOf
      | Option.none => .error .notConvertible

def members? : Value → Option (List Value)
  | .list items | .tuple items => some items
  | .dict entries => some (entries.map (·.1))
  | .str s => some (s.toList.map fun c => .str (String.singleton c))
  | .bytes b | .byteArray b => some (b.map fun x => .int x.toNat)
  | .accountId id | .hash id => some (id.bytes.map fun x => .int x.toNat)
  | _ => Option.none

def size? (v : Value) : Option Nat :=
  v.members?.map List.length

end Value
end InkBindings
