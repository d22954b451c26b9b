import InkBindings.Text.Lines
import InkBindings.Text.Case
import InkBindings.Value.Conversion
import InkBindings.Value.Display
import InkBindings.Value.Order
/-!
What values of the plain kinds can be asked by name: their size, their text, the number or the byte
string that they stand for.
-/

namespace InkBindings.Value

inductive Answer
  | given (v : Value)
  | unknown
  /-- What has this name takes other arguments, or none at all. -/
  | refused
  | failed (e : ConversionError)

/-- The parts of plain values that take no arguments at all. -/
def plainParts : Value → List String
  | .bool _ | .int _ => ["real", "imag", "numerator", "denominator"]
  | .float _ => ["real", "imag"]
  | .accountId _ | .hash _ => ["SCALE"]
  | .exception .. => ["args"]
  | _ => []

def ofInteger : Except ConversionError Int → Answer
  | .ok n => .given (.int n)
  | .error e => .failed e

def bitLength (n : Int) : Nat :=
  if n = 0 then 0 else n.natAbs.log2 + 1

def lookUp (entries : List (Value × Value)) (key usual : Value) : Value :=
  ((entries.find? fun e => equals e.1 key).map (·.2)).getD usual

def askAny (v : Value) (name : String) (arguments : List Value) : Answer :=
  let whenAlone (answer : Value) : Answer := if arguments.isEmpty then .given answer else .refused
  match name with
  | "__repr__" => whenAlone (.str v.display)
  | "__str__" => whenAlone (.str v.text)
  | "__len__" =>
    match v.size? with
    | some n => whenAlone (.int n)
    | Option.none => .unknown
  | _ => .unknown

/-- An integer in a number of bytes, which are eight times as many binary digits. -/
def bytesOfInteger (n length : Int) (order : String) : Answer :=
  if order ≠ "little" ∧ order ≠ "big" then .failed .notANumber
  else if length < 0 then .failed .negativeCount
  else if n < 0 ∨ 8 * length.toNat < bitLength n then .failed .tooLarge
  else
    let written := Bytes.ofNat length.toNat n.toNat
    .given (.bytes (if order = "little" then written else written.reverse))

def askNumber (n : Int) (name : String) (arguments : List Value) : Answer :=
  match name, arguments with
  | "bit_length", [] => .given (.int (bitLength n))
  | "__index__", [] | "__int__", [] | "conjugate", [] => .given (.int n)
  | "to_bytes", [] => bytesOfInteger n 1 "big"
  | "to_bytes", [.int length] => bytesOfInteger n length "big"
  | "to_bytes", [.int length, .str order] => bytesOfInteger n length order
  | "bit_length", _ | "__index__", _ | "__int__", _ | "conjugate", _ | "to_bytes", _ => .refused
  | _, _ => .unknown

def isUtf8 (name : String) : Bool :=
  ["utf-8", "utf8", "utf_8"].contains (Text.lower name)

def askText (s : String) (name : String) (arguments : List Value) : Answer :=
  match name, arguments with
  | "encode", [] => .given (.bytes (Bytes.ofText s))
  | "encode", [.str encoding] =>
    if isUtf8 encoding then .given (.bytes (Bytes.ofText s)) else .refused
  | "upper", [] => .given (.str (Text.upper s))
  | "strip", [] => .given (.str (Text.strip s))
  | "encode", _ | "upper", _ | "strip", _ => .refused
  | _, _ => .unknown

def textOfBytes (b : Bytes) : Answer :=
  match b.toText? with
  | some s => .given (.str s)
  | Option.none => .failed .notText

def askBytes (b : Bytes) (name : String) (arguments : List Value) : Answer :=
  match name, arguments with
  | "hex", [] => .given (.str (Hex.encode b))
  | "decode", [] => textOfBytes b
  | "decode", [.str encoding] => if isUtf8 encoding then textOfBytes b else .refused
  | "hex", _ | "decode", _ => .refused
  | _, _ => .unknown

def askItems (v : Value) (items : List Value) (name : String) (arguments : List Value) : Answer :=
  match name, arguments with
  | "count", [x] => .given (.int (items.filter (equals x)).length)
  | "index", [x] =>
    match items.findIdx? (equals · x) with
    | some i => .given (.int i)
    | Option.none => .failed .notANumber
  | "count", _ | "index", _ => .refused
  | "copy", rest => match v with
    | .list _ => if rest.isEmpty then .given v else .refused
    | _ => .unknown
  | _, _ => .unknown

def askEntries (entries : List (Value × Value)) (name : String) (arguments : List Value) : Answer :=
  match name, arguments with
  | "get", [key] => .given (lookUp entries key .none)
  | "get", [key, usual] => .given (lookUp entries key usual)
  | "copy", [] => .given (.dict entries)
  | "get", _ | "copy", _ => .refused
  | _, _ => .unknown

def ask (v : Value) (name : String) (arguments : List Value) : Answer :=
  if v.plainParts.contains name then .refused
  else
    let answer : Answer :=
      match v with
      | .bool b => askNumber (if b then 1 else 0) name arguments
      | .int n => askNumber n name arguments
      | .str s => askText s name arguments
      | .list items | .tuple items => askItems v items name arguments
      | .dict entries => askEntries entries name arguments
      | .compact inner =>
        match name, arguments with
        | "__index__", [] | "__int__", [] => ofInteger inner.integer
        | "__index__", _ | "__int__", _ => .refused
        | _, _ => .unknown
      | v =>
        match v.byteContent? with
        | some b => askBytes b name arguments
        | Option.none => .unknown
    match answer with
    | .unknown => v.askAny name arguments
    | answer => answer

end InkBindings.Value
